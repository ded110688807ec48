import EidosDB.Storage.FlatCrash
import EidosDB.Storage.SegmentTrace

/-! # Traces of the Flat Store Operations

    The durable steps of the operations of a flat store, in the order they
    are made, with the files before each of them. -/

namespace EidosDB

open Bytes Effect

/-! ## Files -/

namespace Catalog

theorem traces_writeSlots {manifest : Manifest} {slots : OrderedTable VectorId Nat}
    (change : OrderedTable VectorId Nat → OrderedTable VectorId Nat) (newRecordCount : Nat) :
    Traces (writeSlots change newRecordCount) (.stored manifest slots)
      [⟨.stored manifest slots, .commitFailure⟩] (.ok ())
      (.stored { manifest with recordCount := wrap64 newRecordCount } (change slots)) := by
  unfold writeSlots
  apply traces_next (traces_get _)
  rw [CatalogDb.currentManifest_stored]
  apply traces_next (traces_pure _ _)
  exact traces_commit _ _ _

theorem traces_create (manifest : Manifest) :
    Traces (create manifest) none
      [⟨none, .commitFailure⟩, ⟨some .fresh, .commitFailure⟩] (.ok ())
      (some (.stored manifest .empty)) := by
  unfold create
  exact traces_bind (traces_durable _ _ _) (traces_commit _ _ _)

end Catalog

namespace Segment

/-- The header of a store. -/
def headerOf (metric : Metric) (dimension : Dimension) : List Byte :=
  headerBytes (metricToU8 metric) dimension.u32

theorem length_headerOf (metric : Metric) (dimension : Dimension) :
    (headerOf metric dimension).length = headerLen := length_headerBytes _ _

theorem traces_create (metric : Metric) (dimension : Dimension) :
    Traces (create metric dimension.get) none
      (⟨none, .ioFailure⟩ :: (writeMarks [] (headerOf metric dimension) ++
        [fileMark (headerOf metric dimension), fileMark (headerOf metric dimension)]))
      (.ok ⟨dimension.get, some headerLen, 0⟩) (some (headerOf metric dimension)) := by
  have hlen := length_headerOf metric dimension
  have hroom : ([] : List Byte).length + (headerOf metric dimension).length ≤ maxFileLen := by
    rw [hlen]
    decide
  have hneeded : (wrap64 (headerLen + 0 * (unmapped dimension.get).stride)).val ≤
      (headerOf metric dimension).length := by
    rw [hlen, Nat.zero_mul]
    decide
  unfold create
  apply traces_bind File.traces_createNew
  rw [tryU32_of_lt dimension.lt]
  apply traces_next (traces_pure _ _)
  apply traces_bind (File.traces_writeAll _ hroom)
  apply traces_bind (File.traces_syncAll _)
  have hvar := traces_withVar (traces_remap (unmapped dimension.get) hneeded)
  rw [hlen] at hvar
  exact hvar

end Segment

namespace FlatDisk

variable {α : Type} {o : Outcome StorageError α}

/-- A mark of the catalog file, seen from its directory. -/
def catalogMark (disk : FlatDisk) (mark : Mark StorageError (Option CatalogDb)) :
    Mark StorageError FlatDisk :=
  ⟨{ disk with catalog := mark.state }, mark.error⟩

/-- A mark of the segment file, seen from its directory. -/
def segmentMark (disk : FlatDisk) (mark : Mark StorageError File) : Mark StorageError FlatDisk :=
  ⟨{ disk with segment := mark.state }, mark.error⟩

theorem traces_onCatalogFile (disk : FlatDisk) {m : Effect StorageError (Option CatalogDb) α}
    {marks : List (Mark StorageError (Option CatalogDb))} {catalog : Option CatalogDb}
    (h : Traces m disk.catalog marks o catalog) :
    Traces (onCatalogFile m) disk (marks.map (catalogMark disk)) o
      { disk with catalog := catalog } :=
  traces_zoom FlatDisk.catalog (fun catalog disk => { disk with catalog := catalog }) disk h

theorem traces_onSegmentFile (disk : FlatDisk) {m : Effect StorageError File α}
    {marks : List (Mark StorageError File)} {segment : File}
    (h : Traces m disk.segment marks o segment) :
    Traces (onSegmentFile m) disk (marks.map (segmentMark disk)) o
      { disk with segment := segment } :=
  traces_zoom FlatDisk.segment (fun segment disk => { disk with segment := segment }) disk h

/-! ### Opening -/

theorem traces_createDirAll (disk : FlatDisk) :
    Traces createDirAll disk [⟨disk, .ioFailure⟩] (.ok ()) disk := traces_durable _ _ _

variable {metric : Metric} {dimension : Dimension} {n : Nat} {slots : OrderedTable VectorId Nat}

theorem traces_catalogOpenAt {manifest : Manifest} :
    Traces Catalog.openAt (some (.stored manifest slots)) [] (.ok manifest)
      (some (.stored manifest slots)) := by
  unfold Catalog.openAt
  apply traces_next (traces_get _)
  dsimp only
  rw [CatalogDb.readManifest_stored]
  exact traces_pure _ _

/-- The index that is opened over a segment. -/
def openedIndex (metric : Metric) (dimension : Dimension) (n : Nat)
    (slots : OrderedTable VectorId Nat) (segment : Segment) : PersistentFlatIndex :=
  { segment := segment
    metric := metric
    dimension := dimension
    recordCount := (wrap64 n).val
    liveCount := slots.len
    tail := [] }

section Stored

variable {disk : FlatDisk}
  (hcatalog : disk.catalog = some (.stored (manifestOf metric dimension n) slots))

include hcatalog

/-- What `open` does once the manifest has been checked. -/
theorem traces_openExisting {marks : List (Mark StorageError FlatDisk)}
    {o : Outcome StorageError PersistentFlatIndex} {disk' : FlatDisk}
    (h : Traces (do
      let segment ← onSegmentFile (Segment.openAt metric dimension.get (wrap64 n).val)
      let disk ← get
      let liveCount ← liftExcept disk.catalogDb.liveCount
      pure { openedIndex metric dimension n slots segment with liveCount := liveCount })
      disk marks o disk') :
    Traces (openAt metric dimension) disk (⟨disk, .ioFailure⟩ :: marks) o disk' := by
  have hstored : Traces Catalog.openAt disk.catalog []
      (.ok (manifestOf metric dimension n)) disk.catalog := by
    rw [hcatalog]
    exact traces_catalogOpenAt
  have hfile : Traces (onCatalogFile Catalog.openAt) disk []
      (.ok (manifestOf metric dimension n)) disk := traces_onCatalogFile disk hstored
  unfold openAt
  apply traces_bind (traces_createDirAll disk)
  apply traces_next (traces_get _)
  rw [hcatalog]
  show Traces (openExisting metric dimension) disk marks o disk'
  unfold openExisting
  apply traces_next hfile
  rw [if_neg (by simp [manifestOf]), tryU32_of_lt dimension.lt]
  apply traces_next (traces_pure _ _)
  rw [if_neg (by simp [manifestOf, Dimension.u32])]
  exact h

theorem traces_openAt_stored_ok {marks : List (Mark StorageError File)} {segment : Segment}
    {file : File}
    (h : Traces (Segment.openAt metric dimension.get (wrap64 n).val) disk.segment marks
      (.ok segment) file) :
    Traces (openAt metric dimension) disk
      (⟨disk, .ioFailure⟩ :: marks.map (segmentMark disk))
      (.ok (openedIndex metric dimension n slots segment)) { disk with segment := file } := by
  have hcount : ({ disk with segment := file } : FlatDisk).catalogDb.liveCount =
      .ok slots.len := by
    rw [FlatDisk.catalogDb, hcatalog]
    rfl
  apply traces_openExisting hcatalog
  rw [← List.append_nil (marks.map _)]
  apply traces_bind (traces_onSegmentFile disk h)
  apply traces_next (traces_get _)
  rw [hcount]
  exact traces_next (traces_pure _ _) (traces_pure _ _)

theorem traces_openAt_stored_err {marks : List (Mark StorageError File)} {e : StorageError}
    {file : File}
    (h : Traces (Segment.openAt metric dimension.get (wrap64 n).val) disk.segment marks
      (.err e) file) :
    Traces (openAt metric dimension) disk
      (⟨disk, .ioFailure⟩ :: marks.map (segmentMark disk)) (.err e)
      { disk with segment := file } := by
  apply traces_openExisting hcatalog
  exact traces_bind_err (traces_onSegmentFile disk h)

end Stored

/-- A catalog file without its manifest. -/
theorem traces_openAt_fresh (metric : Metric) (dimension : Dimension) (segment : File) :
    Traces (openAt metric dimension) { catalog := some .fresh, segment := segment }
      [⟨{ catalog := some .fresh, segment := segment }, .ioFailure⟩]
      (.err (.catalog "Table 'manifest' does not exist"))
      { catalog := some .fresh, segment := segment } := by
  have hcatalog : Traces Catalog.openAt (some .fresh) []
      (.err (.catalog "Table 'manifest' does not exist")) (some .fresh) :=
    traces_next (traces_get _) (traces_throw _ _)
  unfold openAt
  apply traces_bind (traces_createDirAll _)
  apply traces_next (traces_get _)
  show Traces (openExisting metric dimension) _ _ _ _
  unfold openExisting
  apply traces_bind_err
  exact traces_onCatalogFile { catalog := some .fresh, segment := segment } hcatalog

end FlatDisk


namespace FlatStore

variable {α : Type} {s : FlatStore} {o : Outcome StorageError α}

theorem traces_onSegment {m : Effect StorageError (File × Segment) α}
    {marks : List (Mark StorageError (File × Segment))} {segment : File} {seg : Segment}
    (h : Traces m (s.disk.segment, s.index.segment) marks o (segment, seg)) :
    ∃ marks', Traces (onSegment m) s marks' o
        { disk := { s.disk with segment := segment }, index := { s.index with segment := seg } } ∧
      marks'.map (fun mark => mark.state.disk) =
        marks.map fun mark => { s.disk with segment := mark.state.1 } := by
  refine ⟨_, traces_zoom (fun s : FlatStore => (s.disk.segment, s.index.segment))
    (fun p s => { disk := { s.disk with segment := p.1 }, index := { s.index with segment := p.2 } })
    s h, ?_⟩
  rw [List.map_map]
  rfl

theorem traces_onCatalog {m : Effect StorageError CatalogDb α}
    {marks : List (Mark StorageError CatalogDb)} {db : CatalogDb}
    (h : Traces m s.catalog marks o db) :
    ∃ marks', Traces (onCatalog m) s marks' o { s with disk := { s.disk with catalog := some db } } ∧
      marks'.map (fun mark => mark.state.disk) =
        marks.map fun mark => { s.disk with catalog := some mark.state } := by
  refine ⟨_, traces_zoom FlatStore.catalog
    (fun db (s : FlatStore) => { s with disk := { s.disk with catalog := some db } }) s h, ?_⟩
  rw [List.map_map]
  rfl

end FlatStore

end EidosDB
