import EidosDB.Lib.Triples
import EidosDB.Storage.FlatCrash
import EidosDB.Storage.HnswTrace
import EidosDB.Storage.PersistentPayload

/-! # Opening and Opening Again

    Opening a store that succeeds leaves its files there, whatever was in the
    directory.  In an empty directory only an interruption keeps a store from
    being opened, and only an interruption keeps it from being opened again. -/

namespace EidosDB

open Bytes Effect

/-! ## Segments -/

namespace Segment

/-- The file is there. -/
def There (file : File) : Prop := file.isSome = true

theorem there_map {file : File} {f : List Byte → List Byte} (h : There file) :
    There (file.map f) := by
  cases file with
  | none => exact h
  | some bytes => rfl

theorem keeps_writeAll (bytes : List Byte) : Keeps There (File.writeAll bytes) := by
  induction bytes with
  | nil => exact keeps_pure _
  | cons b bytes ih =>
    refine keeps_bind ?_ fun _ => ih
    unfold File.writeByte
    apply keeps_get
    intro file _
    split
    · exact keeps_durable fun file => there_map
    · exact keeps_throw _

theorem keeps_setLen (n : Nat) : Keeps There (File.setLen n) := by
  unfold File.setLen
  split
  · exact keeps_durable fun file => there_map
  · exact keeps_throw _

theorem keeps_remap (init : Segment) (n : Nat) : Keeps There (withVar init (remap n)) := by
  apply keeps_withVar
  unfold remap
  refine keeps_bind (keeps_modify fun _ h => h) fun _ => ?_
  apply keeps_get
  intro s hs
  dsimp only
  split
  · exact keeps_throw _
  · refine keeps_bind ?_ fun _ => keeps_modify fun _ h => h
    exact keeps_zoom (fun _ _ => keeps_durable fun _ h => h) fun _ h => h

/-- A segment that is made leaves a file. -/
theorem leads_create (metric : Metric) (dimension : Nat) :
    Leads (fun _ => True) (create metric dimension) fun _ => There := by
  unfold create File.createNew
  refine leads_bind (fun _ => There) ?_ fun _ => leads_of_keeps ?_
  · apply leads_get
    intro file _
    split
    · exact leads_throw _
    · exact leads_durable fun _ _ => rfl
  · refine keeps_bind (keeps_liftExcept _) fun _ => keeps_bind (keeps_writeAll _) fun _ => ?_
    exact keeps_bind (keeps_durable fun _ h => h) fun _ => keeps_remap _ _

/-- A segment that is opened has one. -/
theorem leads_openAt (metric : Metric) (dimension recordCount : Nat) :
    Leads (fun _ => True) (openAt metric dimension recordCount) fun _ => There := by
  unfold openAt File.openExisting
  refine leads_bind (fun _ => There) ?_ fun _ => leads_of_keeps ?_
  · apply leads_get
    intro file _
    split
    · next hthere => exact leads_pure fun _ hs => hs ▸ hthere
    · exact leads_throw _
  · refine keeps_bind ?_ fun _ => keeps_bind (keeps_setLen _) fun _ =>
      keeps_bind (keeps_durable fun _ h => h) fun _ => keeps_remap _ _
    unfold validateHeader
    apply keeps_get
    intro file _
    split
    · exact keeps_throw _
    · exact keeps_liftExcept _

end Segment

/-! ## The flat index -/

namespace FlatDisk

variable {metric : Metric} {dimension : Dimension}

/-- The files of a flat index are there. -/
def There (self : FlatDisk) : Prop :=
  self.catalog.isSome = true ∧ self.segment.isSome = true

/-- What only changes the segment leaves the catalog. -/
theorem leads_onSegmentFile {α : Type} {m : Effect StorageError File α}
    (h : Leads (fun _ => True) m fun _ => Segment.There) :
    Leads (fun disk : FlatDisk => disk.catalog.isSome = true) (onSegmentFile m)
      fun _ => There := by
  apply leads_zoom
  intro disk hcatalog
  exact leads_mono h (fun _ _ => trivial) fun _ _ hsegment => ⟨hcatalog, hsegment⟩

theorem leads_openExisting : Leads (fun disk : FlatDisk => disk.catalog.isSome = true)
    (openExisting metric dimension) fun _ => There := by
  unfold openExisting
  refine leads_bind (fun _ disk => disk.catalog.isSome = true) ?_ ?_
  · -- the manifest is only read
    apply leads_zoom
    intro disk hcatalog
    unfold Catalog.openAt
    apply leads_get
    rintro file rfl
    split
    · exact leads_throw _
    · exact leads_liftExcept fun _ _ _ hs => hs ▸ hcatalog
  · intro manifest
    split
    · exact leads_throw _
    · refine leads_bind (fun _ disk => disk.catalog.isSome = true)
        (leads_liftExcept fun _ _ _ h => h) fun expectedDim => ?_
      split
      · exact leads_throw _
      · refine leads_bind _ (leads_onSegmentFile (Segment.leads_openAt _ _ _)) fun segment => ?_
        apply leads_get
        intro disk hthere
        refine leads_bind (fun _ => There)
          (leads_liftExcept fun _ _ _ hs => hs ▸ hthere) fun _ => leads_pure fun _ h => h

theorem leads_openNew :
    Leads (fun _ => True) (openNew metric dimension) fun _ => There := by
  unfold openNew
  refine leads_bind (fun _ _ => True) (leads_liftExcept fun _ _ _ h => h)
    fun expectedDim => ?_
  refine leads_bind (fun _ disk => disk.catalog.isSome = true) ?_ fun _ =>
    leads_bind _ (leads_onSegmentFile (Segment.leads_create _ _)) fun _ => leads_pure fun _ h => h
  apply leads_zoom
  intro disk _
  unfold Catalog.create
  refine leads_bind (fun _ db => db.isSome = true)
    (leads_durable fun _ _ => rfl) fun _ => ?_
  apply leads_commit
  intro db hdb
  cases db with
  | none => exact hdb
  | some db => rfl

theorem leads_openAt : Leads (fun _ => True) (openAt metric dimension) fun _ => There := by
  unfold openAt createDirAll
  refine leads_bind (fun _ _ => True) (leads_durable fun _ h => h) fun _ => ?_
  apply leads_get
  intro disk _
  split
  · next hcatalog => exact leads_mono leads_openExisting (fun _ hs => hs ▸ hcatalog) fun _ _ h => h
  · exact leads_mono leads_openNew (fun _ _ => trivial) fun _ _ h => h

/-- An empty directory can be opened. -/
theorem finishes_openAt_empty (metric : Metric) (dimension : Dimension) :
    Finishes (openAt metric dimension) empty
      fun index disk => Rep metric dimension .empty ⟨disk, index⟩ := by
  apply finishes_of_ends
  intro c
  apply ends_mono (ends_openAt_empty metric dimension rfl)
  · exact fun _ _ h => h
  · exact fun _ _ h => nomatch h

/-- The files of a ledger can. -/
theorem finishes_openAt_onDisk {l : Ledger} {junk : List Byte} {disk : FlatDisk}
    (h : OnDisk metric dimension l junk disk) :
    Finishes (openAt metric dimension) disk
      fun index disk' => Rep metric dimension l ⟨disk', index⟩ := by
  apply finishes_of_ends
  intro c
  apply ends_mono (@ends_openAt metric dimension l junk ⟨disk, .none, c⟩ h)
  · exact fun _ _ h => ⟨h.1.how, h.2⟩
  · exact fun _ _ h => nomatch h.1.planned

end FlatDisk

/-! ## The graph index -/

namespace HnswDisk

variable {pc : HnswCodec} {config : HnswConfig} {dimension : Dimension}

/-- The files of a graph index are there. -/
def There (self : HnswDisk) : Prop :=
  self.catalog.isSome = true ∧ self.segment.isSome = true

theorem leads_create : Leads (fun _ => True) (create pc config dimension) fun _ => There := by
  intro w _
  cases hsegment : w.state.segment with
  | some bytes =>
    -- a segment that is there keeps the graph from being made
    obtain ⟨marks, htrace⟩ := @traces_create_exists pc config dimension w.state bytes hsegment
    exact ends_mono (htrace.ends rfl) (fun _ _ h => nomatch h.1) fun _ _ h => h
  | none =>
    obtain ⟨marks, htrace⟩ := @traces_create_new pc config dimension w.state hsegment
    exact ends_mono (htrace.ends rfl) (fun _ _ h => h.2 ▸ ⟨rfl, rfl⟩) fun _ _ h => h

/-- A directory without a segment and without nodes can be made a graph. -/
theorem finishes_create {disk : HnswDisk} (hnone : disk.segment = none)
    (hempty : disk.db.NoNodes) : Finishes (create pc config dimension) disk
      fun index disk' => HnswRep pc config dimension [] ⟨disk', index⟩ := by
  obtain ⟨marks, htrace⟩ := @traces_create_new pc config dimension disk hnone
  have hmade : Finishes (create pc config dimension) disk fun _ _ => True :=
    finishes_of_traces htrace trivial
  have hrep : Leads (fun t => t = disk) (create pc config dimension)
      fun index disk' => HnswRep pc config dimension [] ⟨disk', index⟩ := by
    rintro w rfl
    exact ends_mono (ends_create hempty) (fun _ _ h => h.2.2) fun _ _ h => h
  exact finishes_mono (hmade.leads hrep) fun _ _ h => h.2

/-- The files of a graph can be opened. -/
theorem finishes_openAt_onDisk {g : HnswIndex} {recs : List Embedding} {junk : List Byte}
    {disk : HnswDisk} (h : HnswOnDisk pc config dimension g recs junk disk) :
    Finishes (openAt pc) disk fun index disk' =>
      HnswRep pc config dimension (recs.take g.graph.nodeCount) ⟨disk', index⟩ := by
  apply finishes_of_ends
  intro c
  apply ends_mono (@ends_openAt pc config dimension g recs junk ⟨disk, .none, c⟩ h)
  · exact fun _ _ h => ⟨h.1.how, h.2.2⟩
  · exact fun _ _ h => nomatch h.1.planned

end HnswDisk

/-! ## The lexical file -/

namespace PersistentLexicalIndex

theorem leads_openAt (codecs : LexicalCodecs) :
    Leads (fun _ => True) (openAt codecs) fun _ file => file.isSome = true := by
  unfold openAt
  refine leads_bind (fun _ file => file.isSome = true)
    (leads_durable fun _ _ => rfl) fun _ => ?_
  exact leads_bind _ (leads_commit (R := fun _ file => file.isSome = true) fun _ h => h)
    fun _ => leads_call fun _ _ h => h

/-- A missing file and one without rows can be opened. -/
theorem finishes_openAt_fresh (codecs : LexicalCodecs) {file : Option LexicalDb}
    (h : file.getD .fresh = .fresh) :
    Finishes (openAt codecs) file fun _ file' => file' = some .fresh := by
  unfold openAt
  refine finishes_bind (fun _ file' => file' = some .fresh)
    (finishes_durable (congrArg some h)) ?_
  rintro _ _ rfl
  refine finishes_bind (fun _ file' => file' = some .fresh)
    (finishes_commit rfl) ?_
  rintro _ _ rfl
  exact finishes_call (a := ⟨0, 0⟩) rfl rfl

end PersistentLexicalIndex

/-! ## The payload file -/

namespace PersistentPayloadStore

theorem leads_openAt : Leads (fun _ => True) openAt fun _ file => file.isSome = true := by
  unfold openAt
  refine leads_bind (fun _ file => file.isSome = true)
    (leads_durable fun _ _ => rfl) fun _ => ?_
  refine leads_bind _ (leads_commit (R := fun _ file => file.isSome = true) fun _ h => h) fun _ => ?_
  exact leads_get fun _ h => leads_pure fun _ hs => hs ▸ h

theorem finishes_openAt (file : Option PayloadDb) :
    Finishes openAt file fun _ file' => file' = some (file.getD .fresh) := by
  unfold openAt
  refine finishes_bind (fun _ file' => file' = some (file.getD .fresh))
    (finishes_durable rfl) ?_
  rintro _ _ rfl
  refine finishes_bind (fun _ file' => file' = some (file.getD .fresh))
    (finishes_commit rfl) ?_
  rintro _ _ rfl
  exact finishes_get (finishes_pure rfl)

end PersistentPayloadStore

end EidosDB
