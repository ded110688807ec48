import EidosDB.Core.Flat
import EidosDB.Storage.Catalog
import EidosDB.Storage.Segment

/-! # The Persistent Flat Index

    A durable exact index: the catalog says at which slot each live id has
    its vector, the segment file holds the vectors.  A slot is read from the
    memory map below the mapped count, and from a tail in memory above it. -/

namespace EidosDB

open Bytes Effect

/-- The files of one directory. -/
structure FlatDisk where
  catalog : Option CatalogDb
  segment : File

def FlatDisk.empty : FlatDisk := { catalog := none, segment := none }

/-- The database behind an open catalog. -/
def FlatDisk.catalogDb (self : FlatDisk) : CatalogDb := self.catalog.getD .fresh

/-- `PersistentFlatIndex`: what the process holds in memory. -/
structure PersistentFlatIndex where
  segment : Segment
  metric : Metric
  dimension : Dimension
  recordCount : Nat
  liveCount : Nat
  tail : List (VectorId × Embedding)

/-- An open index with the files it was opened on. -/
structure FlatStore where
  disk : FlatDisk
  index : PersistentFlatIndex

/-! ## Opening -/

namespace FlatDisk

/-- `create_dir_all` -/
def createDirAll : Effect StorageError FlatDisk Unit := durable .ioFailure id

def onCatalogFile {α : Type} (m : Effect StorageError (Option CatalogDb) α) :
    Effect StorageError FlatDisk α :=
  zoom FlatDisk.catalog (fun catalog disk => { disk with catalog := catalog }) m

def onSegmentFile {α : Type} (m : Effect StorageError File α) : Effect StorageError FlatDisk α :=
  zoom FlatDisk.segment (fun segment disk => { disk with segment := segment }) m

/-- The branch of `open` for a directory that has a catalog. -/
def openExisting (metric : Metric) (dimension : Dimension) :
    Effect StorageError FlatDisk PersistentFlatIndex := do
  let manifest ← onCatalogFile Catalog.openAt
  if manifest.formatVersion ≠ formatVersion then
    throw (.formatMismatch
      s!"catalog version {manifest.formatVersion.val} != {formatVersion.val}")
  else
    let expectedDim ← liftExcept (tryU32 dimension.get)
    -- nothing of the segment is touched before the manifest agrees
    if manifest.dimension ≠ expectedDim ∨ manifest.metric ≠ metric then
      throw (.formatMismatch "open parameters differ from stored manifest")
    else
      let segment ← onSegmentFile
        (Segment.openAt metric dimension.get manifest.recordCount.val)
      let disk ← get
      let liveCount ← liftExcept disk.catalogDb.liveCount
      pure
        { segment := segment
          metric := metric
          dimension := dimension
          recordCount := manifest.recordCount.val
          liveCount := liveCount
          tail := [] }

/-- The branch of `open` that makes a new store. -/
def openNew (metric : Metric) (dimension : Dimension) :
    Effect StorageError FlatDisk PersistentFlatIndex := do
  let expectedDim ← liftExcept (tryU32 dimension.get)
  -- the catalog comes first, so a directory with one may have no segment yet
  onCatalogFile (Catalog.create
    { formatVersion := formatVersion
      dimension := expectedDim
      metric := metric
      recordCount := 0 })
  let segment ← onSegmentFile (Segment.create metric dimension.get)
  pure
    { segment := segment
      metric := metric
      dimension := dimension
      recordCount := 0
      liveCount := 0
      tail := [] }

/-- `PersistentFlatIndex::open` -/
def openAt (metric : Metric) (dimension : Dimension) :
    Effect StorageError FlatDisk PersistentFlatIndex := do
  createDirAll
  let disk ← get
  if disk.catalog.isSome then openExisting metric dimension
  else openNew metric dimension

end FlatDisk

namespace FlatStore

def catalog (self : FlatStore) : CatalogDb := self.disk.catalogDb

def onCatalog {α : Type} (m : Effect StorageError CatalogDb α) : Effect StorageError FlatStore α :=
  zoom FlatStore.catalog (fun db s => { s with disk := { s.disk with catalog := some db } }) m

def onSegment {α : Type} (m : Effect StorageError (File × Segment) α) :
    Effect StorageError FlatStore α :=
  zoom (fun s => (s.disk.segment, s.index.segment))
    (fun p s =>
      { disk := { s.disk with segment := p.1 }, index := { s.index with segment := p.2 } }) m

/-- An assignment to the fields of the index. -/
def assign (f : PersistentFlatIndex → PersistentFlatIndex) : Effect StorageError FlatStore Unit :=
  modify (fun s => { s with index := f s.index })

/-! ## Reading -/

/-- The values at a slot: mapped records below `mapped`, the tail above. -/
def valuesAtWith {ε : Type} (missing : String → ε) (self : FlatStore) (slot mapped : Nat) :
    Except ε (List F32) :=
  if slot < mapped then
    match Segment.record self.disk.segment self.index.segment slot with
    | some values => .ok values
    | none => .error (missing s!"missing mapped slot {slot}")
  else
    match self.index.tail[slot - mapped]? with
    | some item => .ok item.2.values
    | none => .error (missing s!"missing tail slot {slot}")

/-- `values_at_storage` -/
def valuesAtStorage : FlatStore → Nat → Nat → Except StorageError (List F32) :=
  valuesAtWith .corruption

/-- `values_at` -/
def valuesAt : FlatStore → Nat → Nat → Except IndexError (List F32) :=
  valuesAtWith .backend

/-- The `len` of the index. -/
def len (self : FlatStore) : Nat := self.index.liveCount

/-- The scoring loop of `search_filtered`. -/
def scoreLive (ops : F32Ops) (self : FlatStore) (query : Embedding) (metric : Metric)
    (isAdmissible : VectorId → Bool) (mapped : Nat) :
    List (VectorId × Nat) → Except IndexError (List Neighbor)
  | [] => .ok []
  | (id, slot) :: rest =>
    if isAdmissible id then do
      let values ← self.valuesAt slot mapped
      let scored ← scoreLive ops self query metric isAdmissible mapped rest
      .ok ({ id := id, score := metric.score ops query.values values } :: scored)
    else scoreLive ops self query metric isAdmissible mapped rest

/-- `search_filtered` -/
def searchFiltered (ops : F32Ops) (self : FlatStore) (query : Embedding) (k : Nat)
    (metric : Metric) (isAdmissible : VectorId → Bool) : Except IndexError (List Neighbor) :=
  if query.dimension ≠ self.index.dimension.get then
    .error (.dimensionMismatch self.index.dimension.get query.dimension)
  else do
    let live ← self.catalog.liveSlots.mapError StorageError.toIndexError
    let mapped := self.index.segment.mappedRecords
    let scored ← scoreLive ops self query metric isAdmissible mapped live
    .ok ((sortBy Neighbor.cmp scored).take k)

/-! ## Writing

    The inner functions keep the storage error; the index interface turns it
    into an index error. -/

/-- The validation loop of `insert_batch`: `seen` are the ids before. -/
def validateItems (self : FlatStore) :
    List VectorId → List (VectorId × Embedding) → Except StorageError Unit
  | _, [] => .ok ()
  | seen, (id, embedding) :: rest =>
    if embedding.dimension ≠ self.index.dimension.get then
      .error (.index (.dimensionMismatch self.index.dimension.get embedding.dimension))
    else if id ∈ seen then .error (.index (.duplicateId id))
    else do
      let present ← self.catalog.contains id
      if present then .error (.index (.duplicateId id))
      else self.validateItems (id :: seen) rest

/-- Consecutive slots from `next`. -/
def assignSlots : Nat → List VectorId → List (VectorId × Nat)
  | _, [] => []
  | next, id :: rest => (id, next) :: assignSlots (next + 1) rest

/-- `insert_batch` -/
def insertBatch (items : List (VectorId × Embedding)) : Effect StorageError FlatStore Unit :=
  if items.isEmpty then pure ()
  else do
    let s ← get
    -- all items are checked before the first byte is written
    liftExcept (s.validateItems [] items)
    let next := s.index.recordCount + items.length
    onSegment (Segment.append (items.flatMap (·.2.values)))
    onCatalog (Catalog.insertSlots (assignSlots s.index.recordCount (items.map Prod.fst)) next)
    assign (fun index =>
      { index with
        recordCount := next
        liveCount := index.liveCount + items.length
        tail := index.tail ++ items })

/-- `insert` -/
def insert (id : VectorId) (embedding : Embedding) : Effect StorageError FlatStore Unit := do
  let s ← get
  if embedding.dimension ≠ s.index.dimension.get then
    throw (.index (.dimensionMismatch s.index.dimension.get embedding.dimension))
  else
    let present ← liftExcept (s.catalog.contains id)
    if present then throw (.index (.duplicateId id))
    else
      let slot := s.index.recordCount
      -- data before pointer: the bytes are durable before the slot is committed
      onSegment (Segment.append embedding.values)
      onCatalog (Catalog.insertSlot id slot (slot + 1))
      assign (fun index =>
        { index with
          recordCount := slot + 1
          liveCount := index.liveCount + 1
          tail := index.tail ++ [(id, embedding)] })

/-- `remove` -/
def remove (id : VectorId) : Effect StorageError FlatStore Bool := do
  -- the record stays in the segment until a compaction
  let existed ← onCatalog (Catalog.removeSlot id)
  if existed then do
    assign (fun index => { index with liveCount := index.liveCount - 1 })
    pure existed
  else pure existed

/-- `checkpoint` -/
def checkpoint : Effect StorageError FlatStore Unit := do
  let s ← get
  onSegment (Segment.remap s.index.recordCount)
  assign (fun index => { index with tail := [] })

/-- The gathering loop of `compact`: the values of the live slots in order. -/
def gatherValues (self : FlatStore) (mapped : Nat) :
    List (VectorId × Nat) → Except StorageError (List (List F32))
  | [] => .ok []
  | (_, slot) :: rest => do
    let values ← self.valuesAtStorage slot mapped
    let gathered ← gatherValues self mapped rest
    .ok (values :: gathered)

/-- `compact` -/
def compact : Effect StorageError FlatStore Unit := do
  let s ← get
  let live ← liftExcept s.catalog.liveSlots
  let live := sortBy (fun a b => compare a.2 b.2) live
  let gathered ← liftExcept (s.gatherValues s.index.segment.mappedRecords live)
  let newSlots := assignSlots 0 (live.map Prod.fst)
  let count := newSlots.length
  -- the segment is rewritten in place, and the catalog follows at the end
  onSegment Segment.truncateToEmpty
  onSegment (Segment.append gathered.flatten)
  onSegment (Segment.remap count)
  onCatalog (Catalog.replaceSlots newSlots count)
  assign (fun index => { index with recordCount := count, liveCount := count, tail := [] })

/-- `snapshot`: copy the store into another directory. -/
def snapshot : Effect StorageError (FlatStore × FlatDisk) Unit := do
  let onDest {α : Type} (m : Effect StorageError FlatDisk α) :
      Effect StorageError (FlatStore × FlatDisk) α := zoom Prod.snd (fun dest p => (p.1, dest)) m
  onDest FlatDisk.createDirAll
  let p ← get
  let s := p.1
  let dimension ← liftExcept (tryU32 s.index.dimension.get)
  onDest (FlatDisk.onCatalogFile (Catalog.create
    { formatVersion := formatVersion
      dimension := dimension
      metric := s.index.metric
      recordCount := wrap64 s.index.recordCount }))
  let live ← liftExcept s.catalog.liveSlots
  onDest (FlatDisk.onCatalogFile (zoom (fun db => db.getD .fresh) (fun db _ => some db)
    (Catalog.replaceSlots live s.index.recordCount)))
  let stride := s.index.dimension.get * 4
  let validLen := (wrap64 (headerLen + s.index.recordCount * stride)).val
  match s.disk.segment with
  | none => throw (.io .notFound)
  | some bytes =>
    if bytes.length < validLen then throw (.corruption "segment shorter than watermark")
    else
      -- the bytes behind the watermark are left behind
      onDest (FlatDisk.onSegmentFile (do
        durable .ioFailure (fun _ => some [])
        File.writeAll (bytes.take validLen)))

/-- Close the index and open its directory again. -/
def reopen : Effect StorageError FlatStore Unit := do
  let s ← get
  let index ← zoom FlatStore.disk (fun disk s => { s with disk := disk })
    (FlatDisk.openAt s.index.metric s.index.dimension)
  assign (fun _ => index)

end FlatStore

end EidosDB
