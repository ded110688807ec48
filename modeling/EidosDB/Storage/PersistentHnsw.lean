import EidosDB.Storage.HnswRows

/-! # The Persistent HNSW Index

    A durable approximate index.  The graph is held in memory and answers
    the searches; its rows are in a database, and its vectors in a segment
    file, one record for each node in node order.  A write appends its
    vector, changes the graph, and commits the rows it touched.

    As in the index itself, node numbers and counts are `usize` values that
    fit `u64`.  Reads of the database do not fail here; writes to it and to
    the file may. -/

namespace EidosDB

open Bytes Effect

/-- The files of one directory. -/
structure HnswDisk where
  catalog : Option HnswDb
  segment : File

def HnswDisk.empty : HnswDisk := { catalog := none, segment := none }

/-- The database behind an open catalog. -/
def HnswDisk.db (self : HnswDisk) : HnswDb := self.catalog.getD .fresh

/-- `PersistentHnswIndex` -/
structure PersistentHnswIndex where
  graph : HnswIndex
  segment : Segment

/-- An open index with the files it was opened on. -/
structure HnswStore where
  disk : HnswDisk
  index : PersistentHnswIndex

/-! ## Writing -/

namespace HnswStore

def onSegment {α : Type} (m : Effect StorageError (File × Segment) α) :
    Effect StorageError HnswStore α :=
  zoom (fun s => (s.disk.segment, s.index.segment))
    (fun p s =>
      { disk := { s.disk with segment := p.1 }, index := { s.index with segment := p.2 } }) m

/-- One write transaction. -/
def transaction (change : HnswDb → HnswDb) : Effect StorageError HnswStore Unit :=
  zoom (fun s => s.disk.db) (fun db s => { s with disk := { s.disk with catalog := some db } })
    (commit .commitFailure change)

/-- A call of the graph in memory. -/
def onGraph {α : Type} (f : HnswIndex → Option (Except IndexError α × HnswIndex)) :
    Effect StorageError HnswStore α := do
  let s ← get
  match f s.index.graph with
  | none => panic
  | some (result, graph) =>
    modify (fun s => { s with index := { s.index with graph := graph } })
    Effect.liftExcept (result.mapError .index)

variable (pc : HnswCodec) (P : Platform)

/-- `flush_snapshot_to_redb` -/
def flushSnapshot : Effect StorageError HnswStore Unit := do
  let s ← get
  transaction (HnswDb.flushed pc s.index.graph.snapshot)

/-- `write_through_insert` -/
def writeThroughInsert (levelFloat : LevelFloat) (id : VectorId) (embedding : Embedding) :
    Effect StorageError HnswStore Unit := do
  onSegment (Segment.append embedding.values)
  let delta ← onGraph (fun graph => graph.insertTracked P levelFloat id embedding)
  let s ← get
  transaction (HnswDb.inserted pc s.index.graph delta.touchedNodes)

/-- `write_through_remove` -/
def writeThroughRemove (id : VectorId) : Effect StorageError HnswStore Bool := do
  let delta ← onGraph (fun graph => some (graph.removeTracked id))
  match delta with
  | none => pure false
  | some delta =>
    let s ← get
    transaction (HnswDb.removed pc s.index.graph delta.touchedNodes)
    pure true

/-- `compact`: the segment is not rewritten. -/
def compact (levelFloat : LevelFloat) : Effect StorageError HnswStore Unit := do
  onGraph (fun graph => graph.compact P levelFloat)
  flushSnapshot pc

/-- The append loop of `bulk_load`. -/
def appendAll : List (VectorId × Embedding) → Effect StorageError HnswStore Unit
  | [] => pure ()
  | (_, embedding) :: rest => do
    onSegment (Segment.append embedding.values)
    appendAll rest

end HnswStore

/-! ## Opening -/

namespace HnswDisk

/-- `create_dir_all` -/
def createDirAll : Effect StorageError HnswDisk Unit := durable .ioFailure id

def onCatalogFile {α : Type} (m : Effect StorageError (Option HnswDb) α) :
    Effect StorageError HnswDisk α :=
  zoom HnswDisk.catalog (fun catalog disk => { disk with catalog := catalog }) m

def onSegmentFile {α : Type} (m : Effect StorageError File α) : Effect StorageError HnswDisk α :=
  zoom HnswDisk.segment (fun segment disk => { disk with segment := segment }) m

variable (pc : HnswCodec) (P : Platform)

/-- `PersistentHnswIndex::create` -/
def create (config : HnswConfig) (dimension : Dimension) :
    Effect StorageError HnswDisk PersistentHnswIndex := do
  createDirAll
  onCatalogFile (durable .commitFailure (fun db => some (db.getD .fresh)))
  let dim ← liftExcept (tryU32 dimension.get)
  onCatalogFile (commit .commitFailure (fun db => db.map (HnswDb.created pc (config.row dim)
    { entryPoint := none, entryLevel := 0, rngState := config.seed, nodeCount := 0 })))
  let segment ← onSegmentFile (Segment.create config.metric dimension.get)
  pure { graph := HnswIndex.new config dimension, segment := segment }

/-- `PersistentHnswIndex::open` -/
def openAt : Effect StorageError HnswDisk PersistentHnswIndex := do
  let disk ← get
  match disk.catalog with
  | none => throw (.catalog "I/O error: No such file or directory (os error 2)")
  | some db =>
    let rows ← liftExcept (db.readMeta pc)
    let parameters ← liftExcept rows.1.parameters
    let segment ← onSegmentFile
      (Segment.openAt parameters.1.metric parameters.2.get rows.2.nodeCount)
    let snap ← liftExcept (db.readSnapshot pc rows.2)
    let disk ← get
    let graph ← Effect.liftExcept ((HnswIndex.fromSnapshot parameters.1 parameters.2 snap
      (fun idx => Segment.record disk.segment segment idx)).mapError .index)
    pure { graph := graph, segment := segment }

/-- `PersistentHnswIndex::bulk_load` -/
def bulkLoad (levelFloat : LevelFloat) (config : HnswConfig) (dimension : Dimension)
    (points : List (VectorId × Embedding)) : Effect StorageError HnswDisk PersistentHnswIndex := do
  let index ← create pc config dimension
  withVar index (zoom (fun p => { disk := p.1, index := p.2 }) (fun s _ => (s.disk, s.index)) (do
    HnswStore.appendAll points
    HnswStore.onGraph (fun graph => graph.bulkInsert P levelFloat points)
    HnswStore.flushSnapshot pc))

end HnswDisk

/-! ## Sessions -/

/-- What a call returns. -/
inductive HnswReply where
  | done
  | removed (existed : Bool)
  deriving DecidableEq, Repr

namespace HnswStore

variable (pc : HnswCodec) (P : Platform)

/-- One call, with the logarithm its level samples use. -/
def call (levelFloat : LevelFloat) : HnswOp → Effect StorageError HnswStore HnswReply
  | .insert id embedding => do
    writeThroughInsert pc P levelFloat id embedding
    pure .done
  | .remove id => do
    let existed ← writeThroughRemove pc id
    pure (.removed existed)
  | .compact => do
    compact pc P levelFloat
    pure .done

/-- One call that nothing interrupts: the answer and the store after it.
    `none` stands for a file system without room for the file. -/
def answer (c : LevelFloat × HnswOp) (s : HnswStore) :
    Option (Outcome StorageError HnswReply × HnswStore) :=
  let r := call pc P c.1 c.2 (World.start s .none)
  if r.1 = .err (.io .fileTooLarge) then none else some (r.1, r.2.state)

/-- The answers to a list of calls, and the store after the last one. -/
def answers : List (LevelFloat × HnswOp) → HnswStore →
    Option (List (Outcome StorageError HnswReply) × HnswStore)
  | [], s => some ([], s)
  | c :: rest, s =>
    (s.answer pc P c).bind fun r => (answers rest r.2).map fun r' => (r.1 :: r'.1, r'.2)

end HnswStore

/-- How a store comes into being. -/
inductive HnswStart where
  | create
  | bulkLoad (levelFloat : LevelFloat) (points : List (VectorId × Embedding))

namespace HnswDisk

variable (pc : HnswCodec) (P : Platform)

def make (config : HnswConfig) (dimension : Dimension) :
    HnswStart → Effect StorageError HnswDisk PersistentHnswIndex
  | .create => create pc config dimension
  | .bulkLoad levelFloat points => bulkLoad pc P levelFloat config dimension points

/-- A store made in a directory, when that succeeds. -/
def made (disk : HnswDisk) (config : HnswConfig) (dimension : Dimension) (start : HnswStart) :
    Option HnswStore :=
  match make pc P config dimension start (World.start disk .none) with
  | (.ok index, w) => some { disk := w.state, index := index }
  | _ => none

/-- What opening the directory gives. -/
def opened (disk : HnswDisk) : Outcome StorageError PersistentHnswIndex × HnswDisk :=
  let r := openAt pc (World.start disk .none)
  (r.1, r.2.state)

end HnswDisk

end EidosDB
