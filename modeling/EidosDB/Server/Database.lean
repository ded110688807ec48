import EidosDB.Server.Daemon

/-! # The Server as a Database in Memory

    What the server is for: a database of named collections.  Its calls are
    those of the service, on stores in memory; nothing interrupts it, and it
    does not end.  A restart of the process changes nothing here, unless a
    graph has lost nodes to a compaction: the files of such a graph do not
    have its vectors at their places, and then no promise is made. -/

namespace EidosDB

open Effect

/-! ## Graphs -/

/-- A graph in memory.  While `placed` holds, its files have every vector at
    its place. -/
structure PlacedGraph where
  index : HnswIndex
  placed : Bool

namespace PlacedGraph

def onGraph {α : Type} (m : Effect IndexError HnswIndex α) : Effect IndexError PlacedGraph α :=
  zoom PlacedGraph.index (fun index self => { self with index := index }) m

def port (P : Platform) (levelFloat : LevelFloat) : VectorIndex PlacedGraph where
  metric self := (HnswIndex.port P levelFloat).metric self.index
  supportedMetrics self := (HnswIndex.port P levelFloat).supportedMetrics self.index
  dimension self := (HnswIndex.port P levelFloat).dimension self.index
  len self := (HnswIndex.port P levelFloat).len self.index
  insert id embedding := onGraph ((HnswIndex.port P levelFloat).insert id embedding)
  remove id := onGraph ((HnswIndex.port P levelFloat).remove id)
  searchFiltered self := (HnswIndex.port P levelFloat).searchFiltered self.index

/-- Compaction numbers the nodes anew, and the segment is not rewritten: if
    there are removed nodes, the others lose their places. -/
def compact (P : Platform) (levelFloat : LevelFloat) : Effect StorageError PlacedGraph Unit :=
  call fun self => (self.index.compact P levelFloat).map fun r =>
    (r.1.mapError .index,
      { index := r.2
        placed := self.placed && decide (self.index.len = self.index.graph.nodeCount) })

end PlacedGraph

/-- The stores of the database. -/
def memoryStores (U : Unicode) (P : Platform) (levelFloat : LevelFloat) (ops : F64Ops) :
    KindStores FlatIndex PlacedGraph InMemoryLexicalIndex InMemoryPayloadStore where
  flat := ⟨FlatIndex.port P.f32, InMemoryLexicalIndex.port U ops, InMemoryPayloadStore.port ops⟩
  hnsw := ⟨PlacedGraph.port P levelFloat, InMemoryLexicalIndex.port U ops,
    InMemoryPayloadStore.port ops⟩
  compactFlat := pure ()
  compactHnsw := PlacedGraph.compact P levelFloat

/-! ## The database -/

/-- A collection in memory. -/
abbrev MemoryKind := CollectionKind FlatIndex PlacedGraph InMemoryLexicalIndex InMemoryPayloadStore

/-- The vectors of a collection have their places on disk. -/
def CollectionKind.isPlaced : MemoryKind → Bool
  | .flat _ => true
  | .hnsw c => c.index.placed

/-- The collection of a name that has just been created. -/
def CollectionMeta.newKind (metadata : CollectionMeta) : MemoryKind :=
  match metadata.indexType with
  | .flat => .flat
      { index := .new metadata.metric metadata.dimension, lexical := .new, payloads := .new }
  | .hnsw => .hnsw
      { index := { index := .new (metadata.hnsw.getD .default) metadata.dimension, placed := true }
        lexical := .new
        payloads := .new }

/-- The metadata of the collections by name, and the collections. -/
abbrev Database :=
  EidosDbHandler.View FlatIndex PlacedGraph InMemoryLexicalIndex InMemoryPayloadStore

namespace Database

def empty : Database := { metas := .empty, handles := .empty }

def create (metadata : CollectionMeta) (self : Database) : Except ServerError Unit × Database :=
  if isValidName metadata.name then
    if (self.metas.get metadata.name).isSome then (.error (.alreadyExists metadata.name), self)
    else
      (.ok (),
        { metas := self.metas.insert metadata.name metadata
          handles := self.handles.insert metadata.name
            { inner := metadata.newKind, poisoned := false, dimension := metadata.dimension } })
  else (.error (.badName metadata.name), self)

def drop (name : String) (self : Database) : Bool × Database :=
  ((self.metas.get name).isSome,
    { metas := self.metas.erase name, handles := self.handles.erase name })

variable (stores : KindStores FlatIndex PlacedGraph InMemoryLexicalIndex InMemoryPayloadStore)
  (ops : F64Ops)

/-- One request. -/
def answer (self : Database) : Request → Option (Reply × Database)
  | .createCollection request =>
      match EidosDbHandler.metaFromPb request with
      | .error status => some (.error status, self)
      | .ok metadata =>
        let r := self.create metadata
        some ((r.1.mapError serverErrorToStatus).map fun _ => .createCollection, r.2)
  | .dropCollection request =>
      let r := self.drop request.name
      some (.ok (.dropCollection { existed := r.1 }), r.2)
  | request =>
      (EidosDbHandler.call stores ops self request).map fun r =>
        (r.1, { self with handles := r.2 })

/-- Every collection can be read back from its files. -/
def isPlaced (self : Database) : Bool :=
  self.handles.entries.all fun e => e.2.inner.isPlaced

/-- One event; `none` where nothing is promised. -/
def step (self : Database) : Daemon.Event → Option (Daemon.Output × Database)
  | .request request =>
      (self.answer stores ops request).map fun r => (.reply r.1, r.2)
  | .restart _ => if self.isPlaced then some (.started, self) else none

/-- The outputs that are promised of a sequence of events. -/
def run : List Daemon.Event → Database → List Daemon.Output
  | [], _ => []
  | event :: rest, self =>
      match self.step stores ops event with
      | some r => r.1 :: run rest r.2
      | none => []

end Database

end EidosDB
