import EidosDB.Server.Registry
import EidosDB.Server.Requests

/-! # The Server Process

    The server answers requests over a registry of open collections.  What a
    collection knows is partly in the handle and partly in the files of its
    directory: a call works on both together.  When the process ends, the
    handles are gone; a new process opens the registry from the files. -/

namespace EidosDB

open Effect

/-- A collection with its files. -/
abbrev StoredKind := CollectionKind FlatStore HnswStore LexicalStore StoredPayloads

namespace CollectionDir

/-- The open collection of a handle, with the files of its directory. -/
def mount (self : CollectionDir) : LiveKind → StoredKind
  | .flat c => .flat
      { index := ⟨self.flatDisk, c.index⟩
        lexical := ⟨self.lexical.getD .fresh, c.lexical⟩
        payloads := ⟨self.payload.getD .fresh, c.payloads⟩ }
  | .hnsw c => .hnsw
      { index := ⟨self.hnswDisk, c.index⟩
        lexical := ⟨self.lexical.getD .fresh, c.lexical⟩
        payloads := ⟨self.payload.getD .fresh, c.payloads⟩ }

/-- What of a collection is in memory. -/
def live : StoredKind → LiveKind
  | .flat c => .flat
      { index := c.index.index, lexical := c.lexical.index, payloads := c.payloads.store }
  | .hnsw c => .hnsw
      { index := c.index.index, lexical := c.lexical.index, payloads := c.payloads.store }

/-- The directory with the files of a collection in it. -/
def withFiles (self : CollectionDir) : StoredKind → CollectionDir
  | .flat c =>
      { self with
        catalog := c.index.disk.catalog, segment := c.index.disk.segment
        lexical := some c.lexical.db, payload := some c.payloads.db }
  | .hnsw c =>
      { self with
        graph := c.index.disk.catalog, segment := c.index.disk.segment
        lexical := some c.lexical.db, payload := some c.payloads.db }

end CollectionDir

/-- The server process over its file system; `poisoned` has the names of the
    collections whose lock is poisoned. -/
structure Daemon where
  opened : OpenRegistry
  poisoned : OrderedTable String Unit

namespace Daemon

/-- `Registry::list`, as a map. -/
def metas (self : Daemon) : OrderedTable String CollectionMeta :=
  if self.opened.registry.poisoned then .empty
  else self.opened.registry.map.mapValues Registry.Handle.metadata

/-- The handle behind a name, with its lock and its files. -/
def handleOf (self : Daemon) (handle : Registry.Handle) :
    CollectionHandle FlatStore HnswStore LexicalStore StoredPayloads where
  inner := (self.opened.disk.dirAt handle.dir).mount handle.kind
  poisoned := (self.poisoned.get handle.metadata.name).isSome
  dimension := handle.metadata.dimension

/-- What `Registry::get` finds. -/
def handles (self : Daemon) : Handles FlatStore HnswStore LexicalStore StoredPayloads :=
  if self.opened.registry.poisoned then .empty
  else self.opened.registry.map.mapValues self.handleOf

/-- The server as its calls see it. -/
def view (self : Daemon) : EidosDbHandler.View FlatStore HnswStore LexicalStore StoredPayloads where
  metas := self.metas
  handles := self.handles

/-- The files of one collection after a call. -/
def putFiles (handles : Handles FlatStore HnswStore LexicalStore StoredPayloads)
    (disk : FileSystem) (handle : Registry.Handle) : FileSystem :=
  match handles.get handle.metadata.name with
  | none => disk
  | some after => disk.putDir handle.dir ((disk.dirAt handle.dir).withFiles after.inner)

/-- What is in memory of one collection after a call. -/
def putLive (handles : Handles FlatStore HnswStore LexicalStore StoredPayloads)
    (handle : Registry.Handle) : Registry.Handle :=
  match handles.get handle.metadata.name with
  | none => handle
  | some after => { handle with kind := CollectionDir.live after.inner }

/-- The server after a call has left its collections as `handles`. -/
def update (handles : Handles FlatStore HnswStore LexicalStore StoredPayloads) (self : Daemon) :
    Daemon :=
  if self.opened.registry.poisoned then self
  else
    let map := self.opened.registry.map
    { opened :=
        { disk := (map.entries.map Prod.snd).foldl (putFiles handles) self.opened.disk
          registry := { self.opened.registry with map := map.mapValues (putLive handles) } }
      poisoned := (handles.filter fun _ handle => handle.poisoned).mapValues fun _ => () }

/-! ## Requests -/

/-- What becomes of a request or of the process. -/
inductive Output where
  | reply (reply : Reply)
  /-- The process has started again. -/
  | started
  /-- The process did not start, or the call panicked outside of its task. -/
  | down
  deriving DecidableEq

variable (codecs : ServerCodecs) (stores : KindStores FlatStore HnswStore LexicalStore StoredPayloads)
  (ops : F64Ops)

/-- A call of the registry. -/
def onRegistry {α : Type} (m : Effect ServerError OpenRegistry α) (self : Daemon) :
    Option (Except Status α × Daemon) :=
  (m.exec self.opened).map fun r =>
    (r.1.mapError serverErrorToStatus, { self with opened := r.2 })

/-- `create_collection` -/
def createCollection (request : Pb.CreateCollectionRequest) (self : Daemon) :
    Option (Except Status Unit × Daemon) :=
  match EidosDbHandler.metaFromPb request with
  | .error status => some (.error status, self)
  | .ok metadata => self.onRegistry (Registry.create codecs metadata)

/-- `drop_collection`: the lock goes with the handle. -/
def dropCollection (request : Pb.DropCollectionRequest) (self : Daemon) :
    Option (Except Status Pb.DropCollectionResponse × Daemon) :=
  (self.onRegistry (Registry.dropCollection request.name)).map fun r =>
    (r.1.map fun existed => { existed := existed },
      { r.2 with poisoned := r.2.poisoned.erase request.name })

/-- One request. -/
def answer (self : Daemon) : Request → Option (Reply × Daemon)
  | .createCollection request =>
      (self.createCollection codecs request).map fun r => (r.1.map fun _ => .createCollection, r.2)
  | .dropCollection request =>
      (self.dropCollection request).map fun r => (r.1.map .dropCollection, r.2)
  | request =>
      (EidosDbHandler.call stores ops self.view request).map fun r => (r.1, self.update r.2)

/-- `eidosd` is started again after the process has ended. -/
def restart (order : HashOrder) (self : Daemon) : Option Daemon :=
  ((Registry.openAt codecs self.opened.registry.root order).exec self.opened.disk.closed).bind
    fun r => match r with
      | (.ok registry, disk) => some { opened := ⟨disk, registry⟩, poisoned := .empty }
      | (.error _, _) => none

/-- What happens to a server. -/
inductive Event where
  | request (request : Request)
  | restart (order : HashOrder)

/-- One event: what comes of it, and the process if it is still there. -/
def step (self : Daemon) : Event → Output × Option Daemon
  | .request request =>
      match self.answer codecs stores ops request with
      | some r => (.reply r.1, some r.2)
      | none => (.down, none)
  | .restart order =>
      match self.restart codecs order with
      | some self => (.started, some self)
      | none => (.down, none)

/-- The outputs of a sequence of events; after the process is down there are
    no more. -/
def run : List Event → Daemon → List Output
  | [], _ => []
  | event :: rest, self =>
      let r := self.step codecs stores ops event
      r.1 :: (r.2.map (run rest)).getD []

end Daemon

/-- The stores of the server on disk. -/
def diskStores (U : Unicode) (codecs : ServerCodecs) (payload : Codec Payload) (P : Platform)
    (levelFloat : LevelFloat) (ops : F64Ops) :
    KindStores FlatStore HnswStore LexicalStore StoredPayloads where
  flat := ⟨FlatStore.port P.f32, LexicalStore.port U codecs.lexical ops,
    StoredPayloads.port payload ops⟩
  hnsw := ⟨HnswStore.port codecs.hnsw P levelFloat, LexicalStore.port U codecs.lexical ops,
    StoredPayloads.port payload ops⟩
  compactFlat := FlatStore.compact
  compactHnsw := HnswStore.compact codecs.hnsw P levelFloat

end EidosDB
