import EidosDB.Client.Client
import EidosDB.Server.Database

/-! # Calls without Messages

    What the calls of a client mean: each is one operation on a database in
    memory, with values of the domain and no messages.  A single upsert is a
    batch of one point, and a stream is its batches one after the other. -/

namespace EidosDB

open Effect

/-! ## Parameters that no message holds -/

/-- The first parameter that does not fit into a message. -/
def HnswConfig.tooLarge (config : HnswConfig) : Option String :=
  if u32Max < config.m then some "m"
  else if u32Max < config.efConstruction then some "ef_construction"
  else if u32Max < config.efSearch then some "ef_search"
  else none

/-- The collection that is asked for: the metric is that of the collection,
    whatever the parameters of the graph say. -/
def CollectionSpec.metadata (spec : CollectionSpec) : CollectionMeta where
  name := spec.name
  metric := spec.metric
  dimension := spec.dimension
  indexType := spec.indexType
  hnsw := match spec.indexType with
    | .flat => none
    | .hnsw => some { spec.hnsw.getD .default with metric := spec.metric }

namespace Direct

variable {I J L P : Type} (stores : KindStores I J L P) (ops : F64Ops)

/-! ## Operations on one collection -/

/-- An operation on the collection of this name. -/
def onCollection {α : Type} (name : String)
    (f : CollectionHandle I J L P → Except Status α × CollectionHandle I J L P)
    (handles : Handles I J L P) : Except Status α × Handles I J L P :=
  match handles.get name with
  | none => (.error (notFound name), handles)
  | some handle =>
    let r := f handle
    (r.1, handles.insert name r.2)

/-- Points that are written together, if all have the dimension. -/
def upsertPoints (orders : UpsertOrders) (n : Nat) (points : List DecodedPoint)
    (handle : CollectionHandle I J L P) : Except Status Unit × CollectionHandle I J L P :=
  match ensureDimension points handle.dimension.get with
  | .error status => (.error status, handle)
  | .ok () => runBlocking (upsertEach stores.toKindPorts orders n points) handle

/-- Chunks that are written one after the other; `n` points were before them. -/
def upsertChunks (orders : UpsertOrders) : Nat → List (List DecodedPoint) →
    CollectionHandle I J L P → Except Status Nat × CollectionHandle I J L P
  | n, [], handle => (.ok n, handle)
  | n, chunk :: rest, handle =>
    match upsertPoints stores orders n chunk handle with
    | (.error status, handle) => (.error status, handle)
    | (.ok (), handle) => upsertChunks orders (n + chunk.length) rest handle

/-- A search of a query of this dimension, if it has one. -/
def searchWith (dimension : Option Nat)
    (f : CollectionKind I J L P → ExceptT QueryError Option (List SearchHit))
    (handle : CollectionHandle I J L P) : Except Status (List SearchHit) :=
  match dimension.bind fun got => if got ≠ handle.dimension.get then some got else none with
  | some got => .error (EidosDbHandler.queryDimensionMismatch handle.dimension.get got)
  | none => runBlockingRead (fun kind => (f kind).run.map fun r => r.mapError queryErrorToStatus)
      handle

/-! ## Queries -/

/-- What a dense search is refused for before it is sent. -/
def searchRefused (query : SearchQuery) : Option ClientError :=
  if u32Max < query.k then some (outOfRange "k") else none

/-- What a hybrid search is refused for, before it is sent or by the
    server. -/
def hybridRefused (query : HybridQuery) : Option ClientError :=
  if u32Max < query.k then some (outOfRange "k")
  else if u32Max < query.overfetchFactor then some (outOfRange "overfetch_factor")
  else if !(query.rrfK.isFinite && query.rrfK.gt .zero) then
    some (.status (conversionErrorToStatus (.domain "rrf_k must be finite and strictly positive")))
  else if query.overfetchFactor = 0 then
    some (.status (conversionErrorToStatus
      (.domain "overfetch_factor must be positive when present")))
  else none

/-- An empty text is no text. -/
def withoutEmptyText (query : HybridQuery) : HybridQuery :=
  if query.text = some "" then { query with text := none } else query

/-! ## Descriptions -/

/-- What a client is told of a collection. -/
def view (handles : Handles I J L P) (metadata : CollectionMeta) : CollectionMetaView where
  name := metadata.name
  metric := metadata.metric
  dimension := metadata.dimension
  indexType := metadata.indexType
  count := match handles.get metadata.name with
    | some handle => if handle.poisoned then 0 else handle.inner.len stores
    | none => 0

end Direct

namespace Direct

variable (stores : KindStores FlatIndex PlacedGraph InMemoryLexicalIndex InMemoryPayloadStore)
  (ops : F64Ops)

/-! ## Calls -/

/-- An operation on a collection, as a call. -/
def write {α : Type} (answer : α → ClientAnswer) (name : String)
    (f : CollectionHandle FlatIndex PlacedGraph InMemoryLexicalIndex InMemoryPayloadStore →
      Except Status α ×
        CollectionHandle FlatIndex PlacedGraph InMemoryLexicalIndex InMemoryPayloadStore)
    (db : Database) : Except ClientError ClientAnswer × Database :=
  let r := onCollection name f db.handles
  ((r.1.mapError .status).map answer, { db with handles := r.2 })

/-- A search of a collection, as a call. -/
def read (refused : Option ClientError) (name : String)
    (f : CollectionHandle FlatIndex PlacedGraph InMemoryLexicalIndex InMemoryPayloadStore →
      Except Status (List SearchHit))
    (db : Database) : Except ClientError ClientAnswer × Database :=
  match refused with
  | some e => (.error e, db)
  | none => write .hits name (fun handle => (f handle, handle)) db

def decoded (p : PointInput) : DecodedPoint :=
  { id := p.id, embedding := p.embedding, document := p.document, payload := p.payload }

/-- What a call returns, and the database it leaves. -/
def answer (db : Database) : ClientCall → Except ClientError ClientAnswer × Database
  | .createCollection spec =>
    match spec.hnsw.bind HnswConfig.tooLarge with
    | some field => (.error (outOfRange field), db)
    | none =>
      let r := db.create spec.metadata
      ((r.1.mapError fun e => .status (serverErrorToStatus e)).map fun _ => .created, r.2)
  | .dropCollection name =>
    let r := db.drop name
    (.ok (.dropped r.1), r.2)
  | .listCollections order =>
    (.ok (.listed ((order.entries db.metas).map fun p => view stores db.handles p.2)), db)
  | .describeCollection name =>
    match db.metas.get name with
    | none => (.error (.status (notFound name)), db)
    | some metadata => (.ok (.described (view stores db.handles metadata)), db)
  | .upsert _ orders collection point =>
    write (fun _ => .upserted) collection
      (upsertPoints stores (fun _ => orders) 0 [decoded point]) db
  | .batchUpsert _ orders collection points =>
    write (fun _ => .batchUpserted points.length) collection
      (upsertPoints stores orders 0 (points.map decoded)) db
  | .bulkUpsert _ orders collection chunks =>
    match chunks with
    | [] => (.error (.status ⟨.invalidArgument, "bulk_upsert stream carried no messages"⟩), db)
    | _ =>
      write .bulkUpserted collection (upsertChunks stores orders 0 (chunks.map (·.map decoded))) db
  | .delete order collection id =>
    write .deleted collection (runBlocking fun kind =>
      let r := kind.delete stores order id
      (r.1.mapErr queryErrorToStatus, r.2)) db
  | .deleteByFilter matching each orders collection filter =>
    write .deletedByFilter collection (runBlocking fun kind =>
      let r := kind.deleteByFilter stores matching each orders filter
      (r.1.mapErr queryErrorToStatus, r.2)) db
  | .compact collection =>
    write (fun _ => .compacted) collection (runBlocking fun kind =>
      let r := kind.compact stores
      (r.1.mapErr serverErrorToStatus, r.2)) db
  | .search matching _ collection query =>
    read (searchRefused query) collection (searchWith (some query.embedding.dimension)
      fun kind => kind.search stores matching query) db
  | .searchHybrid orders _ collection query =>
    read (hybridRefused query) collection (searchWith (query.vector.map Embedding.dimension)
      fun kind => kind.searchHybrid stores ops orders (withoutEmptyText query)) db

/-- What a session returns, as far as anything is promised. -/
def run : List EidosClient.Event → Database → List (Except ClientError ClientAnswer)
  | [], _ => []
  | .call call :: rest, db =>
    let r := answer stores ops db call
    r.1 :: run rest r.2
  | .restart _ :: rest, db => if db.isPlaced then run rest db else []

end Direct

end EidosDB
