import EidosDB.Lib.Trace
import EidosDB.Proto.Requests
import EidosDB.Server.Service

/-! # The Calls of the Service

    What the service makes of a request.  A call on a collection looks its
    handle up, checks the request, and runs one operation of the collection
    under its lock: writes alone, searches beside each other.  In what order
    the name, the fields and the dimension are checked differs from call to
    call.  The calls that manage collections check their request here and
    leave the rest to the registry. -/

namespace EidosDB

open Effect

/-! ## Statuses -/

/-- `server_error_to_status` -/
def serverErrorToStatus : ServerError → Status
  | .badName message => ⟨.invalidArgument, message⟩
  | .alreadyExists message => ⟨.alreadyExists, message⟩
  | .io message | .serde message | .storage message | .index message => ⟨.internal, message⟩

/-! ## Collections of both kinds -/

/-- The ports of the stores of all collections, and the compaction of the
    vector indexes, which is no part of a port. -/
structure KindStores (I J L P : Type) extends KindPorts I J L P where
  compactFlat : Effect StorageError I Unit
  compactHnsw : Effect StorageError J Unit

namespace CollectionKind

variable {I J L P : Type}

/-- A program for each kind, on the collection that is there. -/
def exec {ε α : Type} (flat : Effect ε (Collection I L P) α) (hnsw : Effect ε (Collection J L P) α)
    (self : CollectionKind I J L P) : Outcome ε α × CollectionKind I J L P :=
  match self with
  | .flat c =>
    let r := flat (.start c .none)
    (r.1, .flat r.2.state)
  | .hnsw c =>
    let r := hnsw (.start c .none)
    (r.1, .hnsw r.2.state)

variable (stores : KindStores I J L P)

/-- `CollectionKind::len` -/
def len (self : CollectionKind I J L P) : Nat :=
  match self with
  | .flat c => c.len stores.flat
  | .hnsw c => c.len stores.hnsw

/-- `CollectionKind::delete` -/
def delete (order : HashOrder) (id : VectorId) :
    CollectionKind I J L P → Outcome QueryError Bool × CollectionKind I J L P :=
  exec (Collection.delete stores.flat order id) (Collection.delete stores.hnsw order id)

/-- `CollectionKind::delete_by_filter` -/
def deleteByFilter (matching each : HashOrder) (orders : VectorId → HashOrder) (filter : Filter) :
    CollectionKind I J L P → Outcome QueryError Nat × CollectionKind I J L P :=
  exec (Collection.deleteByFilter stores.flat matching each orders filter)
    (Collection.deleteByFilter stores.hnsw matching each orders filter)

/-- `CollectionKind::search` -/
def search (matching : HashOrder) (self : CollectionKind I J L P) (query : SearchQuery) :
    ExceptT QueryError Option (List SearchHit) :=
  match self with
  | .flat c => Collection.search stores.flat matching c query
  | .hnsw c => Collection.search stores.hnsw matching c query

/-- `CollectionKind::search_hybrid` -/
def searchHybrid (ops : F64Ops) (orders : SearchOrders) (self : CollectionKind I J L P)
    (query : HybridQuery) : ExceptT QueryError Option (List SearchHit) :=
  match self with
  | .flat c => Collection.searchHybrid stores.flat ops orders c query
  | .hnsw c => Collection.searchHybrid stores.hnsw ops orders c query

/-- A program on the vector index of a collection. -/
def onIndexMut {ε I L P α : Type} (m : Effect ε I α) : Effect ε (Collection I L P) α :=
  zoom Collection.index (fun index self => { self with index := index }) m

/-- `CollectionKind::compact`: only the vector index is compacted. -/
def compact : CollectionKind I J L P → Outcome ServerError Unit × CollectionKind I J L P :=
  exec (mapErr (fun e => .index e.text) (onIndexMut stores.compactFlat))
    (mapErr (fun e => .storage e.text) (onIndexMut stores.compactHnsw))

end CollectionKind

/-- `run_blocking_read`: a search that panics does not poison the lock. -/
def runBlockingRead {I J L P α : Type} (f : CollectionKind I J L P → Option (Except Status α))
    (handle : CollectionHandle I J L P) : Except Status α :=
  if handle.poisoned then .error ⟨.internal, "lock poisoned"⟩
  else (f handle.inner).getD (.error ⟨.internal, "blocking task failed"⟩)

/-! ## Parameters of a new graph -/

/-- `positive_or_default` -/
def positiveOrDefault (value : Option UInt32) (default : Nat) (field : String) :
    Except Status Nat :=
  match value with
  | none => .ok default
  | some raw =>
    if raw = 0 then .error ⟨.invalidArgument, field ++ " must be positive when present"⟩
    else if raw.toNat ≤ usizeMax then .ok raw.toNat
    else .error ⟨.invalidArgument, field ++ " out of range"⟩

/-- `hnsw_config_from_pb` -/
def hnswConfigFromPb (metric : Metric) (params : Option Pb.HnswParams) :
    Except Status HnswConfig := do
  let params := params.getD .default
  let m ← positiveOrDefault params.m HnswConfig.default.m "m"
  let efConstruction ←
    positiveOrDefault params.efConstruction HnswConfig.default.efConstruction "ef_construction"
  let efSearch ← positiveOrDefault params.efSearch HnswConfig.default.efSearch "ef_search"
  let seed := params.seed.getD HnswConfig.default.seed
  (HnswConfig.new metric m efConstruction efSearch seed).mapError
    fun e => ⟨.invalidArgument, e.text⟩

/-! ## Requests -/

/-- The requests, with the orders of the iterations they start. -/
inductive Request where
  | createCollection (request : Pb.CreateCollectionRequest)
  | dropCollection (request : Pb.DropCollectionRequest)
  | listCollections (order : HashOrder)
  | describeCollection (request : Pb.DescribeCollectionRequest)
  | upsert (order : HashOrder) (orders : HashOrder × HashOrder) (request : Pb.UpsertRequest)
  | batchUpsert (order : HashOrder) (orders : UpsertOrders) (request : Pb.BatchUpsertRequest)
  | bulkUpsert (order : HashOrder) (orders : UpsertOrders) (stream : List StreamItem)
  | delete (order : HashOrder) (request : Pb.DeleteRequest)
  | deleteByFilter (matching each : HashOrder) (orders : VectorId → HashOrder)
      (request : Pb.DeleteByFilterRequest)
  | search (matching : HashOrder) (request : Pb.SearchRequest)
  | searchHybrid (orders : SearchOrders) (request : Pb.SearchHybridRequest)
  | compact (request : Pb.CompactRequest)

/-- The responses; those without fields carry nothing. -/
inductive Response where
  | createCollection
  | dropCollection (response : Pb.DropCollectionResponse)
  | listCollections (response : Pb.ListCollectionsResponse)
  | describeCollection (response : Pb.DescribeCollectionResponse)
  | upsert
  | batchUpsert (response : Pb.BatchUpsertResponse)
  | bulkUpsert (response : Pb.BulkUpsertResponse)
  | delete (response : Pb.DeleteResponse)
  | deleteByFilter (response : Pb.DeleteByFilterResponse)
  | search (response : Pb.SearchResponse)
  | searchHybrid (response : Pb.SearchHybridResponse)
  | compact
  deriving DecidableEq

abbrev Reply := Except Status Response

namespace EidosDbHandler

/-! ### Managing collections -/

/-- The first half of `create_collection`: the metadata a request asks for. -/
def metaFromPb (request : Pb.CreateCollectionRequest) : Except Status CollectionMeta := do
  let pbMetric ← match Pb.Metric.tryFrom request.metric with
    | some metric => .ok metric
    | none => .error ⟨.invalidArgument, "unknown metric value"⟩
  let metric ← (metricFromPb pbMetric).mapError conversionErrorToStatus
  let dimension ← (Dimension.tryFrom request.dimension).mapError
    fun e => ⟨.invalidArgument, e.text⟩
  let pbIndexType ← match Pb.IndexType.tryFrom request.indexType with
    | some indexType => .ok indexType
    | none => .error ⟨.invalidArgument, "unknown index_type value"⟩
  let indexType ← (indexTypeFromPb pbIndexType).mapError conversionErrorToStatus
  -- a flat collection has no parameters, whatever the request says
  let hnsw ← match indexType with
    | .hnsw => (hnswConfigFromPb metric request.hnswParams).map some
    | .flat => .ok none
  .ok { name := request.name, metric := metric, dimension := dimension, indexType := indexType,
        hnsw := hnsw }

variable {I J L P : Type} (stores : KindStores I J L P)

/-- What the service tells of a collection.  A poisoned lock hides the
    count. -/
def info (handles : Handles I J L P) (metadata : CollectionMeta) : Pb.CollectionInfo where
  name := metadata.name
  metric := (metricToPb metadata.metric).discriminant
  dimension := if metadata.dimension.get ≤ u32Max then UInt32.ofNat metadata.dimension.get else 0
  indexType := (indexTypeToPb metadata.indexType).discriminant
  count := match handles.get metadata.name with
    | some handle => if handle.poisoned then 0 else handle.inner.len stores
    | none => 0

/-- `list_collections`, of the metadata in the registry. -/
def listCollections (order : HashOrder) (metas : OrderedTable String CollectionMeta)
    (handles : Handles I J L P) : Pb.ListCollectionsResponse :=
  { collections := (order.entries metas).map fun p => info stores handles p.2 }

/-- `describe_collection` -/
def describeCollection (metas : OrderedTable String CollectionMeta) (handles : Handles I J L P)
    (request : Pb.DescribeCollectionRequest) : Except Status Pb.DescribeCollectionResponse :=
  match metas.get request.name with
  | none => .error (notFound request.name)
  | some metadata => .ok { collection := some (info stores handles metadata) }

/-! ### Writing -/

/-- `upsert`: the point is decoded when its length is known to be right. -/
def upsert (order : HashOrder) (orders : HashOrder × HashOrder) (handles : Handles I J L P)
    (request : Pb.UpsertRequest) : Except Status Unit × Handles I J L P :=
  match handles.get request.collection with
  | none => (.error (notFound request.collection), handles)
  | some handle =>
    match request.point with
    | none => (.error ⟨.invalidArgument, "missing point"⟩, handles)
    | some point =>
      if point.vector.length ≠ handle.dimension.get then
        (.error ⟨.invalidArgument, "vector dimension mismatch: expected " ++
          toString handle.dimension.get ++ ", got " ++ toString point.vector.length⟩, handles)
      else
        match pointFromPb order point with
        | .error e => (.error (conversionErrorToStatus e), handles)
        | .ok decoded =>
          let r := runBlocking (fun kind =>
            let r := kind.upsert stores.toKindPorts orders decoded
            (r.1.mapErr queryErrorToStatus, r.2)) handle
          (r.1, handles.insert request.collection r.2)

/-- `delete`: the collection is looked up before the id is decoded. -/
def delete (order : HashOrder) (handles : Handles I J L P) (request : Pb.DeleteRequest) :
    Except Status Pb.DeleteResponse × Handles I J L P :=
  match handles.get request.collection with
  | none => (.error (notFound request.collection), handles)
  | some handle =>
    match vectorIdFromPb request.id with
    | .error e => (.error (conversionErrorToStatus e), handles)
    | .ok id =>
      let r := runBlocking (fun kind =>
        let r := kind.delete stores order id
        (r.1.mapErr queryErrorToStatus, r.2)) handle
      (r.1.map fun existed => { existed := existed }, handles.insert request.collection r.2)

/-- `delete_by_filter` -/
def deleteByFilter (matching each : HashOrder) (orders : VectorId → HashOrder)
    (handles : Handles I J L P) (request : Pb.DeleteByFilterRequest) :
    Except Status Pb.DeleteByFilterResponse × Handles I J L P :=
  match deleteByFilterFromPb request with
  | .error e => (.error (conversionErrorToStatus e), handles)
  | .ok (collection, filter) =>
    match handles.get collection with
    | none => (.error (notFound collection), handles)
    | some handle =>
      let r := runBlocking (fun kind =>
        let r := kind.deleteByFilter stores matching each orders filter
        (r.1.mapErr queryErrorToStatus, r.2)) handle
      (r.1.map fun deleted => { deleted := deleted }, handles.insert collection r.2)

/-- `compact` -/
def compact (handles : Handles I J L P) (request : Pb.CompactRequest) :
    Except Status Unit × Handles I J L P :=
  match handles.get request.collection with
  | none => (.error (notFound request.collection), handles)
  | some handle =>
    let r := runBlocking (fun kind =>
      let r := kind.compact stores
      (r.1.mapErr serverErrorToStatus, r.2)) handle
    (r.1, handles.insert request.collection r.2)

/-! ### Searching -/

/-- What a search of a query of another dimension is answered. -/
def queryDimensionMismatch (expected got : Nat) : Status :=
  ⟨.invalidArgument, "query dimension mismatch: expected " ++ toString expected ++ ", got " ++
    toString got⟩

/-- `search` -/
def search (matching : HashOrder) (handles : Handles I J L P) (request : Pb.SearchRequest) :
    Except Status Pb.SearchResponse :=
  match searchQueryFromPb request with
  | .error e => .error (conversionErrorToStatus e)
  | .ok (name, query) =>
    match handles.get name with
    | none => .error (notFound name)
    | some handle =>
      if query.embedding.dimension ≠ handle.dimension.get then
        .error (queryDimensionMismatch handle.dimension.get query.embedding.dimension)
      else
        (runBlockingRead (fun kind => (kind.search stores matching query).run.map
          fun r => r.mapError queryErrorToStatus) handle).map hitsToPb

/-- `search_hybrid`: a query without a vector has no dimension to check. -/
def searchHybrid (ops : F64Ops) (orders : SearchOrders) (handles : Handles I J L P)
    (request : Pb.SearchHybridRequest) : Except Status Pb.SearchHybridResponse :=
  match hybridQueryFromPb request with
  | .error e => .error (conversionErrorToStatus e)
  | .ok (name, query) =>
    match handles.get name with
    | none => .error (notFound name)
    | some handle =>
      match query.vector.bind fun vector =>
          if vector.dimension ≠ handle.dimension.get then some vector.dimension else none with
      | some got => .error (queryDimensionMismatch handle.dimension.get got)
      | none =>
        (runBlockingRead (fun kind => (kind.searchHybrid stores ops orders query).run.map
          fun r => r.mapError queryErrorToStatus) handle).map hybridHitsToPb

/-! ### Dispatch -/

/-- A server as its calls see it: the metadata and the collections. -/
structure View (I J L P : Type) where
  metas : OrderedTable String CollectionMeta
  handles : Handles I J L P

/-- The reply to a request that leaves the set of collections alone; `none`
    for the other two. -/
def call (ops : F64Ops) (view : View I J L P) :
    Request → Option (Reply × Handles I J L P)
  | .createCollection _ => none
  | .dropCollection _ => none
  | .listCollections order =>
      some (.ok (.listCollections (listCollections stores order view.metas view.handles)),
        view.handles)
  | .describeCollection request =>
      some ((describeCollection stores view.metas view.handles request).map .describeCollection,
        view.handles)
  | .upsert order orders request =>
      let r := upsert stores order orders view.handles request
      some (r.1.map fun _ => .upsert, r.2)
  | .batchUpsert order orders request =>
      let r := EidosDB.batchUpsert stores.toKindPorts order orders view.handles request
      some (r.1.map .batchUpsert, r.2)
  | .bulkUpsert order orders stream =>
      let r := EidosDB.bulkUpsert stores.toKindPorts order orders view.handles stream
      some (r.1.map .bulkUpsert, r.2)
  | .delete order request =>
      let r := delete stores order view.handles request
      some (r.1.map .delete, r.2)
  | .deleteByFilter matching each orders request =>
      let r := deleteByFilter stores matching each orders view.handles request
      some (r.1.map .deleteByFilter, r.2)
  | .search matching request =>
      some ((search stores matching view.handles request).map .search, view.handles)
  | .searchHybrid orders request =>
      some ((searchHybrid stores ops orders view.handles request).map .searchHybrid, view.handles)
  | .compact request =>
      let r := compact stores view.handles request
      some (r.1.map fun _ => .compact, r.2)

end EidosDbHandler

end EidosDB
