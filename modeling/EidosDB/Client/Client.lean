import EidosDB.Server.Database

/-! # The Client

    A client speaks in the types of the domain.  Each of its calls makes a
    request, and refuses one that no message can hold; the response is read
    back, and what a message could hold but the domain cannot is an error
    again.  What the server refuses is passed on. -/

namespace EidosDB

/-! ## Errors -/

/-- `ClientError`, but for a failure to connect. -/
inductive ClientError where
  | status (status : Status)
  | conversion (error : ConversionError)
  deriving DecidableEq

/-- `out_of_range` -/
def outOfRange (field : String) : ClientError := .conversion (.domain (field ++ " out of range"))

/-- `narrow_u32` -/
def narrowU32 (value : Nat) (field : String) : Except ClientError UInt32 :=
  if value ≤ u32Max then .ok (UInt32.ofNat value) else .error (outOfRange field)

/-! ## What a client is given and gives back -/

/-- `CollectionSpec`; the parameters of a graph may be given for any index
    type. -/
structure CollectionSpec where
  name : String
  metric : Metric
  dimension : Dimension
  indexType : IndexTypeChoice
  hnsw : Option HnswConfig

/-- `CollectionMetaView` -/
structure CollectionMetaView where
  name : String
  metric : Metric
  dimension : Dimension
  indexType : IndexTypeChoice
  count : Nat
  deriving DecidableEq

/-- `PointInput` -/
structure PointInput where
  id : VectorId
  embedding : Embedding
  document : Option Document
  payload : Option Payload

/-- `collection_info_to_view` -/
def collectionInfoToView (info : Pb.CollectionInfo) : Except ClientError CollectionMetaView := do
  let metric ← match Pb.Metric.tryFrom info.metric with
    | none => .error (outOfRange "metric")
    | some metric => (metricFromPb metric).mapError .conversion
  let indexType ← match Pb.IndexType.tryFrom info.indexType with
    | none => .error (outOfRange "index_type")
    | some indexType => (indexTypeFromPb indexType).mapError .conversion
  let dimension ← (Dimension.tryFrom info.dimension).mapError fun _ => outOfRange "dimension"
  .ok { name := info.name, metric := metric, dimension := dimension, indexType := indexType,
        count := info.count }

/-- The calls, with the orders of the iterations they start on the server;
    `fields` is the order of the fields of the payloads in a response. -/
inductive ClientCall where
  | createCollection (spec : CollectionSpec)
  | dropCollection (name : String)
  | listCollections (order : HashOrder)
  | describeCollection (name : String)
  | upsert (order : HashOrder) (orders : HashOrder × HashOrder) (collection : String)
      (point : PointInput)
  | batchUpsert (order : HashOrder) (orders : UpsertOrders) (collection : String)
      (points : List PointInput)
  | bulkUpsert (order : HashOrder) (orders : UpsertOrders) (collection : String)
      (chunks : List (List PointInput))
  | delete (order : HashOrder) (collection : String) (id : VectorId)
  | deleteByFilter (matching each : HashOrder) (orders : VectorId → HashOrder)
      (collection : String) (filter : Filter)
  | compact (collection : String)
  | search (matching fields : HashOrder) (collection : String) (query : SearchQuery)
  | searchHybrid (orders : SearchOrders) (fields : HashOrder) (collection : String)
      (query : HybridQuery)

/-- What the calls return. -/
inductive ClientAnswer where
  | created
  | dropped (existed : Bool)
  | listed (views : List CollectionMetaView)
  | described (view : CollectionMetaView)
  | upserted
  | batchUpserted (count : Nat)
  | bulkUpserted (count : Nat)
  | deleted (existed : Bool)
  | deletedByFilter (count : Nat)
  | compacted
  | hits (hits : List SearchHit)
  deriving DecidableEq

namespace EidosClient

/-! ## Requests -/

/-- The parameters of a graph, which `create_collection` sends whatever the
    index type is. -/
def hnswParams : Option HnswConfig → Except ClientError (Option Pb.HnswParams)
  | none => .ok none
  | some config => do
    let m ← narrowU32 config.m "m"
    let efConstruction ← narrowU32 config.efConstruction "ef_construction"
    let efSearch ← narrowU32 config.efSearch "ef_search"
    .ok (some { m := some m, efConstruction := some efConstruction, efSearch := some efSearch,
                seed := some config.seed })

def pointInputToPb (p : PointInput) : Pb.Point :=
  pointToPb p.id p.embedding p.document p.payload

/-- `point_batch_to_pb` -/
def pointBatchToPb (collection : String) (points : List Pb.Point) : Pb.PointBatch :=
  { collection := collection, points := points }

/-- The request of `create_collection`. -/
def createCollectionRequest (spec : CollectionSpec) :
    Except ClientError Pb.CreateCollectionRequest := do
  let dimension ← narrowU32 spec.dimension.get "dimension"
  let hnswParams ← hnswParams spec.hnsw
  .ok { name := spec.name
        metric := (metricToPb spec.metric).discriminant
        dimension := dimension
        indexType := (indexTypeToPb spec.indexType).discriminant
        hnswParams := hnswParams }

/-- The first half of a call: the request. -/
def request : ClientCall → Except ClientError Request
  | .createCollection spec => (createCollectionRequest spec).map .createCollection
  | .dropCollection name => .ok (.dropCollection { name := name })
  | .listCollections order => .ok (.listCollections order)
  | .describeCollection name => .ok (.describeCollection { name := name })
  | .upsert order orders collection point =>
    .ok (.upsert order orders { collection := collection, point := some (pointInputToPb point) })
  | .batchUpsert order orders collection points =>
    .ok (.batchUpsert order orders
      { batch := some (pointBatchToPb collection (points.map pointInputToPb)) })
  | .bulkUpsert order orders collection chunks =>
    .ok (.bulkUpsert order orders (chunks.map fun chunk =>
      .ok { batch := some (pointBatchToPb collection (chunk.map pointInputToPb)) }))
  | .delete order collection id =>
    .ok (.delete order { collection := collection, id := vectorIdToPb id })
  | .deleteByFilter matching each orders collection filter =>
    .ok (.deleteByFilter matching each orders (deleteByFilterToPb collection filter))
  | .compact collection => .ok (.compact { collection := collection })
  | .search matching _ collection query =>
    ((searchQueryToPb collection query).mapError .conversion).map (.search matching)
  | .searchHybrid orders _ collection query =>
    ((hybridQueryToPb collection query).mapError .conversion).map (.searchHybrid orders)

/-! ## Responses -/

/-- The second half of a call; `none` if the response is that of another. -/
def answer : ClientCall → Response → Option (Except ClientError ClientAnswer)
  | .createCollection _, .createCollection => some (.ok .created)
  | .dropCollection _, .dropCollection response => some (.ok (.dropped response.existed))
  | .listCollections _, .listCollections response =>
    some ((response.collections.mapM collectionInfoToView).map .listed)
  | .describeCollection _, .describeCollection response =>
    match response.collection with
    | none => some (.error (.conversion (.missingField "describe_collection.collection")))
    | some info => some ((collectionInfoToView info).map .described)
  | .upsert _ _ _ _, .upsert => some (.ok .upserted)
  | .batchUpsert _ _ _ _, .batchUpsert response => some (.ok (.batchUpserted response.upserted))
  | .bulkUpsert _ _ _ _, .bulkUpsert response => some (.ok (.bulkUpserted response.upserted))
  | .delete _ _ _, .delete response => some (.ok (.deleted response.existed))
  | .deleteByFilter _ _ _ _ _, .deleteByFilter response =>
    some (.ok (.deletedByFilter response.deleted))
  | .compact _, .compact => some (.ok .compacted)
  | .search _ fields _ _, .search response =>
    some (((hitsFromPb fields response).mapError .conversion).map .hits)
  | .searchHybrid _ fields _ _, .searchHybrid response =>
    some (((hybridHitsFromPb fields response).mapError .conversion).map .hits)
  | _, _ => none

/-- What a call makes of the reply. -/
def received (call : ClientCall) : Reply → Option (Except ClientError ClientAnswer)
  | .error status => some (.error (.status status))
  | .ok response => answer call response

/-! ## Sessions -/

/-- What happens to a client and its server. -/
inductive Event where
  | call (call : ClientCall)
  | restart (order : HashOrder)

/-- What the server sees of it. -/
def Event.onServer : Event → Option Daemon.Event
  | .call c =>
    match request c with
    | .ok request => some (.request request)
    | .error _ => none
  | .restart order => some (.restart order)

/-- What the calls return, given what comes out of the server. -/
def results : List Event → List Daemon.Output → List (Except ClientError ClientAnswer)
  | [], _ => []
  | .call call :: rest, outputs =>
    match request call with
    | .error e => .error e :: results rest outputs
    | .ok _ =>
      match outputs with
      | .reply reply :: outputs =>
        match received call reply with
        | some result => result :: results rest outputs
        | none => []
      | _ => []
  | .restart _ :: rest, outputs =>
    match outputs with
    | .started :: outputs => results rest outputs
    | _ => []

end EidosClient

end EidosDB
