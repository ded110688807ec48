import EidosDB.Proto.Search
import EidosDB.Server.CollectionDir

/-! # The Other Messages

    The messages of the calls that manage collections, of the calls on single
    points, of deletions by a filter and of dense searches, with their
    conversions.  What a client encodes, the server decodes to the same value,
    and the same holds of the hits on their way back. -/

namespace EidosDB

open Bytes

/-! ## Messages -/

namespace Pb

inductive IndexType where
  | unspecified
  | flat
  | hnsw
  deriving DecidableEq

/-- The number of an index type on the wire. -/
def IndexType.discriminant : IndexType → Int32
  | .unspecified => 0
  | .flat => 1
  | .hnsw => 2

/-- `pb::IndexType::try_from` -/
def IndexType.tryFrom (raw : Int32) : Option IndexType :=
  if raw = 0 then some .unspecified
  else if raw = 1 then some .flat
  else if raw = 2 then some .hnsw
  else none

structure HnswParams where
  m : Option UInt32
  efConstruction : Option UInt32
  efSearch : Option UInt32
  seed : Option (BitVec 64)
  deriving DecidableEq

/-- `HnswParams::default` -/
def HnswParams.default : HnswParams :=
  { m := none, efConstruction := none, efSearch := none, seed := none }

structure CreateCollectionRequest where
  name : String
  metric : Int32
  dimension : UInt32
  indexType : Int32
  hnswParams : Option HnswParams
  deriving DecidableEq

structure DropCollectionRequest where
  name : String
  deriving DecidableEq

structure DropCollectionResponse where
  existed : Bool
  deriving DecidableEq

structure DescribeCollectionRequest where
  name : String
  deriving DecidableEq

structure CollectionInfo where
  name : String
  metric : Int32
  dimension : UInt32
  indexType : Int32
  count : Nat
  deriving DecidableEq

structure ListCollectionsResponse where
  collections : List CollectionInfo
  deriving DecidableEq

structure DescribeCollectionResponse where
  collection : Option CollectionInfo
  deriving DecidableEq

structure UpsertRequest where
  collection : String
  point : Option Point
  deriving DecidableEq

structure DeleteRequest where
  collection : String
  id : List Byte
  deriving DecidableEq

structure DeleteResponse where
  existed : Bool
  deriving DecidableEq

structure DeleteByFilterRequest where
  collection : String
  filter : Option Filter

structure DeleteByFilterResponse where
  deleted : Nat
  deriving DecidableEq

structure SearchRequest where
  collection : String
  vector : List F32
  k : UInt32
  metric : Option Int32
  filter : Option Filter

structure Hit where
  id : List Byte
  score : F32
  payload : Option Payload
  deriving DecidableEq

structure SearchResponse where
  hits : List Hit
  deriving DecidableEq

structure SearchHybridResponse where
  hits : List Hit
  deriving DecidableEq

structure CompactRequest where
  collection : String
  deriving DecidableEq

end Pb

/-! ## Index types and dimensions -/

/-- `index_type_to_pb` -/
def indexTypeToPb : IndexTypeChoice → Pb.IndexType
  | .flat => .flat
  | .hnsw => .hnsw

/-- `index_type_from_pb` -/
def indexTypeFromPb : Pb.IndexType → Except ConversionError IndexTypeChoice
  | .flat => .ok .flat
  | .hnsw => .ok .hnsw
  | .unspecified => .error (.missingField "index_type")

/-- The error of `Dimension::try_from`, a conversion from a `u32`. -/
inductive DimensionError where
  | zero
  deriving DecidableEq, Repr

/-- `DimensionError::to_string` -/
def DimensionError.text : DimensionError → String
  | .zero => "dimension must be greater than zero"

/-- `Dimension::try_from` -/
def Dimension.tryFrom (value : UInt32) : Except DimensionError Dimension :=
  if h : 0 < value.toNat then .ok ⟨value.toNat, h, value.toNat_lt⟩ else .error .zero

theorem metric_tryFrom (metric : Metric) :
    Pb.Metric.tryFrom (metricToPb metric).discriminant = some (metricToPb metric) := by
  cases metric <;> rfl

theorem metricFromPb_toPb (metric : Metric) : metricFromPb (metricToPb metric) = .ok metric := by
  cases metric <;> rfl

theorem indexType_tryFrom (choice : IndexTypeChoice) :
    Pb.IndexType.tryFrom (indexTypeToPb choice).discriminant = some (indexTypeToPb choice) := by
  cases choice <;> rfl

theorem indexTypeFromPb_toPb (choice : IndexTypeChoice) :
    indexTypeFromPb (indexTypeToPb choice) = .ok choice := by
  cases choice <;> rfl

/-- A dimension is a `u32`. -/
theorem Dimension.tryFrom_ofNat (dimension : Dimension) :
    Dimension.tryFrom (UInt32.ofNat dimension.get) = .ok dimension := by
  have hnat : (UInt32.ofNat dimension.get).toNat = dimension.get := by
    rw [UInt32.toNat_ofNat', Nat.mod_eq_of_lt dimension.lt]
  have hpos := dimension.pos
  unfold Dimension.tryFrom
  simp only [hnat, hpos, dite_true]

/-! ## Deletions by a filter -/

/-- `delete_by_filter_to_pb` -/
def deleteByFilterToPb (collection : String) (filter : Filter) : Pb.DeleteByFilterRequest :=
  { collection := collection, filter := some (filterToPb filter) }

/-- `delete_by_filter_from_pb` -/
def deleteByFilterFromPb (request : Pb.DeleteByFilterRequest) :
    Except ConversionError (String × Filter) :=
  match request.filter with
  | none => .error (.missingField "delete_by_filter.filter")
  | some filter => (filterFromPb filter).map fun filter => (request.collection, filter)

theorem deleteByFilterFromPb_toPb (collection : String) (filter : Filter) :
    deleteByFilterFromPb (deleteByFilterToPb collection filter) = .ok (collection, filter) :=
  inverse_filter.decode_map (fun filter => (collection, filter)) filter

/-! ## Dense searches -/

/-- `search_query_to_pb` -/
def searchQueryToPb (collection : String) (query : SearchQuery) :
    Except ConversionError Pb.SearchRequest := do
  let k ← u32TryFrom "k out of range" query.k
  .ok {
    collection := collection
    vector := embeddingToPb query.embedding
    k := k
    metric := query.metric.map fun metric => (metricToPb metric).discriminant
    filter := query.filter.map filterToPb
  }

/-- `search_query_from_pb` -/
def searchQueryFromPb (request : Pb.SearchRequest) :
    Except ConversionError (String × SearchQuery) := do
  let embedding ← embeddingFromPb request.vector
  let k ← usizeTryFrom "k out of range" request.k
  let metric ← optionalMetricFromPb request.metric
  let filter ← transpose filterFromPb request.filter
  .ok (request.collection, { embedding := embedding, k := k, metric := metric, filter := filter })

/-- What is encoded is decoded to the same query. -/
theorem searchQueryFromPb_of_toPb {collection : String} {query : SearchQuery}
    {request : Pb.SearchRequest} (hencode : searchQueryToPb collection query = .ok request) :
    searchQueryFromPb request = .ok (collection, query) := by
  unfold searchQueryToPb at hencode
  cases hk : u32TryFrom "k out of range" query.k with
  | error e =>
    rw [hk] at hencode
    cases hencode
  | ok k =>
    rw [hk] at hencode
    cases hencode
    unfold searchQueryFromPb
    dsimp only
    rw [inverse_embedding.decode_encode, usizeTryFrom_eq, optionalMetricFromPb_toPb,
      (Inverse.transpose inverse_filter).decode_encode, toNat_of_u32TryFrom hk]
    rfl

/-! ## Hits -/

/-- `hit_to_pb` -/
def hitToPb (hit : SearchHit) : Pb.Hit :=
  { id := vectorIdToPb hit.id, score := hit.score, payload := hit.payload.map payloadToPb }

/-- `hits_to_pb` -/
def hitsToPb (hits : List SearchHit) : Pb.SearchResponse := { hits := hits.map hitToPb }

/-- `hybrid_hits_to_pb` -/
def hybridHitsToPb (hits : List SearchHit) : Pb.SearchHybridResponse :=
  { hits := hits.map hitToPb }

/-- `hit_from_pb`, with the order of the fields of its payload. -/
def hitFromPb (order : HashOrder) (hit : Pb.Hit) : Except ConversionError SearchHit := do
  let id ← vectorIdFromPb hit.id
  let payload ← transpose (payloadFromPb order) hit.payload
  .ok { id := id, score := hit.score, payload := payload }

/-- `hits_from_pb` -/
def hitsFromPb (order : HashOrder) (response : Pb.SearchResponse) :
    Except ConversionError (List SearchHit) := response.hits.mapM (hitFromPb order)

/-- `hybrid_hits_from_pb` -/
def hybridHitsFromPb (order : HashOrder) (response : Pb.SearchHybridResponse) :
    Except ConversionError (List SearchHit) := response.hits.mapM (hitFromPb order)

theorem inverse_hit (order : HashOrder) : Inverse hitToPb (hitFromPb order) := by
  apply Inverse.of_laws
  · rintro ⟨id, score, payload⟩
    unfold hitFromPb hitToPb
    dsimp only
    rw [inverse_vectorId.decode_encode, (inverse_optionalPayload order).decode_encode]
    rfl
  · rintro hit ⟨id, score, payload⟩ hok
    unfold hitFromPb at hok
    dsimp only at hok
    cases hid : vectorIdFromPb id with
    | error e =>
      rw [hid] at hok
      cases hok
    | ok id' =>
      cases hpayload : transpose (payloadFromPb order) payload with
      | error e =>
        rw [hid, hpayload] at hok
        cases hok
      | ok payload' =>
        rw [hid, hpayload] at hok
        cases hok
        rw [← inverse_vectorId.encode_of_ok hid,
          ← (inverse_optionalPayload order).encode_of_ok hpayload]
        rfl

theorem hitsFromPb_toPb (order : HashOrder) (hits : List SearchHit) :
    hitsFromPb order (hitsToPb hits) = .ok hits := (inverse_hit order).list.decode_encode hits

theorem hybridHitsFromPb_toPb (order : HashOrder) (hits : List SearchHit) :
    hybridHitsFromPb order (hybridHitsToPb hits) = .ok hits :=
  (inverse_hit order).list.decode_encode hits

end EidosDB
