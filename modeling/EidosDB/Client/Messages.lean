import EidosDB.Client.Direct
import EidosDB.Server.Upserts

/-! # Calls through their Messages

    What a client sends is read by the server as it was meant, and what comes
    back is what the call means: a call that is refused before it is sent, and
    a call that is answered. -/

namespace EidosDB

open Effect

/-! ## Creating collections -/

theorem narrowU32_of_le {n : Nat} (h : n ≤ u32Max) (field : String) :
    narrowU32 n field = .ok (UInt32.ofNat n) := if_pos h

theorem narrowU32_of_lt {n : Nat} (h : u32Max < n) (field : String) :
    narrowU32 n field = .error (outOfRange field) := if_neg (Nat.not_le.mpr h)

theorem positiveOrDefault_ofNat {n : Nat} (hpos : 0 < n) (hle : n ≤ u32Max) (default : Nat)
    (field : String) : positiveOrDefault (some (UInt32.ofNat n)) default field = .ok n := by
  have hnat : (UInt32.ofNat n).toNat = n := by
    rw [UInt32.toNat_ofNat', Nat.mod_eq_of_lt]
    unfold u32Max at hle
    omega
  have hne : UInt32.ofNat n ≠ 0 := by
    intro hzero
    rw [hzero] at hnat
    exact hpos.ne hnat
  have husize : n ≤ usizeMax := by
    unfold u32Max at hle
    unfold usizeMax
    omega
  unfold positiveOrDefault
  dsimp only
  rw [if_neg hne, hnat, if_pos husize]

namespace EidosClient

/-- The parameters of a graph that can be sent are read as they are, but for
    the metric. -/
theorem hnswParams_of_none {config : HnswConfig} (h : config.tooLarge = none) (metric : Metric) :
    ∃ params, hnswParams (some config) = .ok params ∧
      hnswConfigFromPb metric params = .ok { config with metric := metric } := by
  unfold HnswConfig.tooLarge at h
  split_ifs at h with hm hconstruction hsearch
  rw [Nat.not_lt] at hm hconstruction hsearch
  have hdegree := config.degree
  have hnew := HnswConfig.new_self { config with metric := metric }
  refine ⟨some { m := some (.ofNat config.m)
                 efConstruction := some (.ofNat config.efConstruction)
                 efSearch := some (.ofNat config.efSearch), seed := some config.seed }, ?_, ?_⟩
  · unfold hnswParams
    dsimp only
    rw [narrowU32_of_le hm, narrowU32_of_le hconstruction, narrowU32_of_le hsearch]
    rfl
  · unfold hnswConfigFromPb
    dsimp only [Option.getD_some]
    rw [positiveOrDefault_ofNat (by omega) hm,
      positiveOrDefault_ofNat config.construction_pos hconstruction,
      positiveOrDefault_ofNat config.search_pos hsearch]
    dsimp only at hnew
    show (HnswConfig.new metric config.m config.efConstruction config.efSearch config.seed).mapError
      _ = _
    rw [hnew]
    rfl

/-- The first one that cannot is named. -/
theorem hnswParams_of_some {config : HnswConfig} {field : String}
    (h : config.tooLarge = some field) : hnswParams (some config) = .error (outOfRange field) := by
  unfold HnswConfig.tooLarge at h
  unfold hnswParams
  dsimp only
  split_ifs at h with hm hconstruction hsearch
  · cases h
    rw [narrowU32_of_lt hm]
    rfl
  · cases h
    rw [narrowU32_of_le (Nat.not_lt.mp hm), narrowU32_of_lt hconstruction]
    rfl
  · cases h
    rw [narrowU32_of_le (Nat.not_lt.mp hm), narrowU32_of_le (Nat.not_lt.mp hconstruction),
      narrowU32_of_lt hsearch]
    rfl

theorem narrowU32_dimension (dimension : Dimension) :
    narrowU32 dimension.get "dimension" = .ok (UInt32.ofNat dimension.get) := by
  have hlt := dimension.lt
  exact narrowU32_of_le (by unfold u32Max; omega) _

/-- The parameters of a graph are sent whatever the index type is. -/
theorem hnswParams_of_spec {hnsw : Option HnswConfig} (h : hnsw.bind HnswConfig.tooLarge = none)
    (metric : Metric) : ∃ params, hnswParams hnsw = .ok params ∧
      hnswConfigFromPb metric params = .ok { hnsw.getD .default with metric := metric } := by
  cases hnsw with
  | none => exact ⟨none, rfl, rfl⟩
  | some config => exact hnswParams_of_none h metric

theorem createCollectionRequest_of_none {spec : CollectionSpec}
    (h : spec.hnsw.bind HnswConfig.tooLarge = none) :
    ∃ request, createCollectionRequest spec = .ok request ∧
      EidosDbHandler.metaFromPb request = .ok spec.metadata := by
  obtain ⟨params, hparams, hconfig⟩ := hnswParams_of_spec h spec.metric
  refine ⟨{ name := spec.name
            metric := (metricToPb spec.metric).discriminant
            dimension := UInt32.ofNat spec.dimension.get
            indexType := (indexTypeToPb spec.indexType).discriminant
            hnswParams := params }, ?_, ?_⟩
  · unfold createCollectionRequest
    rw [narrowU32_dimension, hparams]
    rfl
  · unfold EidosDbHandler.metaFromPb
    dsimp only
    rw [metric_tryFrom, indexType_tryFrom, Dimension.tryFrom_ofNat]
    dsimp only [bind, Except.bind]
    rw [metricFromPb_toPb, indexTypeFromPb_toPb]
    unfold CollectionSpec.metadata
    cases spec.indexType with
    | flat => rfl
    | hnsw =>
      dsimp only [bind, Except.bind, Except.mapError]
      rw [hconfig]
      rfl

theorem createCollectionRequest_of_some {spec : CollectionSpec} {field : String}
    (h : spec.hnsw.bind HnswConfig.tooLarge = some field) :
    createCollectionRequest spec = .error (outOfRange field) := by
  obtain ⟨config, hconfig, hfield⟩ := Option.bind_eq_some_iff.mp h
  unfold createCollectionRequest
  rw [narrowU32_dimension, hconfig, hnswParams_of_some hfield]
  rfl

end EidosClient

/-! ## Calls of the service on what a client sends -/

namespace Direct

variable {I J L P : Type} {stores : KindStores I J L P} {ops : F64Ops}
  {handles : Handles I J L P}

theorem pointFromPb_input (order : HashOrder) (p : PointInput) :
    pointFromPb order (EidosClient.pointInputToPb p) = .ok (decoded p) :=
  (inverse_point order).decode_encode (decoded p)

theorem pointBatchFromPb_input (order : HashOrder) (collection : String)
    (points : List PointInput) :
    pointBatchFromPb order
        (EidosClient.pointBatchToPb collection (points.map EidosClient.pointInputToPb)) =
      .ok (collection, points.map decoded) := by
  have hpoints : (points.map EidosClient.pointInputToPb).mapM (pointFromPb order) =
      .ok (points.map decoded) := by
    have hlist := (inverse_point order).list.decode_encode (points.map decoded)
    rw [List.map_map] at hlist
    exact hlist
  unfold pointBatchFromPb EidosClient.pointBatchToPb
  dsimp only
  rw [hpoints]
  rfl

/-- An operation that leaves its collection as it is leaves all as they are. -/
theorem onCollection_read {α : Type} (name : String)
    (f : CollectionHandle I J L P → Except Status α) (handles : Handles I J L P) :
    (onCollection name (fun handle => (f handle, handle)) handles).2 = handles := by
  unfold onCollection
  cases hget : handles.get name with
  | none => rfl
  | some handle => exact insert_get hget

/-- A point by itself is a batch. -/
theorem upsertEach_single (orders : HashOrder × HashOrder) (d : DecodedPoint) :
    upsertEach stores.toKindPorts (fun _ => orders) 0 [d] = fun kind =>
      let r := kind.upsert stores.toKindPorts orders d
      (r.1.mapErr queryErrorToStatus, r.2) := by
  funext kind
  unfold upsertEach
  dsimp only
  cases kind.upsert stores.toKindPorts orders d with
  | mk outcome kind' => cases outcome <;> rfl

theorem ensureDimension_single (d : DecodedPoint) (expected : Nat) :
    ensureDimension [d] expected =
      if d.embedding.dimension ≠ expected then
        .error ⟨.invalidArgument, "vector dimension mismatch: expected " ++ toString expected ++
          ", got " ++ toString d.embedding.dimension⟩
      else .ok () := by
  unfold ensureDimension
  by_cases h : d.embedding.dimension ≠ expected
  · rw [if_pos h]
    simp [h]
  · rw [if_neg h]
    simp [h]

theorem upsert_input (order : HashOrder) (orders : HashOrder × HashOrder) (collection : String)
    (p : PointInput) :
    EidosDbHandler.upsert stores order orders handles
        { collection := collection, point := some (EidosClient.pointInputToPb p) } =
      onCollection collection (upsertPoints stores (fun _ => orders) 0 [decoded p]) handles := by
  unfold EidosDbHandler.upsert onCollection
  dsimp only
  cases hget : handles.get collection with
  | none => rfl
  | some handle =>
    dsimp only
    have hlength : (EidosClient.pointInputToPb p).vector.length =
        (decoded p).embedding.dimension := rfl
    rw [hlength, pointFromPb_input]
    unfold upsertPoints
    rw [ensureDimension_single, upsertEach_single]
    by_cases hdim : (decoded p).embedding.dimension ≠ handle.dimension.get
    · rw [if_pos hdim, if_pos hdim]
      exact congrArg _ (insert_get hget).symm
    · rw [if_neg hdim, if_neg hdim]

theorem batchUpsert_input (order : HashOrder) (orders : UpsertOrders) (collection : String)
    (points : List PointInput) :
    batchUpsert stores.toKindPorts order orders handles
        { batch := some (EidosClient.pointBatchToPb collection
          (points.map EidosClient.pointInputToPb)) } =
      let r := onCollection collection (upsertPoints stores orders 0 (points.map decoded)) handles
      (r.1.map fun _ => { upserted := points.length }, r.2) := by
  unfold batchUpsert batchUpsertFromPb onCollection
  dsimp only
  rw [pointBatchFromPb_input]
  dsimp only
  cases hget : handles.get collection with
  | none => rfl
  | some handle =>
    dsimp only
    unfold upsertPoints
    cases hdims : ensureDimension (points.map decoded) handle.dimension.get with
    | error status => exact congrArg _ (insert_get hget).symm
    | ok => rw [List.length_map]

/-- The messages of a stream. -/
def messages (collection : String) (chunks : List (List PointInput)) : List StreamItem :=
  chunks.map fun chunk => .ok { batch := some (EidosClient.pointBatchToPb collection
    (chunk.map EidosClient.pointInputToPb)) }

theorem bulkLoop_of_error {order : HashOrder} {orders : UpsertOrders} {collection : String}
    {n : Nat} {points : List DecodedPoint} {stream : List StreamItem}
    {handle handle' : CollectionHandle I J L P} {status : Status}
    (h : upsertPoints stores orders n points handle = (.error status, handle')) :
    bulkLoop stores.toKindPorts order orders collection handle n points stream =
      (.error status, handle') := by
  unfold upsertPoints at h
  unfold bulkLoop
  cases hdims : ensureDimension points handle.dimension.get with
  | error status' =>
    simp only [hdims] at h
    cases h
    rfl
  | ok =>
    simp only [hdims] at h
    dsimp only
    rw [h]

theorem bulkLoop_of_ok {order : HashOrder} {orders : UpsertOrders} {collection : String}
    {n : Nat} {points : List DecodedPoint} {handle handle' : CollectionHandle I J L P}
    (h : upsertPoints stores orders n points handle = (.ok (), handle')) :
    bulkLoop stores.toKindPorts order orders collection handle n points [] =
        (.ok { upserted := n + points.length }, handle') ∧
    ∀ next points' stream, bulkUpsertFromPb order next = .ok (collection, points') →
      bulkLoop stores.toKindPorts order orders collection handle n points (.ok next :: stream) =
        bulkLoop stores.toKindPorts order orders collection handle' (n + points.length) points'
          stream := by
  unfold upsertPoints at h
  cases hdims : ensureDimension points handle.dimension.get with
  | error status' =>
    simp only [hdims] at h
    cases h
  | ok =>
    simp only [hdims] at h
    constructor
    · unfold bulkLoop
      rw [hdims]
      dsimp only
      rw [h]
    · intro next points' stream hnext
      have hsame : ¬ (collection ≠ "" ∧ collection ≠ collection) := fun hne => hne.2 rfl
      rw [bulkLoop, hdims]
      dsimp only
      rw [h]
      dsimp only
      rw [hnext]
      exact if_neg hsame

theorem bulkLoop_input (order : HashOrder) (orders : UpsertOrders) (collection : String)
    (chunks : List (List PointInput)) (chunk : List PointInput) (n : Nat)
    (handle : CollectionHandle I J L P) :
    bulkLoop stores.toKindPorts order orders collection handle n (chunk.map decoded)
        (messages collection chunks) =
      let r := upsertChunks stores orders n ((chunk :: chunks).map (·.map decoded)) handle
      (r.1.map fun upserted => { upserted := upserted }, r.2) := by
  induction chunks generalizing chunk n handle with
  | nil =>
    cases hwritten : upsertPoints stores orders n (chunk.map decoded) handle with
    | mk outcome handle' =>
      cases outcome with
      | error status =>
        rw [bulkLoop_of_error hwritten]
        simp only [List.map_cons, upsertChunks, hwritten]
        rfl
      | ok =>
        rw [messages, List.map_nil, (bulkLoop_of_ok hwritten).1]
        simp only [List.map_cons, List.map_nil, upsertChunks, hwritten]
        rfl
  | cons next rest ih =>
    cases hwritten : upsertPoints stores orders n (chunk.map decoded) handle with
    | mk outcome handle' =>
      cases outcome with
      | error status =>
        rw [bulkLoop_of_error hwritten]
        simp only [List.map_cons, upsertChunks, hwritten]
        rfl
      | ok =>
        have hnext : bulkUpsertFromPb order { batch := some (EidosClient.pointBatchToPb collection
            (next.map EidosClient.pointInputToPb)) } = .ok (collection, next.map decoded) :=
          pointBatchFromPb_input order collection next
        rw [messages, List.map_cons, (bulkLoop_of_ok hwritten).2 _ _ _ hnext]
        refine (ih next _ handle').trans ?_
        simp only [List.map_cons, upsertChunks, hwritten]

theorem bulkUpsert_input (order : HashOrder) (orders : UpsertOrders) (collection : String)
    (chunk : List PointInput) (chunks : List (List PointInput)) :
    bulkUpsert stores.toKindPorts order orders handles (messages collection (chunk :: chunks)) =
      let r := onCollection collection
        (upsertChunks stores orders 0 ((chunk :: chunks).map (·.map decoded))) handles
      (r.1.map fun upserted => { upserted := upserted }, r.2) := by
  have hfirst : bulkUpsertFromPb order { batch := some (EidosClient.pointBatchToPb collection
      (chunk.map EidosClient.pointInputToPb)) } = .ok (collection, chunk.map decoded) :=
    pointBatchFromPb_input order collection chunk
  have hloop := @bulkLoop_input I J L P stores order orders collection chunks chunk 0
  unfold messages at hloop ⊢
  rw [List.map_cons, bulkUpsert]
  dsimp only
  rw [hfirst]
  dsimp only
  unfold onCollection
  cases handles.get collection with
  | none => rfl
  | some handle =>
    dsimp only
    rw [hloop handle]

theorem delete_input (order : HashOrder) (collection : String) (id : VectorId) :
    EidosDbHandler.delete stores order handles { collection := collection, id := vectorIdToPb id } =
      let r := onCollection collection (runBlocking fun kind =>
        let r := kind.delete stores order id
        (r.1.mapErr queryErrorToStatus, r.2)) handles
      (r.1.map fun existed => { existed := existed }, r.2) := by
  unfold EidosDbHandler.delete onCollection
  dsimp only
  rw [inverse_vectorId.decode_encode]
  cases handles.get collection <;> rfl

theorem deleteByFilter_input (matching each : HashOrder) (orders : VectorId → HashOrder)
    (collection : String) (filter : Filter) :
    EidosDbHandler.deleteByFilter stores matching each orders handles
        (deleteByFilterToPb collection filter) =
      let r := onCollection collection (runBlocking fun kind =>
        let r := kind.deleteByFilter stores matching each orders filter
        (r.1.mapErr queryErrorToStatus, r.2)) handles
      (r.1.map fun deleted => { deleted := deleted }, r.2) := by
  unfold EidosDbHandler.deleteByFilter onCollection
  rw [deleteByFilterFromPb_toPb]
  dsimp only
  cases handles.get collection <;> rfl

theorem compact_input (collection : String) :
    EidosDbHandler.compact stores handles { collection := collection } =
      onCollection collection (runBlocking fun kind =>
        let r := kind.compact stores
        (r.1.mapErr serverErrorToStatus, r.2)) handles := by
  unfold EidosDbHandler.compact onCollection
  cases handles.get collection <;> rfl

theorem searchQueryToPb_of_lt (collection : String) {query : SearchQuery}
    (h : u32Max < query.k) :
    searchQueryToPb collection query = .error (.domain "k out of range") := by
  unfold searchQueryToPb u32TryFrom
  rw [if_neg (Nat.not_le.mpr h)]
  rfl

theorem searchQueryToPb_of_le (collection : String) {query : SearchQuery}
    (h : query.k ≤ u32Max) : ∃ request, searchQueryToPb collection query = .ok request := by
  unfold searchQueryToPb u32TryFrom
  rw [if_pos h]
  exact ⟨_, rfl⟩

theorem search_input {collection : String} {query : SearchQuery} {request : Pb.SearchRequest}
    (hencode : searchQueryToPb collection query = .ok request) (matching : HashOrder) :
    EidosDbHandler.search stores matching handles request =
      (onCollection collection (fun handle => (searchWith (some query.embedding.dimension)
        (fun kind => kind.search stores matching query) handle, handle)) handles).1.map
        hitsToPb := by
  unfold EidosDbHandler.search onCollection
  rw [searchQueryFromPb_of_toPb hencode]
  dsimp only
  cases handles.get collection with
  | none => rfl
  | some handle =>
    dsimp only
    unfold searchWith
    by_cases hdim : query.embedding.dimension ≠ handle.dimension.get
    · simp only [Option.bind_some, if_pos hdim]
      rfl
    · simp only [Option.bind_some, if_neg hdim]

theorem hybridQueryToPb_cases (collection : String) (query : HybridQuery) :
    (u32Max < query.k → hybridQueryToPb collection query = .error (.domain "k out of range")) ∧
    (query.k ≤ u32Max → u32Max < query.overfetchFactor →
      hybridQueryToPb collection query = .error (.domain "overfetch_factor out of range")) ∧
    (query.k ≤ u32Max → query.overfetchFactor ≤ u32Max →
      ∃ request, hybridQueryToPb collection query = .ok request) := by
  unfold hybridQueryToPb u32TryFrom
  refine ⟨fun hk => ?_, fun hk hfactor => ?_, fun hk hfactor => ?_⟩
  · rw [if_neg (Nat.not_le.mpr hk)]
    rfl
  · rw [if_pos hk, if_neg (Nat.not_le.mpr hfactor)]
    rfl
  · rw [if_pos hk, if_pos hfactor]
    exact ⟨_, rfl⟩

/-- What is read of a query that has been sent. -/
theorem hybridQueryFromPb_input {collection : String} {query : HybridQuery}
    {request : Pb.SearchHybridRequest} (hencode : hybridQueryToPb collection query = .ok request) :
    hybridQueryFromPb request =
      if !(query.rrfK.isFinite && query.rrfK.gt .zero) then
        .error (.domain "rrf_k must be finite and strictly positive")
      else if query.overfetchFactor = 0 then
        .error (.domain "overfetch_factor must be positive when present")
      else .ok (collection, withoutEmptyText query) := by
  unfold hybridQueryToPb at hencode
  cases hk : u32TryFrom "k out of range" query.k with
  | error e =>
    rw [hk] at hencode
    cases hencode
  | ok k =>
    cases hfactor : u32TryFrom "overfetch_factor out of range" query.overfetchFactor with
    | error e =>
      rw [hk, hfactor] at hencode
      cases hencode
    | ok factor =>
      rw [hk, hfactor] at hencode
      cases hencode
      have hnat := toNat_of_u32TryFrom hfactor
      unfold hybridQueryFromPb
      dsimp only
      rw [optionalVectorFromPb_toPb, usizeTryFrom_eq, optionalMetricFromPb_toPb,
        (Inverse.transpose inverse_filter).decode_encode]
      -- only the two parameters can still be rejected
      unfold rrfKFromPb overfetchFactorFromPb
      dsimp only [bind, Except.bind]
      cases hrrf : query.rrfK.isFinite && query.rrfK.gt .zero with
      | false => rfl
      | true =>
        rw [Bool.not_true]
        by_cases hzero : factor = 0
        · have hfactor' : query.overfetchFactor = 0 := by
            rw [← hnat, hzero]
            rfl
          rw [if_pos hzero, if_pos hfactor']
          rfl
        · have hfactor' : query.overfetchFactor ≠ 0 := by
            intro h
            rw [h] at hnat
            exact hzero (UInt32.toNat_inj.mp hnat)
          rw [if_neg hzero, if_neg hfactor', usizeTryFrom_eq]
          show Except.ok _ = Except.ok _
          rw [toNat_of_u32TryFrom hk, hnat]
          unfold withoutEmptyText
          by_cases htext : query.text = some ""
          · rw [if_pos htext, htext]
            rfl
          · rw [if_neg htext, optionalTextFromPb_of_ne htext]

/-- What is refused of a query that has been sent. -/
theorem hybridRefused_of_le {query : HybridQuery} (hk : query.k ≤ u32Max)
    (hfactor : query.overfetchFactor ≤ u32Max) :
    hybridRefused query =
      if !(query.rrfK.isFinite && query.rrfK.gt .zero) then
        some (.status (conversionErrorToStatus
          (.domain "rrf_k must be finite and strictly positive")))
      else if query.overfetchFactor = 0 then
        some (.status (conversionErrorToStatus
          (.domain "overfetch_factor must be positive when present")))
      else none := by
  unfold hybridRefused
  rw [if_neg (Nat.not_lt.mpr hk), if_neg (Nat.not_lt.mpr hfactor)]

variable (stores ops handles) in
theorem searchHybrid_input {collection : String} {query : HybridQuery}
    {request : Pb.SearchHybridRequest} (hencode : hybridQueryToPb collection query = .ok request)
    (orders : SearchOrders) :
    EidosDbHandler.searchHybrid stores ops orders handles request =
      if !(query.rrfK.isFinite && query.rrfK.gt .zero) then
        .error (conversionErrorToStatus (.domain "rrf_k must be finite and strictly positive"))
      else if query.overfetchFactor = 0 then
        .error (conversionErrorToStatus (.domain "overfetch_factor must be positive when present"))
      else
        (onCollection collection (fun handle =>
          (searchWith (query.vector.map Embedding.dimension)
            (fun kind => kind.searchHybrid stores ops orders (withoutEmptyText query)) handle,
            handle)) handles).1.map hybridHitsToPb := by
  unfold EidosDbHandler.searchHybrid
  rw [hybridQueryFromPb_input hencode]
  cases hrrf : query.rrfK.isFinite && query.rrfK.gt .zero with
  | false => rfl
  | true =>
    rw [Bool.not_true, if_neg Bool.false_ne_true, if_neg Bool.false_ne_true]
    by_cases hzero : query.overfetchFactor = 0
    · rw [if_pos hzero, if_pos hzero]
    · rw [if_neg hzero, if_neg hzero]
      unfold onCollection
      dsimp only
      cases handles.get collection with
      | none => rfl
      | some handle =>
        dsimp only
        unfold searchWith
        rw [Option.bind_map]
        have hvector : (withoutEmptyText query).vector = query.vector := by
          unfold withoutEmptyText
          split <;> rfl
        rw [hvector]
        cases query.vector with
        | none => rfl
        | some vector =>
          by_cases hdim : vector.dimension ≠ handle.dimension.get
          · simp only [Option.bind_some, Function.comp, if_pos hdim]
            rfl
          · simp only [Option.bind_some, Function.comp, if_neg hdim]

theorem collectionInfoToView_info (metadata : CollectionMeta) :
    collectionInfoToView (EidosDbHandler.info stores handles metadata) =
      .ok (view stores handles metadata) := by
  have hlt := metadata.dimension.lt
  have hdim : metadata.dimension.get ≤ u32Max := by
    unfold u32Max
    omega
  unfold collectionInfoToView EidosDbHandler.info
  dsimp only
  rw [metric_tryFrom, indexType_tryFrom, if_pos hdim, Dimension.tryFrom_ofNat]
  dsimp only [bind, Except.bind]
  rw [metricFromPb_toPb, indexTypeFromPb_toPb]
  rfl

theorem listCollections_views (order : HashOrder) (metas : OrderedTable String CollectionMeta) :
    (EidosDbHandler.listCollections stores order metas handles).collections.mapM
        collectionInfoToView =
      .ok ((order.entries metas).map fun p => view stores handles p.2) := by
  unfold EidosDbHandler.listCollections
  dsimp only
  induction order.entries metas with
  | nil => rfl
  | cons p rest ih =>
    rw [List.map_cons, List.mapM_cons, collectionInfoToView_info, ih]
    rfl

end Direct

/-! ## A call through its messages -/

namespace EidosClient

variable {stores : KindStores FlatIndex PlacedGraph InMemoryLexicalIndex InMemoryPayloadStore}
  {ops : F64Ops}

/-- What a client refuses to send. -/
theorem request_of_error {call : ClientCall} {e : ClientError} (h : request call = .error e)
    (db : Database) : Direct.answer stores ops db call = (.error e, db) := by
  cases call with
  | createCollection spec =>
    cases hfield : spec.hnsw.bind HnswConfig.tooLarge with
    | none =>
      obtain ⟨r, hrequest, -⟩ := createCollectionRequest_of_none hfield
      rw [request, hrequest] at h
      cases h
    | some field =>
      rw [request, createCollectionRequest_of_some hfield] at h
      cases h
      simp only [Direct.answer, hfield]
  | search matching fields collection query =>
    by_cases hk : u32Max < query.k
    · rw [request, Direct.searchQueryToPb_of_lt collection hk] at h
      cases h
      simp only [Direct.answer, Direct.read, Direct.searchRefused, if_pos hk]
      rfl
    · obtain ⟨r, hencode⟩ := Direct.searchQueryToPb_of_le collection (Nat.not_lt.mp hk)
      rw [request, hencode] at h
      cases h
  | searchHybrid orders fields collection query =>
    obtain ⟨hlarge, hlarge', hfits⟩ := Direct.hybridQueryToPb_cases collection query
    rw [request] at h
    by_cases hk : u32Max < query.k
    · rw [hlarge hk] at h
      cases h
      simp only [Direct.answer, Direct.read, Direct.hybridRefused, if_pos hk]
      rfl
    · by_cases hfactor : u32Max < query.overfetchFactor
      · rw [hlarge' (Nat.not_lt.mp hk) hfactor] at h
        cases h
        simp only [Direct.answer, Direct.read, Direct.hybridRefused, if_neg hk, if_pos hfactor]
        rfl
      · obtain ⟨r, hencode⟩ := hfits (Nat.not_lt.mp hk) (Nat.not_lt.mp hfactor)
        rw [hencode] at h
        cases h
  | _ => cases h

/-- A call on a collection, from what the service makes of its request. -/
theorem received_write {α β : Type} {call : ClientCall} {db : Database} {r : Request}
    {outcome : Except Status β × Handles FlatIndex PlacedGraph InMemoryLexicalIndex
      InMemoryPayloadStore}
    {name : String} {answer : α → ClientAnswer} (pack : α → β) (respond : β → Response)
    {f : CollectionHandle FlatIndex PlacedGraph InMemoryLexicalIndex InMemoryPayloadStore →
      Except Status α ×
        CollectionHandle FlatIndex PlacedGraph InMemoryLexicalIndex InMemoryPayloadStore}
    (hanswer : db.answer stores ops r =
      some (outcome.1.map respond, { db with handles := outcome.2 }))
    (hcall : outcome = ((Direct.onCollection name f db.handles).1.map pack,
      (Direct.onCollection name f db.handles).2))
    (hread : ∀ a, EidosClient.answer call (respond (pack a)) = some (.ok (answer a))) :
    ∃ reply, db.answer stores ops r = some (reply, (Direct.write answer name f db).2) ∧
      received call reply = some (Direct.write answer name f db).1 := by
  refine ⟨outcome.1.map respond, ?_, ?_⟩
  · rw [hanswer, hcall]
    rfl
  · rw [hcall]
    unfold Direct.write
    dsimp only
    cases (Direct.onCollection name f db.handles).1 with
    | error status => rfl
    | ok a => exact hread a

/-- A search, from what the service makes of its request. -/
theorem received_read {β : Type} {call : ClientCall} {db : Database} {r : Request}
    {outcome : Except Status β} {name : String} (pack : List SearchHit → β)
    (respond : β → Response)
    {f : CollectionHandle FlatIndex PlacedGraph InMemoryLexicalIndex InMemoryPayloadStore →
      Except Status (List SearchHit)}
    (hanswer : db.answer stores ops r = some (outcome.map respond, db))
    (hcall : outcome =
      (Direct.onCollection name (fun handle => (f handle, handle)) db.handles).1.map pack)
    (hread : ∀ hits, EidosClient.answer call (respond (pack hits)) = some (.ok (.hits hits))) :
    ∃ reply, db.answer stores ops r = some (reply, (Direct.read none name f db).2) ∧
      received call reply = some (Direct.read none name f db).1 := by
  have hsame : (Direct.read none name f db).2 = db := by
    show { db with handles := (Direct.onCollection name _ db.handles).2 } = db
    rw [Direct.onCollection_read]
  rw [hsame]
  refine ⟨outcome.map respond, hanswer, ?_⟩
  rw [hcall]
  unfold Direct.read Direct.write
  dsimp only
  cases (Direct.onCollection name (fun handle => (f handle, handle)) db.handles).1 with
  | error status => rfl
  | ok hits => exact hread hits

/-- What a client sends, and what it reads in the reply. -/
theorem request_of_ok {call : ClientCall} {r : Request} (h : request call = .ok r)
    (db : Database) :
    ∃ reply, db.answer stores ops r = some (reply, (Direct.answer stores ops db call).2) ∧
      received call reply = some (Direct.answer stores ops db call).1 := by
  cases call with
  | createCollection spec =>
    cases hfield : spec.hnsw.bind HnswConfig.tooLarge with
    | some field =>
      rw [request, createCollectionRequest_of_some hfield] at h
      cases h
    | none =>
      obtain ⟨message, hrequest, hmeta⟩ := createCollectionRequest_of_none hfield
      rw [request, hrequest] at h
      cases h
      refine ⟨((db.create spec.metadata).1.mapError serverErrorToStatus).map
        fun _ => .createCollection, ?_, ?_⟩
      · simp only [Database.answer, hmeta, Direct.answer, hfield]
      · simp only [Direct.answer, hfield]
        cases (db.create spec.metadata).1 <;> rfl
  | dropCollection name =>
    cases h
    exact ⟨_, rfl, rfl⟩
  | listCollections order =>
    cases h
    refine ⟨_, rfl, ?_⟩
    show some (Except.map ClientAnswer.listed (List.mapM collectionInfoToView _)) = _
    rw [Direct.listCollections_views]
    rfl
  | describeCollection name =>
    cases h
    have hanswer : db.answer stores ops (.describeCollection { name := name }) =
        some ((EidosDbHandler.describeCollection stores db.metas db.handles
          { name := name }).map .describeCollection, db) := rfl
    cases hget : db.metas.get name with
    | none =>
      simp only [Direct.answer, hget]
      refine ⟨_, hanswer, ?_⟩
      rw [EidosDbHandler.describeCollection, hget]
      rfl
    | some metadata =>
      simp only [Direct.answer, hget]
      refine ⟨_, hanswer, ?_⟩
      rw [EidosDbHandler.describeCollection, hget]
      show some (Except.map ClientAnswer.described (collectionInfoToView _)) = _
      rw [Direct.collectionInfoToView_info]
      rfl
  | upsert order orders collection point =>
    cases h
    refine received_write id (fun _ => .upsert) rfl ?_ fun _ => rfl
    rw [Direct.upsert_input]
    exact Prod.ext (congrFun Except.map_id _).symm rfl
  | batchUpsert order orders collection points =>
    cases h
    exact received_write _ .batchUpsert rfl
      (Direct.batchUpsert_input order orders collection points) fun _ => rfl
  | bulkUpsert order orders collection chunks =>
    cases h
    cases chunks with
    | nil => exact ⟨_, rfl, rfl⟩
    | cons chunk chunks =>
      exact received_write _ .bulkUpsert rfl
        (Direct.bulkUpsert_input order orders collection chunk chunks) fun _ => rfl
  | delete order collection id =>
    cases h
    exact received_write _ .delete rfl (Direct.delete_input order collection id) fun _ => rfl
  | deleteByFilter matching each orders collection filter =>
    cases h
    exact received_write _ .deleteByFilter rfl
      (Direct.deleteByFilter_input matching each orders collection filter) fun _ => rfl
  | compact collection =>
    cases h
    refine received_write id (fun _ => .compact) rfl ?_ fun _ => rfl
    rw [Direct.compact_input]
    exact Prod.ext (congrFun Except.map_id _).symm rfl
  | search matching fields collection query =>
    by_cases hk : u32Max < query.k
    · rw [request, Direct.searchQueryToPb_of_lt collection hk] at h
      cases h
    · obtain ⟨message, hencode⟩ := Direct.searchQueryToPb_of_le collection (Nat.not_lt.mp hk)
      rw [request, hencode] at h
      cases h
      have hfits : Direct.searchRefused query = none := if_neg hk
      simp only [Direct.answer, hfits]
      refine received_read hitsToPb .search rfl (Direct.search_input hencode matching)
        fun hits => ?_
      show some (Except.map ClientAnswer.hits ((hitsFromPb fields (hitsToPb hits)).mapError _)) = _
      rw [hitsFromPb_toPb]
      rfl
  | searchHybrid orders fields collection query =>
    obtain ⟨hlarge, hlarge', -⟩ := Direct.hybridQueryToPb_cases collection query
    by_cases hk : u32Max < query.k
    · rw [request, hlarge hk] at h
      cases h
    by_cases hfactor : u32Max < query.overfetchFactor
    · rw [request, hlarge' (Nat.not_lt.mp hk) hfactor] at h
      cases h
    cases hencode : hybridQueryToPb collection query with
    | error e =>
      rw [request, hencode] at h
      cases h
    | ok message =>
      rw [request, hencode] at h
      cases h
      have hcall := Direct.searchHybrid_input stores ops db.handles hencode orders
      have hanswer : db.answer stores ops (.searchHybrid orders message) =
          some ((EidosDbHandler.searchHybrid stores ops orders db.handles message).map
            .searchHybrid, db) := rfl
      have hrefused := Direct.hybridRefused_of_le (Nat.not_lt.mp hk) (Nat.not_lt.mp hfactor)
      unfold Direct.answer
      dsimp only
      -- the server refuses what the client could send
      cases hrrf : query.rrfK.isFinite && query.rrfK.gt .zero with
      | false =>
        rw [hrrf] at hcall hrefused
        rw [hrefused]
        refine ⟨_, hanswer, ?_⟩
        rw [hcall]
        rfl
      | true =>
        rw [hrrf, Bool.not_true, if_neg Bool.false_ne_true] at hcall hrefused
        by_cases hzero : query.overfetchFactor = 0
        · rw [if_pos hzero] at hcall hrefused
          rw [hrefused]
          refine ⟨_, hanswer, ?_⟩
          rw [hcall]
          rfl
        · rw [if_neg hzero] at hcall hrefused
          rw [hrefused]
          refine received_read hybridHitsToPb .searchHybrid hanswer hcall fun hits => ?_
          show some (Except.map ClientAnswer.hits
            ((hybridHitsFromPb fields (hybridHitsToPb hits)).mapError _)) = _
          rw [hybridHitsFromPb_toPb]
          rfl

end EidosClient

end EidosDB
