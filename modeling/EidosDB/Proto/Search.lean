import EidosDB.Proto.RoundTrip
import EidosDB.Query.Hybrid

/-! # Searches over the Wire

    The messages of a hybrid search, their encoding and decoding.  A query is
    encoded with all its parameters, and what is decoded is the query again,
    but for an empty text: that stands for no text.  So a search for the
    decoded query is the search for the query. -/

namespace EidosDB

/-! ## Messages -/

namespace Pb

inductive Metric where
  | unspecified
  | cosine
  | dotProduct
  | euclidean
  deriving DecidableEq

/-- The number of a metric on the wire. -/
def Metric.discriminant : Metric → Int32
  | .unspecified => 0
  | .cosine => 1
  | .dotProduct => 2
  | .euclidean => 3

/-- `pb::Metric::try_from` -/
def Metric.tryFrom (raw : Int32) : Option Metric :=
  if raw = 0 then some .unspecified
  else if raw = 1 then some .cosine
  else if raw = 2 then some .dotProduct
  else if raw = 3 then some .euclidean
  else none

structure SearchHybridRequest where
  collection : String
  vector : List F32
  text : Option String
  k : UInt32
  filter : Option Filter
  metric : Option Int32
  rrfK : Option F64
  overfetchFactor : Option UInt32

end Pb

/-! ## Encoding -/

/-- `metric_to_pb` -/
def metricToPb : Metric → Pb.Metric
  | .cosine => .cosine
  | .dotProduct => .dotProduct
  | .euclidean => .euclidean

/-- `u32::try_from`, with the text of its error. -/
def u32TryFrom (message : String) (n : Nat) : Except ConversionError UInt32 :=
  if n ≤ u32Max then .ok (UInt32.ofNat n) else .error (.domain message)

/-- `hybrid_query_to_pb` -/
def hybridQueryToPb (collection : String) (query : HybridQuery) :
    Except ConversionError Pb.SearchHybridRequest := do
  let k ← u32TryFrom "k out of range" query.k
  let overfetchFactor ← u32TryFrom "overfetch_factor out of range" query.overfetchFactor
  .ok {
    collection := collection
    -- `unwrap_or_default`: no vector is the empty one
    vector := (query.vector.map embeddingToPb).getD []
    text := query.text
    k := k
    filter := query.filter.map filterToPb
    metric := query.metric.map fun metric => (metricToPb metric).discriminant
    rrfK := some query.rrfK
    overfetchFactor := some overfetchFactor
  }

/-! ## Decoding -/

/-- `metric_from_pb` -/
def metricFromPb : Pb.Metric → Except ConversionError Metric
  | .cosine => .ok .cosine
  | .dotProduct => .ok .dotProduct
  | .euclidean => .ok .euclidean
  | .unspecified => .error (.missingField "metric")

/-- `optional_metric_from_pb` -/
def optionalMetricFromPb : Option Int32 → Except ConversionError (Option Metric)
  | none => .ok none
  | some raw =>
    match Pb.Metric.tryFrom raw with
    | none => .error (.domain ("unknown metric discriminant: " ++ toString raw))
    | some metric =>
      if metric = .unspecified then .ok none else (metricFromPb metric).map some

/-- `rrf_k_from_pb` -/
def rrfKFromPb : Option F64 → Except ConversionError F64
  | none => .ok defaultRrfK
  | some rrfK =>
    if rrfK.isFinite && rrfK.gt .zero then .ok rrfK
    else .error (.domain "rrf_k must be finite and strictly positive")

/-- `usize::try_from` of a `u32`, with the text of its error. -/
def usizeTryFrom (message : String) (n : UInt32) : Except ConversionError Nat :=
  if n.toNat ≤ usizeMax then .ok n.toNat else .error (.domain message)

/-- `overfetch_factor_from_pb` -/
def overfetchFactorFromPb : Option UInt32 → Except ConversionError Nat
  | none => .ok defaultOverfetchFactor
  | some raw =>
    if raw = 0 then .error (.domain "overfetch_factor must be positive when present")
    else usizeTryFrom "overfetch_factor out of range" raw

/-- The vector of a request, and none when it is empty. -/
def optionalVectorFromPb (vector : List F32) : Except ConversionError (Option Embedding) :=
  if vector.isEmpty then .ok none else (embeddingFromPb vector).map some

/-- The text of a request, and none when it is empty. -/
def optionalTextFromPb : Option String → Option String
  | some text => if text.isEmpty then none else some text
  | none => none

/-- `hybrid_query_from_pb` -/
def hybridQueryFromPb (request : Pb.SearchHybridRequest) :
    Except ConversionError (String × HybridQuery) := do
  let vector ← optionalVectorFromPb request.vector
  let text := optionalTextFromPb request.text
  let k ← usizeTryFrom "k out of range" request.k
  let filter ← transpose filterFromPb request.filter
  let metric ← optionalMetricFromPb request.metric
  let rrfK ← rrfKFromPb request.rrfK
  let overfetchFactor ← overfetchFactorFromPb request.overfetchFactor
  .ok (request.collection, {
    vector := vector
    text := text
    k := k
    filter := filter
    metric := metric
    rrfK := rrfK
    overfetchFactor := overfetchFactor
  })

/-! ## Round trips of the parts -/

/-- An embedding is not empty, so that no vector is read for one. -/
theorem optionalVectorFromPb_toPb (vector : Option Embedding) :
    optionalVectorFromPb ((vector.map embeddingToPb).getD []) = .ok vector := by
  unfold optionalVectorFromPb
  cases vector with
  | none => rfl
  | some embedding =>
    show (if embedding.values.isEmpty then _ else _) = _
    rw [if_neg (by simpa using embedding.nonempty)]
    exact inverse_embedding.decode_map some embedding

theorem optionalMetricFromPb_toPb (metric : Option Metric) :
    optionalMetricFromPb (metric.map fun metric => (metricToPb metric).discriminant) =
      .ok metric := by
  cases metric with
  | none => rfl
  | some metric => cases metric <;> rfl

/-- A `u32` is a `usize`. -/
theorem usizeTryFrom_eq (message : String) (n : UInt32) :
    usizeTryFrom message n = .ok n.toNat := by
  have hlt := n.toNat_lt
  unfold usizeTryFrom usizeMax
  rw [if_pos (by omega)]

theorem toNat_of_u32TryFrom {message : String} {n : Nat} {m : UInt32}
    (hok : u32TryFrom message n = .ok m) : m.toNat = n := by
  unfold u32TryFrom u32Max at hok
  split_ifs at hok with hn
  cases hok
  rw [UInt32.toNat_ofNat']
  omega

theorem rrfK_of_ok {rrfK decoded : F64} (hok : rrfKFromPb (some rrfK) = .ok decoded) :
    decoded = rrfK := by
  unfold rrfKFromPb at hok
  dsimp only at hok
  split_ifs at hok
  exact (Except.ok.inj hok).symm

theorem overfetchFactor_of_ok {raw : UInt32} {decoded : Nat}
    (hok : overfetchFactorFromPb (some raw) = .ok decoded) : decoded = raw.toNat := by
  unfold overfetchFactorFromPb at hok
  dsimp only at hok
  split_ifs at hok
  rw [usizeTryFrom_eq] at hok
  exact (Except.ok.inj hok).symm

theorem optionalTextFromPb_of_ne {text : Option String} (h : text ≠ some "") :
    optionalTextFromPb text = text := by
  cases text with
  | none => rfl
  | some text =>
    have hne : text.isEmpty ≠ true := by
      intro hempty
      exact h (congrArg some (String.isEmpty_iff.mp hempty))
    exact if_neg hne

/-! ## The round trip of a query -/

/-- What is decoded of an encoded query. -/
theorem hybridQueryFromPb_of_toPb {collection name : String} {query decoded : HybridQuery}
    {request : Pb.SearchHybridRequest} (hencode : hybridQueryToPb collection query = .ok request)
    (hdecode : hybridQueryFromPb request = .ok (name, decoded)) :
    name = collection ∧ decoded = { query with text := optionalTextFromPb query.text } := by
  unfold hybridQueryToPb at hencode
  cases hk : u32TryFrom "k out of range" query.k with
  | error e =>
    rw [hk] at hencode
    cases hencode
  | ok k =>
    cases hfactor : u32TryFrom "overfetch_factor out of range" query.overfetchFactor with
    | error e =>
      rw [hk, hfactor] at hencode
      cases hencode
    | ok factor =>
      rw [hk, hfactor] at hencode
      cases hencode
      unfold hybridQueryFromPb at hdecode
      dsimp only at hdecode
      rw [optionalVectorFromPb_toPb, usizeTryFrom_eq, optionalMetricFromPb_toPb,
        (Inverse.transpose inverse_filter).decode_encode] at hdecode
      -- only the two parameters can still be rejected
      cases hrrf : rrfKFromPb (some query.rrfK) with
      | error e =>
        rw [hrrf] at hdecode
        cases hdecode
      | ok rrfK =>
        cases hdecoded : overfetchFactorFromPb (some factor) with
        | error e =>
          rw [hrrf, hdecoded] at hdecode
          cases hdecode
        | ok overfetchFactor =>
          rw [hrrf, hdecoded] at hdecode
          cases hdecode
          rw [rrfK_of_ok hrrf, overfetchFactor_of_ok hdecoded, toNat_of_u32TryFrom hk,
            toNat_of_u32TryFrom hfactor]
          exact ⟨rfl, rfl⟩

/-! ## Searches -/

/-- The order of the iteration over the fused scores does not show. -/
theorem fuseRrf_order (ops : F64Ops) (order order' : HashOrder) (rankings : List (List VectorId))
    (k : F64) : fuseRrf ops order rankings k = fuseRrf ops order' rankings k := by
  unfold fuseRrf
  exact sortBy_eq_of_key Scored.rank Scored.rank_injective (fun _ _ => Scored.before_iff)
    ((order.perm _).trans (order'.perm _).symm)

namespace Collection

variable {I L P : Type}

/-- Nor does it show in a search. -/
theorem searchHybrid_fusion (ports : Ports I L P) (ops : F64Ops) (orders : SearchOrders)
    (fusion : HashOrder) (c : Collection I L P) (query : HybridQuery) :
    searchHybrid ports ops { orders with fusion := fusion } c query =
      searchHybrid ports ops orders c query := by
  have hfuse : fuseChannels ops fusion query.rrfK = fuseChannels ops orders.fusion query.rrfK := by
    funext dense lexical
    cases dense with
    | none => cases lexical <;> rfl
    | some dense =>
      cases lexical with
      | none => rfl
      | some lexical => exact congrArg pure (fuseRrf_order ops fusion orders.fusion _ _)
  unfold searchHybrid
  dsimp only
  rw [hfuse]

/-- **Searching through the wire.**  For every collection and every query
    that is encoded and whose encoding is accepted, the search for the decoded
    query answers as the search for the query does, unless the text of the
    query is empty: an empty text is decoded as none, and the answer is that
    to the query without it.  The collection's own hash maps are read alike in
    both searches; the map of the fused scores is made anew for each. -/
theorem searchHybrid_decoded (ports : Ports I L P) (ops : F64Ops) (orders : SearchOrders)
    (fusion : HashOrder) (c : Collection I L P) {collection name : String}
    {query decoded : HybridQuery} {request : Pb.SearchHybridRequest}
    (hencode : hybridQueryToPb collection query = .ok request)
    (hdecode : hybridQueryFromPb request = .ok (name, decoded)) :
    name = collection ∧
    (query.text ≠ some "" → searchHybrid ports ops { orders with fusion := fusion } c decoded =
      searchHybrid ports ops orders c query) ∧
    (query.text = some "" → searchHybrid ports ops { orders with fusion := fusion } c decoded =
      searchHybrid ports ops orders c { query with text := none }) := by
  obtain ⟨rfl, rfl⟩ := hybridQueryFromPb_of_toPb hencode hdecode
  rw [searchHybrid_fusion]
  refine ⟨rfl, ?_, ?_⟩
  · intro htext
    rw [optionalTextFromPb_of_ne htext]
  · intro htext
    rw [htext]
    rfl

/-- The message of the query for the vector. -/
def zeroRequest : Pb.SearchHybridRequest where
  collection := "notes"
  vector := [.zero]
  text := none
  k := 3
  filter := some (.mk (some (.allOf [])))
  metric := none
  rrfK := some defaultRrfK
  overfetchFactor := some 4

theorem searchHybrid_decoded_zeroQuery :
    searchHybrid ⟨FlatIndex.port .small, InMemoryLexicalIndex.port .ascii castOps,
        InMemoryPayloadStore.port castOps⟩ castOps ⟨.ascending, .ascending, .descending⟩ oneVector
        zeroQuery =
      searchHybrid ⟨FlatIndex.port .small, InMemoryLexicalIndex.port .ascii castOps,
        InMemoryPayloadStore.port castOps⟩ castOps ⟨.ascending, .ascending, .ascending⟩ oneVector
        zeroQuery := by
  have hencode : hybridQueryToPb "notes" zeroQuery = .ok zeroRequest := rfl
  have hdecode : hybridQueryFromPb zeroRequest = .ok ("notes", zeroQuery) := rfl
  have htext : zeroQuery.text ≠ some "" := Option.some_ne_none "" ∘ Eq.symm
  exact (searchHybrid_decoded _ castOps ⟨.ascending, .ascending, .ascending⟩ .descending oneVector
    hencode hdecode).2.1 htext

/-- A query for the empty text. -/
def emptyTextQuery : HybridQuery := { zeroQuery with vector := none, text := some "" }

/-- Its message. -/
def emptyTextRequest : Pb.SearchHybridRequest := { zeroRequest with vector := [], text := some "" }

/-- The empty text has no hits, and what is decoded of it is no query. -/
theorem searchHybrid_emptyText : ∃ decoded,
    hybridQueryToPb "notes" emptyTextQuery = .ok emptyTextRequest ∧
    hybridQueryFromPb emptyTextRequest = .ok ("notes", decoded) ∧
    searchHybrid ⟨FlatIndex.port .small, InMemoryLexicalIndex.port .ascii castOps,
        InMemoryPayloadStore.port castOps⟩ castOps ⟨.ascending, .ascending, .ascending⟩ oneVector
        decoded ≠
      searchHybrid ⟨FlatIndex.port .small, InMemoryLexicalIndex.port .ascii castOps,
        InMemoryPayloadStore.port castOps⟩ castOps ⟨.ascending, .ascending, .ascending⟩ oneVector
        emptyTextQuery := by
  refine ⟨{ emptyTextQuery with text := none }, rfl, rfl, ?_⟩
  intro heq
  have hdirect : searchHybrid ⟨FlatIndex.port .small, InMemoryLexicalIndex.port .ascii castOps,
      InMemoryPayloadStore.port castOps⟩ castOps ⟨.ascending, .ascending, .ascending⟩ oneVector
      emptyTextQuery = some (.ok []) := rfl
  rw [hdirect] at heq
  cases heq

end Collection

end EidosDB
