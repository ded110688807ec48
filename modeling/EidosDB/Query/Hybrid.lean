import EidosDB.Query.Refinement

/-! # Queries with One Channel

    A hybrid query with one channel searches deeper than it answers and then
    cuts the ranking back.  The first `k` of a longer answer are the answer to
    `k`: so the cut gives what the channel's own search gives, and the detour
    of the scores through doubles does not show. -/

namespace EidosDB

/-! ## Longer answers -/

/-- The answer to `k` is the start of every longer one. -/
def VectorIndex.Prefixes {I : Type} (V : VectorIndex I) (index : I) : Prop :=
  ∀ query metric isAdmissible k depth, k ≤ depth →
    V.searchFiltered index query k metric isAdmissible =
      (V.searchFiltered index query depth metric isAdmissible).map (Except.map (List.take k))

/-- The answer to `k` is the start of every longer one. -/
def LexicalIndex.Prefixes {L : Type} (T : LexicalIndex L) (lexical : L) : Prop :=
  ∀ order text isAdmissible k depth, k ≤ depth →
    T.searchTextFiltered order lexical text k isAdmissible =
      (T.searchTextFiltered order lexical text depth isAdmissible).take k

theorem FlatIndex.prefixes_port (ops : F32Ops) (index : FlatIndex) :
    (FlatIndex.port ops).Prefixes index := by
  intro query metric isAdmissible k depth hk
  show some (index.searchFiltered ops query k metric isAdmissible) =
    (some (index.searchFiltered ops query depth metric isAdmissible)).map _
  unfold searchFiltered hits
  split
  · rfl
  · rw [Option.map_some, Except.map, List.take_take, min_eq_left hk]

theorem InMemoryLexicalIndex.prefixes_port (U : Unicode) (ops : F64Ops)
    (lexical : InMemoryLexicalIndex) :
    (InMemoryLexicalIndex.port U ops).Prefixes lexical := by
  intro order text isAdmissible k depth hk
  show lexical.searchTextFiltered U ops order text k isAdmissible =
    (lexical.searchTextFiltered U ops order text depth isAdmissible).take k
  unfold searchTextFiltered ranked
  split
  · exact List.take_nil.symm
  · rw [List.take_take, min_eq_left hk]

/-- The ids a store in memory finds do not depend on the order of the scan. -/
theorem InMemoryPayloadStore.matchingIds_order (ops : F64Ops) (s : InMemoryPayloadStore)
    (order order' : HashOrder) (filter : CompiledFilter) :
    s.matchingIds ops order filter = s.matchingIds ops order' filter := by
  apply OrderedTable.ext_get
  intro id
  apply Option.ext
  intro u
  unfold matchingIds
  rw [OrderedTable.get_ofList_iff (nodup_matching ops s order filter),
    OrderedTable.get_ofList_iff (nodup_matching ops s order' filter)]
  simp only [List.mem_map, List.mem_filter, Prod.exists, order.mem_entries_iff,
    order'.mem_entries_iff]

namespace Collection

variable {I L P : Type} {ports : Ports I L P} {ops : F64Ops} {orders : SearchOrders}
  {c : Collection I L P} {query : HybridQuery}

/-- With a factor of at least one the search is as deep as the answer. -/
theorem le_depth (hk : query.k ≤ usizeMax) (hfactor : 1 ≤ query.overfetchFactor) :
    query.k ≤ min (query.k * query.overfetchFactor) usizeMax :=
  le_min (Nat.le_mul_of_pos_right query.k hfactor) hk

/-! ## Vector and no text -/

/-- A vector query is the collection's own search, on an index that supports
    the metric: the filter is evaluated before the metric is checked. -/
theorem searchHybrid_dense (hcast : ∀ x, ops.toF32 (ops.ofF32 x) = x)
    (hfirst : ports.index.Prefixes c.index) (hk : query.k ≤ usizeMax)
    (hfactor : 1 ≤ query.overfetchFactor)
    (hmetric : query.metric.getD (ports.index.metric c.index) ∈
      ports.index.supportedMetrics c.index)
    {matching : HashOrder} (hscan : ports.payloads.matchingIds matching c.payloads =
      ports.payloads.matchingIds orders.matching c.payloads)
    {embedding : Embedding} (hvector : query.vector = some embedding) (htext : query.text = none) :
    searchHybrid ports ops orders c query =
      search ports matching c ⟨embedding, query.k, query.metric, query.filter⟩ := by
  have hallowed : allowedIds ports matching c query.filter =
      allowedIds ports orders.matching c query.filter := by
    unfold allowedIds
    rw [hscan]
  have hresolve : resolveMetric ports c query.metric =
      pure (query.metric.getD (ports.index.metric c.index)) := if_pos hmetric
  unfold searchHybrid search denseChannel
  rw [hvector, htext]
  simp only [Option.isNone_some, Bool.false_and, Bool.false_eq_true, if_false, hresolve, pure_bind,
    Option.map_none, hallowed]
  congr 1
  funext allowed
  rw [hfirst embedding _ (admissible allowed) _ _ (le_depth hk hfactor)]
  cases hfound : ports.index.searchFiltered c.index embedding
      (min (query.k * query.overfetchFactor) usizeMax)
      (query.metric.getD (ports.index.metric c.index)) (admissible allowed) with
  | none => rfl
  | some result =>
    cases result with
    | error e => rfl
    | ok neighbors =>
      show (((neighbors.map fun n => (n.id, ops.ofF32 n.score)).take query.k).mapM fun p =>
        hydrate ports c { id := p.1, score := ops.toF32 p.2 }) =
          (neighbors.take query.k).mapM (hydrate ports c)
      rw [← List.map_take, List.mapM_map]
      congr 1
      funext n
      show hydrate ports c { id := n.id, score := ops.toF32 (ops.ofF32 n.score) } = _
      rw [hcast]

/-! ## Text and no vector -/

variable (ports ops orders) in
/-- A text query puts the payloads to the hits of the lexical index. -/
theorem searchHybrid_lexical (hfirst : ports.lexical.Prefixes c.lexical)
    (hk : query.k ≤ usizeMax) (hfactor : 1 ≤ query.overfetchFactor)
    {text : String} (hvector : query.vector = none) (htext : query.text = some text) :
    searchHybrid ports ops orders c query =
      (allowedIds ports orders.matching c query.filter >>= fun allowed =>
        (ports.lexical.searchTextFiltered orders.lexical c.lexical text query.k
          (admissible allowed)).mapM fun p =>
            hydrate ports c { id := p.1, score := ops.toF32 p.2 }) := by
  unfold searchHybrid denseChannel
  rw [hvector, htext]
  simp only [Option.isNone_some, Bool.and_false, Bool.false_eq_true, if_false, pure_bind,
    Option.map_some]
  congr 1
  funext allowed
  rw [hfirst orders.lexical text (admissible allowed) _ _ (le_depth hk hfactor)]
  rfl

theorem hydrate_run (n : Neighbor) : (hydrate ports c n).run =
    some (((ports.payloads.get c.payloads n.id).mapError .payload).map fun payload =>
      { id := n.id, score := n.score, payload := payload }) := by
  unfold hydrate liftPayload
  cases ports.payloads.get c.payloads n.id <;> rfl

/-- One step of a loop that may fail. -/
theorem mapM_cons_run {α β : Type} (f : α → ExceptT QueryError Option β) (a : α) (l : List α) :
    ((a :: l).mapM f).run = (f a).run.bind fun result =>
      match result with
      | .error e => some (.error e)
      | .ok b => (l.mapM f).run.map (Except.map (b :: ·)) := by
  rw [List.mapM_cons]
  generalize f a = first
  generalize l.mapM f = rest
  match first, rest with
  | none, _ => rfl
  | some (.error e), _ => rfl
  | some (.ok b), none => rfl
  | some (.ok b), some (.error e) => rfl
  | some (.ok b), some (.ok hits) => rfl

/-- The hits have the ids they are made of. -/
theorem ids_mapM_hydrate {scored : List Scored} {hits : List SearchHit}
    (h : (scored.mapM fun p => hydrate ports c { id := p.1, score := ops.toF32 p.2 }).run =
      some (.ok hits)) : hits.map SearchHit.id = scored.map Prod.fst := by
  induction scored generalizing hits with
  | nil =>
    cases h
    rfl
  | cons p scored ih =>
    rw [mapM_cons_run, hydrate_run, Option.bind_some] at h
    cases hget : ports.payloads.get c.payloads p.1 with
    | error e =>
      rw [hget] at h
      cases h
    | ok payload =>
      rw [hget] at h
      obtain ⟨result, hrest, hresult⟩ := Option.map_eq_some_iff.mp h
      cases result with
      | error e => cases hresult
      | ok rest =>
        cases hresult
        rw [List.map_cons, List.map_cons, ih hrest]

/-- A payload store that answers fails no search. -/
theorem mapM_hydrate_isOk
    (hget : ∀ id, ∃ payload, ports.payloads.get c.payloads id = .ok payload)
    (scored : List Scored) : ∃ hits,
      (scored.mapM fun p => hydrate ports c { id := p.1, score := ops.toF32 p.2 }).run =
        some (.ok hits) := by
  induction scored with
  | nil => exact ⟨[], rfl⟩
  | cons p scored ih =>
    obtain ⟨hits, hhits⟩ := ih
    obtain ⟨payload, hpayload⟩ := hget p.1
    rw [mapM_cons_run, hydrate_run, hpayload, hhits]
    exact ⟨_, rfl⟩
/-- **One channel is the native search.**  Over a flat index and a lexical
    index in memory, whatever the payload store, a hybrid query with a vector
    and no text is the collection's search for that vector, answers, order
    and errors alike, if the store finds the same ids for both.  With a text and no vector it puts the payloads to the
    hits of the text search for `k` among the admissible ids, and keeps their
    order; it answers when the payload store does. -/
theorem searchHybrid_degenerates (U : Unicode) (arith : F32Ops) (payloads : PayloadStore P)
    (c : Collection FlatIndex InMemoryLexicalIndex P) (orders : SearchOrders) (query : HybridQuery)
    (hk : query.k ≤ usizeMax) (hfactor : 1 ≤ query.overfetchFactor)
    (hcast : ∀ x, ops.toF32 (ops.ofF32 x) = x) :
    (∀ embedding, query.vector = some embedding → query.text = none →
      ∀ matching, payloads.matchingIds matching c.payloads =
          payloads.matchingIds orders.matching c.payloads →
        searchHybrid ⟨FlatIndex.port arith, InMemoryLexicalIndex.port U ops, payloads⟩ ops orders c
            query =
          search ⟨FlatIndex.port arith, InMemoryLexicalIndex.port U ops, payloads⟩ matching c
            ⟨embedding, query.k, query.metric, query.filter⟩) ∧
    ∀ text, query.vector = none → query.text = some text →
      (∀ error, (allowedIds ⟨FlatIndex.port arith, InMemoryLexicalIndex.port U ops, payloads⟩
          orders.matching c query.filter).run = some (.error error) →
        (searchHybrid ⟨FlatIndex.port arith, InMemoryLexicalIndex.port U ops, payloads⟩ ops orders
          c query).run = some (.error error)) ∧
      ∀ allowed, (allowedIds ⟨FlatIndex.port arith, InMemoryLexicalIndex.port U ops, payloads⟩
          orders.matching c query.filter).run = some (.ok allowed) →
        (∀ hits, (searchHybrid ⟨FlatIndex.port arith, InMemoryLexicalIndex.port U ops, payloads⟩
            ops orders c query).run = some (.ok hits) →
          hits.map SearchHit.id = (c.lexical.searchTextFiltered U ops orders.lexical text query.k
            (admissible allowed)).map Prod.fst) ∧
        ((∀ id, ∃ payload, payloads.get c.payloads id = .ok payload) →
          ∃ hits, (searchHybrid ⟨FlatIndex.port arith, InMemoryLexicalIndex.port U ops, payloads⟩
            ops orders c query).run = some (.ok hits)) := by
  constructor
  · intro embedding hvector htext matching hscan
    apply searchHybrid_dense hcast (FlatIndex.prefixes_port arith c.index) hk hfactor _ hscan
      hvector htext
    -- a flat index supports every metric
    show query.metric.getD c.index.metric ∈ [Metric.cosine, .dotProduct, .euclidean]
    cases query.metric.getD c.index.metric <;> simp
  · intro text hvector htext
    have heq := searchHybrid_lexical
      ⟨FlatIndex.port arith, InMemoryLexicalIndex.port U ops, payloads⟩ ops orders
      (InMemoryLexicalIndex.prefixes_port U ops c.lexical) hk hfactor hvector htext
    constructor
    · intro error herror
      rw [heq]
      show (allowedIds _ orders.matching c query.filter >>= _).run = _
      rw [ExceptT.run_bind, herror]
      rfl
    · intro allowed hallowed
      rw [heq, ExceptT.run_bind, hallowed]
      exact ⟨fun hits => ids_mapM_hydrate, fun hget => mapM_hydrate_isOk hget _⟩

/-- Small arithmetic with the conversions between floats and doubles. -/
def castOps : F64Ops := { F64Ops.small with ofF32 := F32.widen, toF32 := F64.narrow }

/-- The vector 0. -/
def zeroVector : Embedding := ⟨[.zero], by decide, by decide⟩

/-- A vector with a document. -/
def oneVector : Collection FlatIndex InMemoryLexicalIndex InMemoryPayloadStore where
  index := { metric := .dotProduct, dimension := .one,
             points := [(⟨1⟩, zeroVector)] }
  lexical := InMemoryLexicalIndex.replacingRunEnd
  payloads := .new

/-- A query for the vector. -/
def zeroQuery : HybridQuery where
  vector := some zeroVector
  text := none
  k := 3
  filter := some (.and [])
  metric := none
  rrfK := defaultRrfK
  overfetchFactor := defaultOverfetchFactor

theorem searchHybrid_degenerates_oneVector :
    searchHybrid ⟨FlatIndex.port .small, InMemoryLexicalIndex.port .ascii castOps,
        InMemoryPayloadStore.port castOps⟩ castOps ⟨.ascending, .ascending, .ascending⟩ oneVector
        zeroQuery =
      search ⟨FlatIndex.port .small, InMemoryLexicalIndex.port .ascii castOps,
        InMemoryPayloadStore.port castOps⟩ .descending oneVector
        ⟨zeroVector, 3, none, some (.and [])⟩ :=
  (searchHybrid_degenerates .ascii .small (InMemoryPayloadStore.port castOps) oneVector
    ⟨.ascending, .ascending, .ascending⟩ zeroQuery (by decide) (by decide) narrow_widen).1
    zeroVector rfl rfl .descending (funext fun filter => congrArg Except.ok
      (InMemoryPayloadStore.matchingIds_order castOps .new .descending .ascending filter))

end Collection

end EidosDB
