import EidosDB.Query.Refinement

/-! # Filtered Search

    A filter is evaluated against the payloads, and the index is searched for
    the ids of those that match.  So a vector without a payload matches no
    filter, a negation as little as what it negates: over an exact index a
    filter and its negation share out the vectors that have a payload, and
    the empty conjunction finds these. -/

namespace EidosDB

/-! ## What the parts answer -/

/-- An exact index: a search with room for all its vectors finds the admissible
    ones among them, in one order. -/
structure VectorIndex.Exact {I : Type} (V : VectorIndex I) (index : I)
    (stored : VectorId → Prop) : Prop where
  search : ∀ query metric, ∃ result : Except IndexError (List Neighbor),
    (∀ k isAdmissible, V.len index ≤ k → V.searchFiltered index query k metric isAdmissible =
      some (result.map (List.filter fun n => isAdmissible n.id))) ∧
    ∀ all, result = .ok all → ∀ id, id ∈ all.map Neighbor.id ↔ stored id

/-- A payload store that holds these payloads: it reads them and scans them. -/
structure PayloadStore.Scans {P : Type} (S : PayloadStore P) (ops : F64Ops) (payloads : P)
    (payloadOf : VectorId → Option Payload) : Prop where
  get : ∀ id, S.get payloads id = .ok (payloadOf id)
  matching : ∀ order filter, ∃ ids, S.matchingIds order payloads filter = .ok ids ∧
    ∀ id, (ids.get id).isSome = (payloadOf id).any fun payload => filter.matches ops payload

/-- The flat index is exact, in every state. -/
theorem FlatIndex.exact_port (ops : F32Ops) (index : FlatIndex) :
    (FlatIndex.port ops).Exact index fun id => ∃ e, (id, e) ∈ index.points where
  search := by
    intro query metric
    by_cases hdim : query.dimension = index.dimension.get
    · refine ⟨.ok (sortBy Neighbor.cmp (index.points.map (neighborOf ops metric query.values))),
        ?_, ?_⟩
      · intro k isAdmissible hk
        show some (index.searchFiltered ops query k metric isAdmissible) = _
        rw [searchFiltered, if_neg (not_not.mpr hdim), hits_filter ops metric query.values _ hk]
        rfl
      · intro all hall id
        obtain rfl := Except.ok.inj hall
        simp [neighborOf]
    · refine ⟨.error (.dimensionMismatch index.dimension.get query.dimension), ?_, by simp⟩
      intro k isAdmissible hk
      show some (index.searchFiltered ops query k metric isAdmissible) = _
      rw [searchFiltered, if_pos hdim]
      rfl

/-- So is the payload store in memory a store of what it holds. -/
theorem InMemoryPayloadStore.scans_port (ops : F64Ops) (payloads : InMemoryPayloadStore) :
    (port ops).Scans ops payloads payloads.get where
  get _ := rfl
  matching := by
    intro order filter
    refine ⟨_, rfl, ?_⟩
    intro id
    have hnodup := nodup_matching ops payloads order filter
    rw [Bool.eq_iff_iff, Option.isSome_iff_exists]
    simp only [matchingIds, OrderedTable.get_ofList_iff hnodup, List.mem_map, List.mem_filter,
      Prod.exists, Prod.mk.injEq, order.mem_entries_iff, Option.any_eq_true]
    constructor
    · rintro ⟨u, id', payload, ⟨hget, hmatch⟩, rfl, -⟩
      exact ⟨payload, hget, hmatch⟩
    · rintro ⟨payload, hget, hmatch⟩
      exact ⟨(), id, payload, ⟨hget, hmatch⟩, rfl, trivial⟩

/-! ## Searches with room for all -/

namespace Collection

variable {I L P : Type} {ports : Ports I L P} {ops : F64Ops} {c : Collection I L P}
  {stored : VectorId → Prop} {payloadOf : VectorId → Option Payload} {embedding : Embedding}
  {k : Nat} {metric : Option Metric} {all : List SearchHit}

/-- The hits that a filter leaves: those whose payload matches. -/
def matchingHits (ops : F64Ops) (filter : Filter) (hits : List SearchHit) : List SearchHit :=
  hits.filter fun hit => hit.payload.any fun payload => filter.evaluate ops payload

/-- The hits of a query without a filter, and the part of them that a filter
    leaves. -/
structure FiltersAll (ports : Ports I L P) (ops : F64Ops) (c : Collection I L P)
    (stored : VectorId → Prop) (payloadOf : VectorId → Option Payload) (embedding : Embedding)
    (k : Nat) (metric : Option Metric) (all : List SearchHit) : Prop where
  unfiltered : ∀ matching, (search ports matching c ⟨embedding, k, metric, none⟩).run =
    some (.ok all)
  filtered : ∀ matching filter,
    (search ports matching c ⟨embedding, k, metric, some filter⟩).run =
      some (.ok (matchingHits ops filter all))
  mem : ∀ id, id ∈ all.map SearchHit.id ↔ stored id
  payload : ∀ hit ∈ all, hit.payload = payloadOf hit.id

/-- The hit of a neighbour over known payloads. -/
def hitOf (payloadOf : VectorId → Option Payload) (n : Neighbor) : SearchHit :=
  { id := n.id, score := n.score, payload := payloadOf n.id }

theorem hydrate_scans (hscan : ports.payloads.Scans ops c.payloads payloadOf) :
    hydrate ports c = fun n => pure (hitOf payloadOf n) := by
  funext n
  unfold hydrate
  rw [hscan.get]
  rfl

/-- The ids of a filter, or of no filter. -/
theorem allowedIds_scans (hscan : ports.payloads.Scans ops c.payloads payloadOf)
    (matching : HashOrder) (filter : Option Filter) :
    ∃ allowed, allowedIds ports matching c filter = pure allowed ∧ ∀ id, admissible allowed id =
      filter.all fun filter => (payloadOf id).any fun payload => filter.evaluate ops payload := by
  cases filter with
  | none => exact ⟨none, rfl, fun _ => rfl⟩
  | some filter =>
    obtain ⟨ids, hids, hmem⟩ := hscan.matching matching filter.compile
    refine ⟨some ids, ?_, hmem⟩
    unfold allowedIds
    dsimp only
    rw [hids]
    rfl

/-- A query whose metric the index supports is answered by the index. -/
theorem search_supported (hscan : ports.payloads.Scans ops c.payloads payloadOf)
    {embedding : Embedding} {k : Nat} {metric : Option Metric}
    (hmetric : metric.getD (ports.index.metric c.index) ∈ ports.index.supportedMetrics c.index)
    (hk : ports.index.len c.index ≤ k) {result : Except IndexError (List Neighbor)}
    (hresult : ∀ k isAdmissible, ports.index.len c.index ≤ k →
      ports.index.searchFiltered c.index embedding k (metric.getD (ports.index.metric c.index))
        isAdmissible = some (result.map (List.filter fun n => isAdmissible n.id)))
    (matching : HashOrder) (filter : Option Filter) :
    (search ports matching c ⟨embedding, k, metric, filter⟩).run =
      some ((result.mapError .index).map fun all =>
        (all.map (hitOf payloadOf)).filter fun hit => filter.all fun filter =>
          hit.payload.any fun payload => filter.evaluate ops payload) := by
  obtain ⟨allowed, hallowed, hadmissible⟩ := allowedIds_scans hscan matching filter
  have hresolve : resolveMetric ports c metric =
      pure (metric.getD (ports.index.metric c.index)) := if_pos hmetric
  unfold search
  rw [hresolve, pure_bind, hallowed, pure_bind, hresult k _ hk, hydrate_scans hscan]
  cases result with
  | error e => rfl
  | ok all =>
    simp only [List.mapM_pure]
    show some (Except.ok (List.map (hitOf payloadOf) _)) = some (Except.ok _)
    dsimp only
    rw [List.filter_map]
    simp only [hadmissible]
    rfl

/-- Over an exact index a search with room for all fails alike for every
    filter, or there are hits for it to share out. -/
theorem search_all (hexact : ports.index.Exact c.index stored)
    (hscan : ports.payloads.Scans ops c.payloads payloadOf) (embedding : Embedding) {k : Nat}
    (metric : Option Metric) (hk : ports.index.len c.index ≤ k) :
    (∃ e, ∀ matching filter,
      (search ports matching c ⟨embedding, k, metric, filter⟩).run = some (.error e)) ∨
    ∃ all, FiltersAll ports ops c stored payloadOf embedding k metric all := by
  by_cases hmetric :
      metric.getD (ports.index.metric c.index) ∈ ports.index.supportedMetrics c.index
  · obtain ⟨result, hresult, hstored⟩ :=
      hexact.search embedding (metric.getD (ports.index.metric c.index))
    have hsearch := search_supported hscan hmetric hk hresult
    cases result with
    | error e => exact Or.inl ⟨_, hsearch⟩
    | ok all =>
      refine Or.inr ⟨all.map (hitOf payloadOf), ?_, fun matching filter => hsearch _ _, ?_, ?_⟩
      · intro matching
        rw [hsearch]
        simp [Except.mapError, Except.map]
      · intro id
        rw [← hstored all rfl id, List.map_map]
        rfl
      · intro hit hhit
        obtain ⟨n, -, rfl⟩ := List.mem_map.mp hhit
        rfl
  · refine Or.inl ⟨.unsupportedMetric (metric.getD (ports.index.metric c.index)), ?_⟩
    intro matching filter
    have hresolve : resolveMetric ports c metric =
      throw (QueryError.unsupportedMetric (metric.getD (ports.index.metric c.index))) := if_neg hmetric
    unfold search
    rw [hresolve]
    rfl

theorem mem_matchingHits (h : FiltersAll ports ops c stored payloadOf embedding k metric all)
    (filter : Filter) (id : VectorId) :
    id ∈ (matchingHits ops filter all).map SearchHit.id ↔
      stored id ∧ ∃ payload, payloadOf id = some payload ∧ filter.evaluate ops payload = true := by
  rw [← h.mem]
  simp only [matchingHits, List.mem_map, List.mem_filter, Option.any_eq_true]
  constructor
  · rintro ⟨hit, ⟨hhit, payload, hpayload, hmatch⟩, rfl⟩
    exact ⟨⟨hit, hhit, rfl⟩, payload, (h.payload hit hhit).symm.trans hpayload, hmatch⟩
  · rintro ⟨⟨hit, hhit, rfl⟩, payload, hpayload, hmatch⟩
    exact ⟨hit, ⟨hhit, payload, (h.payload hit hhit).trans hpayload, hmatch⟩, rfl⟩

/-- What a filter and its negation find of all hits. -/
structure SharedOut (ports : Ports I L P) (c : Collection I L P) (stored : VectorId → Prop)
    (payloadOf : VectorId → Option Payload) (embedding : Embedding) (k : Nat)
    (metric : Option Metric) (filter : Filter) (all yes no : List SearchHit) : Prop where
  unfiltered : ∀ matching, (search ports matching c ⟨embedding, k, metric, none⟩).run =
    some (.ok all)
  filtered : ∀ matching, (search ports matching c ⟨embedding, k, metric, some filter⟩).run =
    some (.ok yes)
  negated : ∀ matching, (search ports matching c ⟨embedding, k, metric, some (.not filter)⟩).run =
    some (.ok no)
  mem : ∀ id, id ∈ all.map SearchHit.id ↔ stored id
  /-- A vector with a payload is found by exactly one of the two. -/
  withPayload : ∀ id, stored id → (payloadOf id).isSome →
    (id ∈ yes.map SearchHit.id ↔ id ∉ no.map SearchHit.id)
  /-- A vector without one is found by neither. -/
  withoutPayload : ∀ id, payloadOf id = none →
    id ∉ yes.map SearchHit.id ∧ id ∉ no.map SearchHit.id
  /-- The empty conjunction finds the hits with a payload. -/
  vacuous : ∀ matching, (search ports matching c ⟨embedding, k, metric, some (.and [])⟩).run =
    some (.ok (all.filter fun hit => hit.payload.isSome))

/-- **A filter and its negation.**  Over an exact index and with room for every
    vector, a search fails alike for every filter and for none, or the filter
    and its negation share out the vectors that have a payload: each is found
    by exactly one of the two, and a vector without a payload by neither.  The
    empty conjunction finds the vectors that have a payload, and hence, if all
    have one, what a search without a filter finds. -/
theorem search_complement (ports : Ports I L P) (ops : F64Ops) (c : Collection I L P)
    (stored : VectorId → Prop) (payloadOf : VectorId → Option Payload) (embedding : Embedding)
    (k : Nat) (metric : Option Metric) (filter : Filter)
    (hexact : ports.index.Exact c.index stored)
    (hscan : ports.payloads.Scans ops c.payloads payloadOf)
    (hk : ports.index.len c.index ≤ k) :
    (∃ e, ∀ matching filter,
      (search ports matching c ⟨embedding, k, metric, filter⟩).run = some (.error e)) ∨
    ∃ all yes no, SharedOut ports c stored payloadOf embedding k metric filter all yes no ∧
      ((∀ id, stored id → (payloadOf id).isSome) → ∀ matching,
        search ports matching c ⟨embedding, k, metric, some (.and [])⟩ =
          search ports matching c ⟨embedding, k, metric, none⟩) := by
  rcases search_all hexact hscan embedding metric hk with herror | ⟨all, h⟩
  · exact Or.inl herror
  · have hvacuous : matchingHits ops (.and []) all = all.filter fun hit => hit.payload.isSome := by
      apply List.filter_congr
      intro hit hhit
      cases hit.payload with
      | none => rfl
      | some payload => simp [Filter.evaluate, Filter.evaluateAll]
    refine Or.inr ⟨all, _, _, ⟨h.unfiltered, fun matching => h.filtered matching filter,
      fun matching => h.filtered matching (.not filter), h.mem, ?_, ?_, ?_⟩, ?_⟩
    · intro id hid hsome
      obtain ⟨payload, hpayload⟩ := Option.isSome_iff_exists.mp hsome
      rw [mem_matchingHits h, mem_matchingHits h, hpayload]
      simp [hid, Filter.evaluate]
    · intro id hnone
      rw [mem_matchingHits h, mem_matchingHits h, hnone]
      simp
    · intro matching
      rw [← hvacuous]
      exact h.filtered matching _
    · intro hall matching
      have hkept : (all.filter fun hit => hit.payload.isSome) = all := by
        apply List.filter_eq_self.mpr
        intro hit hhit
        rw [h.payload hit hhit]
        exact hall _ ((h.mem _).mp (List.mem_map_of_mem hhit))
      have hrun := h.filtered matching (.and [])
      rw [hvacuous, hkept, ← h.unfiltered matching] at hrun
      exact hrun

/-- Two vectors; the second has no payload. -/
def halfPaid : Collection FlatIndex InMemoryLexicalIndex InMemoryPayloadStore where
  index :=
    { metric := .euclidean
      dimension := .one
      points := [(⟨1⟩, .single (F32.ofInt 3) (.refl true)),
        (⟨2⟩, .single (F32.ofInt 5) (.refl true))] }
  lexical := .new
  payloads := .set .new ⟨1⟩ (integerPayload 7)

/-- A condition that the payload meets. -/
def sevenFilter : Filter := .eq "k" (.integer 7)

theorem search_complement_half :
    (∃ e, ∀ matching filter, (search (flatPorts .ascii .small .small) matching halfPaid
      ⟨.single (F32.ofInt 3) (.refl true), 2, none, filter⟩).run = some (.error e)) ∨
    ∃ all yes no, SharedOut (flatPorts .ascii .small .small) halfPaid
        (fun id => ∃ e, (id, e) ∈ halfPaid.index.points) halfPaid.payloads.get
        (.single (F32.ofInt 3) (.refl true)) 2 none sevenFilter all yes no ∧
      ((∀ id, (∃ e, (id, e) ∈ halfPaid.index.points) → (halfPaid.payloads.get id).isSome) →
        ∀ matching, search (flatPorts .ascii .small .small) matching halfPaid
            ⟨.single (F32.ofInt 3) (.refl true), 2, none, some (.and [])⟩ =
          search (flatPorts .ascii .small .small) matching halfPaid
            ⟨.single (F32.ofInt 3) (.refl true), 2, none, none⟩) :=
  search_complement (flatPorts .ascii .small .small) .small halfPaid _ _
    (.single (F32.ofInt 3) (.refl true)) 2 none sevenFilter
    (FlatIndex.exact_port .small halfPaid.index)
    (InMemoryPayloadStore.scans_port .small halfPaid.payloads) (by decide)

/-- The ids that a search finds. -/
def foundIds (filter : Option Filter) : Option (List VectorId) :=
  ((search (flatPorts .ascii .small .small) .ascending halfPaid
    ⟨.single (F32.ofInt 3) (.refl true), 2, none, filter⟩).run.bind Except.toOption).map
      (List.map SearchHit.id)

/-- The vector without a payload is stored, and found neither way; the empty
    conjunction misses it too. -/
theorem not_search_complement :
    (⟨2⟩ : VectorId) ∈ halfPaid.index.points.map Prod.fst ∧
    foundIds (some sevenFilter) = some [⟨1⟩] ∧ foundIds (some (.not sevenFilter)) = some [] ∧
    foundIds (some (.and [])) = some [⟨1⟩] ∧ foundIds none = some [⟨1⟩, ⟨2⟩] := by
  decide +kernel

end Collection

end EidosDB
