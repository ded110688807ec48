import EidosDB.Lib.Simulation
import EidosDB.Proto.Status

/-! # Stores that Stand In for Others

    A collection asks its three stores for what their ports offer.  A store
    stands in for another one if every operation of its port simulates the
    operation of the other, and its reads agree; then a collection over the
    first stores simulates one over the others.

    An operation of a stand-in may halt where the other succeeds, in a way
    that is excused.  What that is, the stores have in common. -/

namespace EidosDB

open Effect

/-! ## Stores -/

/-- `V` stands in for `V'` on related states.  A collection only inserts
    embeddings of the index dimension, under ids it has removed before. -/
structure VectorIndex.StandsIn {I I' : Type} (Excused : Option Stop → Halt QueryError → Prop)
    (V : VectorIndex I) (V' : VectorIndex I')
    (dimension : Dimension) (Absent : VectorId → I' → Prop) (R : I → I' → Prop) : Prop where
  metric {s : I} {t : I'} (h : R s t) : V.metric s = V'.metric t
  supportedMetrics {s : I} {t : I'} (h : R s t) : V.supportedMetrics s = V'.supportedMetrics t
  len {s : I} {t : I'} (h : R s t) : V.len s = V'.len t
  remove (id : VectorId) :
    Simulates (fun how r => Excused how (r.map QueryError.index)) R (V.remove id) (V'.remove id)
      fun _ s t => R s t ∧ Absent id t
  insert (id : VectorId) {e : Embedding} (hdim : e.dimension = dimension.get) :
    Simulates (fun how r => Excused how (r.map QueryError.index)) (fun s t => R s t ∧ Absent id t)
      (V.insert id e) (V'.insert id e) fun _ => R
  searchFiltered {s : I} {t : I'} (h : R s t) (query : Embedding) (k : Nat) (metric : Metric)
    (isAdmissible : VectorId → Bool) :
    V.searchFiltered s query k metric isAdmissible = V'.searchFiltered t query k metric isAdmissible

structure LexicalIndex.StandsIn {L L' : Type} (Excused : Option Stop → Halt QueryError → Prop)
    (X : LexicalIndex L) (X' : LexicalIndex L') (R : L → L' → Prop) : Prop where
  insert (before after : HashOrder) (id : VectorId) (document : Document) :
    Simulates (fun how r => Excused how (r.map QueryError.lexical)) R
      (X.insert before after id document) (X'.insert before after id document) fun _ => R
  remove (order : HashOrder) (id : VectorId) :
    Simulates (fun how r => Excused how (r.map QueryError.lexical)) R (X.remove order id)
      (X'.remove order id) fun _ => R
  searchTextFiltered {s : L} {t : L'} (h : R s t) (order : HashOrder) (text : String) (k : Nat)
    (isAdmissible : VectorId → Bool) :
    X.searchTextFiltered order s text k isAdmissible =
      X'.searchTextFiltered order t text k isAdmissible

structure PayloadStore.StandsIn {P P' : Type} (Excused : Option Stop → Halt QueryError → Prop)
    (Y : PayloadStore P) (Y' : PayloadStore P') (R : P → P' → Prop) : Prop where
  set (id : VectorId) (payload : Payload) :
    Simulates (fun how r => Excused how (r.map QueryError.payload)) R (Y.set id payload)
      (Y'.set id payload) fun _ => R
  remove (id : VectorId) :
    Simulates (fun how r => Excused how (r.map QueryError.payload)) R (Y.remove id) (Y'.remove id)
      fun _ => R
  get {s : P} {t : P'} (h : R s t) (id : VectorId) : Y.get s id = Y'.get t id
  matchingIds {s : P} {t : P'} (h : R s t) (order : HashOrder) (filter : CompiledFilter) :
    ∃ ids, Y.matchingIds order s filter = .ok ids ∧ Y'.matchingIds order t filter = .ok ids

/-- All three of them. -/
structure Ports.StandIn {I I' L L' P P' : Type} (Excused : Option Stop → Halt QueryError → Prop)
    (ports : Ports I L P) (ports' : Ports I' L' P') (dimension : Dimension)
    (Absent : VectorId → I' → Prop) (RI : I → I' → Prop) (RL : L → L' → Prop)
    (RP : P → P' → Prop) : Prop where
  index : ports.index.StandsIn Excused ports'.index dimension Absent RI
  lexical : ports.lexical.StandsIn Excused ports'.lexical RL
  payloads : ports.payloads.StandsIn Excused ports'.payloads RP

/-! ## Collections -/

namespace Collection

variable {I I' L L' P P' : Type} {Excused : Option Stop → Halt QueryError → Prop}

/-- The stores of one collection are related to those of another. -/
structure StandsFor (RI : I → I' → Prop) (RL : L → L' → Prop) (RP : P → P' → Prop)
    (c : Collection I L P) (c' : Collection I' L' P') : Prop where
  index : RI c.index c'.index
  lexical : RL c.lexical c'.lexical
  payloads : RP c.payloads c'.payloads

section Parts

variable {α : Type} {RI : I → I' → Prop} {RL : L → L' → Prop} {RP : P → P' → Prop}

theorem simulates_onIndex {RI' : α → I → I' → Prop} {m : Effect IndexError I α}
    {m' : Effect IndexError I' α}
    (h : Simulates (fun how r => Excused how (r.map QueryError.index)) RI m m' RI') :
    Simulates Excused (StandsFor RI RL RP) (onIndex m) (onIndex m')
      fun a => StandsFor (RI' a) RL RP := by
  refine simulates_mapErr (?_ : Simulates (fun how r => Excused how (r.map QueryError.index)) _ _ _ _)
    fun _ _ he => he
  apply simulates_zoom
  intro c c' hc
  apply simulates_mono h
  · rintro s t ⟨rfl, rfl⟩
    exact hc.index
  · intro a s t hr
    exact ⟨hr, hc.lexical, hc.payloads⟩

theorem simulates_onLexical {RL' : α → L → L' → Prop} {m : Effect LexicalError L α}
    {m' : Effect LexicalError L' α}
    (h : Simulates (fun how r => Excused how (r.map QueryError.lexical)) RL m m' RL') :
    Simulates Excused (StandsFor RI RL RP) (onLexical m) (onLexical m')
      fun a => StandsFor RI (RL' a) RP := by
  refine simulates_mapErr (?_ : Simulates (fun how r => Excused how (r.map QueryError.lexical)) _ _ _ _)
    fun _ _ he => he
  apply simulates_zoom
  intro c c' hc
  apply simulates_mono h
  · rintro s t ⟨rfl, rfl⟩
    exact hc.lexical
  · intro a s t hr
    exact ⟨hc.index, hr, hc.payloads⟩

theorem simulates_onPayloads {RP' : α → P → P' → Prop} {m : Effect PayloadError P α}
    {m' : Effect PayloadError P' α}
    (h : Simulates (fun how r => Excused how (r.map QueryError.payload)) RP m m' RP') :
    Simulates Excused (StandsFor RI RL RP) (onPayloads m) (onPayloads m')
      fun a => StandsFor RI RL (RP' a) := by
  refine simulates_mapErr (?_ : Simulates (fun how r => Excused how (r.map QueryError.payload)) _ _ _ _)
    fun _ _ he => he
  apply simulates_zoom
  intro c c' hc
  apply simulates_mono h
  · rintro s t ⟨rfl, rfl⟩
    exact hc.payloads
  · intro a s t hr
    exact ⟨hc.index, hc.lexical, hr⟩

end Parts

section Calls

variable {ports : Ports I L P} {ports' : Ports I' L' P'} {dimension : Dimension}
  {Absent : VectorId → I' → Prop} {RI : I → I' → Prop} {RL : L → L' → Prop} {RP : P → P' → Prop}
  (h : ports.StandIn Excused ports' dimension Absent RI RL RP)

include h

/-! ### Writes -/

theorem simulates_upsert (before after : HashOrder) (id : VectorId) {e : Embedding}
    (hdim : e.dimension = dimension.get) (document : Option Document) (payload : Option Payload) :
    Simulates Excused (StandsFor RI RL RP)
      (upsert ports before after id e document payload)
      (upsert ports' before after id e document payload) fun _ => StandsFor RI RL RP := by
  unfold upsert
  apply simulates_bind _ (simulates_onIndex (h.index.remove id))
  intro _
  apply simulates_bind (fun _ => StandsFor RI RL RP) (simulates_onIndex (h.index.insert id hdim))
  intro _
  refine simulates_bind (fun _ => StandsFor RI RL RP) ?_ fun _ => ?_
  · cases document with
    | some document => exact simulates_onLexical (h.lexical.insert before after id document)
    | none => exact simulates_onLexical (h.lexical.remove before id)
  · cases payload with
    | some payload => exact simulates_onPayloads (h.payloads.set id payload)
    | none =>
      exact simulates_bind _ (simulates_onPayloads (h.payloads.remove id)) fun _ =>
        simulates_pure fun _ _ hc => hc

theorem simulates_delete (order : HashOrder) (id : VectorId) :
    Simulates Excused (StandsFor RI RL RP) (delete ports order id)
      (delete ports' order id) fun _ => StandsFor RI RL RP := by
  unfold delete
  refine simulates_bind (fun _ => StandsFor RI RL RP) ?_ fun removed => ?_
  · exact simulates_mono (simulates_onIndex (h.index.remove id)) (fun _ _ hc => hc)
      fun _ _ _ hc => ⟨hc.index.1, hc.lexical, hc.payloads⟩
  · apply simulates_bind _ (simulates_onLexical (h.lexical.remove order id))
    intro _
    exact simulates_bind _ (simulates_onPayloads (h.payloads.remove id)) fun _ =>
      simulates_pure fun _ _ hc => hc

theorem simulates_deleteEach (orders : VectorId → HashOrder) (ids : List VectorId) (count : Nat) :
    Simulates Excused (StandsFor RI RL RP) (deleteEach ports orders ids count)
      (deleteEach ports' orders ids count) fun _ => StandsFor RI RL RP := by
  induction ids generalizing count with
  | nil => exact simulates_pure fun _ _ hc => hc
  | cons id rest ih =>
    exact simulates_bind _ (simulates_delete h (orders id) id) fun removed => ih _

theorem simulates_deleteByFilter (matching each : HashOrder) (orders : VectorId → HashOrder)
    (filter : Filter) :
    Simulates Excused (StandsFor RI RL RP)
      (deleteByFilter ports matching each orders filter)
      (deleteByFilter ports' matching each orders filter) fun _ => StandsFor RI RL RP := by
  unfold deleteByFilter
  apply simulates_get
  intro c c' hc
  -- both scans find the same ids
  obtain ⟨ids, hids, hids'⟩ := h.payloads.matchingIds hc.payloads matching filter.compile
  rw [hids, hids']
  refine simulates_bind (fun found s t => found = ids ∧ StandsFor RI RL RP s t) ?_ ?_
  · apply simulates_liftExcept rfl rfl
    rintro s t ⟨rfl, rfl⟩
    exact ⟨rfl, hc⟩
  · intro found
    apply simulates_mono (simulates_deleteEach h orders (each.keys found) 0)
    · exact fun _ _ hs => hs.2
    · exact fun _ _ _ hs => hs

/-! ### Reads -/

variable {c : Collection I L P} {c' : Collection I' L' P'} (hc : StandsFor RI RL RP c c')

include hc

theorem len_standsFor : c.len ports = c'.len ports' := h.index.len hc.index

theorem resolveMetric_standsFor (metric : Option Metric) :
    resolveMetric ports c metric = resolveMetric ports' c' metric := by
  unfold resolveMetric
  rw [h.index.metric hc.index, h.index.supportedMetrics hc.index]

theorem allowedIds_standsFor (matching : HashOrder) (filter : Option Filter) :
    allowedIds ports matching c filter = allowedIds ports' matching c' filter := by
  cases filter with
  | none => rfl
  | some filter =>
    obtain ⟨ids, hids, hids'⟩ := h.payloads.matchingIds hc.payloads matching filter.compile
    unfold allowedIds
    dsimp only
    rw [hids, hids']

theorem hydrate_standsFor : hydrate ports c = hydrate ports' c' := by
  funext n
  unfold hydrate
  rw [h.payloads.get hc.payloads]

theorem search_standsFor (matching : HashOrder) (query : SearchQuery) :
    search ports matching c query = search ports' matching c' query := by
  unfold search
  rw [resolveMetric_standsFor h hc, allowedIds_standsFor h hc, hydrate_standsFor h hc]
  simp only [h.index.searchFiltered hc.index]

theorem searchHybrid_standsFor (ops : F64Ops) (orders : SearchOrders) (query : HybridQuery) :
    searchHybrid ports ops orders c query = searchHybrid ports' ops orders c' query := by
  unfold searchHybrid denseChannel
  rw [resolveMetric_standsFor h hc, allowedIds_standsFor h hc, hydrate_standsFor h hc]
  simp only [h.index.searchFiltered hc.index, h.lexical.searchTextFiltered hc.lexical]

end Calls

end Collection

end EidosDB
