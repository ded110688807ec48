import EidosDB.Lexical.Statistics
import EidosDB.Query.Collection

/-! # A Collection is One Map

    What a collection is for: one map from ids to entries, each an embedding
    with an optional document and an optional payload.  The calls of the map
    are defined here without stores, orders or effects; a collection over any
    vector index that keeps its contract simulates them as long as no upsert
    is rejected after the old vector is gone. -/

namespace EidosDB

open Effect Fold

/-! ## The map -/

/-- All that a collection keeps under one id. -/
structure Entry where
  embedding : Embedding
  document : Option Document
  payload : Option Payload
  deriving DecidableEq

/-- The entry has a payload, and the payload satisfies the filter. -/
def Entry.matches (ops : F64Ops) (filter : Filter) (entry : Entry) : Bool :=
  entry.payload.any fun payload => filter.evaluate ops payload

abbrev EntryMap := OrderedTable VectorId Entry

namespace EntryMap

/-- The number of tokens of all documents. -/
def tokens (U : Unicode) (m : EntryMap) : Nat :=
  m.total fun _ entry => (entry.document.map (Document.tokenCount U)).getD 0

/-- The token counters hold the document that is to replace that of `id`. -/
def fits (U : Unicode) (m : EntryMap) (id : VectorId) (document : Option Document) : Bool :=
  document.all (countersHold U (tokens U (m.erase id)))

/-- The calls on the map; `none` where the token counters overflow. -/
def step (U : Unicode) (ops : F64Ops) (dimension : Dimension) (m : EntryMap) :
    CollectionOp → Option (CollectionAnswer × EntryMap)
  | .upsert _ _ id embedding document payload =>
      if embedding.dimension ≠ dimension.get then
        some (.upserted (.error (.index
          (.dimensionMismatch dimension.get embedding.dimension))), m)
      else if m.fits U id document then
        some (.upserted (.ok ()),
          m.insert id { embedding := embedding, document := document, payload := payload })
      else none
  | .delete _ id => some (.deleted (.ok (m.get id).isSome), m.erase id)
  | .deleteByFilter _ _ _ filter =>
      some (.deletedMatching (.ok (m.filter fun _ entry => entry.matches ops filter).len),
        m.filter fun _ entry => !entry.matches ops filter)

/-- A run of calls, with the answers in order. -/
def run (U : Unicode) (ops : F64Ops) (dimension : Dimension) :
    EntryMap → List CollectionOp → Option (List CollectionAnswer × EntryMap)
  | m, [] => some ([], m)
  | m, op :: rest =>
      (m.step U ops dimension op).bind fun r =>
        (run U ops dimension r.2 rest).map fun r' => (r.1 :: r'.1, r'.2)

/-- The entries a search considers. -/
def considers (ops : F64Ops) (m : EntryMap) (filter : Option Filter) (id : VectorId) : Bool :=
  filter.all fun filter => (m.get id).any fun entry => entry.matches ops filter

/-- The `k` best of the entries a search considers, by descending score and
    then ascending id, with their payloads. -/
def search (f32 : F32Ops) (f64 : F64Ops) (metric : Metric) (dimension : Dimension) (m : EntryMap)
    (query : SearchQuery) : Except QueryError (List SearchHit) :=
  if query.embedding.dimension ≠ dimension.get then
    .error (.index (.dimensionMismatch dimension.get query.embedding.dimension))
  else
    .ok ((hits f32 (query.metric.getD metric) query.embedding.values query.k
      (m.considers f64 query.filter) (m.mapValues Entry.embedding).entries).map fun n =>
        { id := n.id, score := n.score, payload := (m.get n.id).bind Entry.payload })

end EntryMap

/-! ## What a vector index owes a collection -/

/-- `Stores s t` says that an index in state `s` stores the points of `t`.
    Removing an id that is not stored changes nothing, and neither does an
    insert of the wrong dimension. -/
structure VectorIndex.Lawful {I : Type} (V : VectorIndex I) (dimension : Dimension)
    (Stores : I → OrderedTable VectorId Embedding → Prop) : Prop where
  len {s : I} {t : OrderedTable VectorId Embedding} (h : Stores s t) : V.len s = t.len
  remove {w : World I} {t : OrderedTable VectorId Embedding} (h : Stores w.state t)
    (id : VectorId) : ends (V.remove id)
      (fun removed w' => removed = (t.get id).isSome ∧ Stores w'.state (t.erase id) ∧
        (t.get id = none → w'.state = w.state))
      (fun _ _ => False) w
  insert_mismatch {w : World I} {t : OrderedTable VectorId Embedding} (h : Stores w.state t)
    (id : VectorId) {e : Embedding} (hdim : e.dimension ≠ dimension.get) : ends (V.insert id e)
      (fun _ _ => False)
      (fun r w' => r = .err (.dimensionMismatch dimension.get e.dimension) ∧ w'.state = w.state) w
  insert {w : World I} {t : OrderedTable VectorId Embedding} (h : Stores w.state t)
    {id : VectorId} {e : Embedding} (hdim : e.dimension = dimension.get) (hnew : t.get id = none) :
    ends (V.insert id e) (fun _ w' => Stores w'.state (t.insert id e)) (fun _ _ => False) w

/-! ## The stores in memory -/

namespace InMemoryLexicalIndex

variable {U : Unicode} {ops : F64Ops} {docs : VectorId → Option Document}
  {w : World InMemoryLexicalIndex}

theorem ends_remove (h : w.state.Holds U docs) (order : HashOrder) (id : VectorId) :
    ends ((port U ops).remove order id)
      (fun _ w' => w'.state.Holds U (Function.update docs id none)) (fun _ _ => False) w := by
  obtain ⟨s', hremove, -, -⟩ := forget_spec h.inv order id
  have hcall : w.state.remove order id = some s' := hremove
  rw [port_remove, ends_call, hcall]
  exact h.remove hcall

theorem ends_insert (h : w.state.Holds U docs) (before after : HashOrder) (id : VectorId)
    (document : Document) :
    ends ((port U ops).insert before after id document)
      (fun _ w' => countersHold U (tokensOf (w.state.docs.erase id)) document = true ∧
        w'.state.Holds U (Function.update docs id (some document)))
      (fun r _ => countersHold U (tokensOf (w.state.docs.erase id)) document = false ∧
        r = .panicked) w := by
  have hsome := insert_isSome h.inv (U := U) before after id document
  rw [port_insert, ends_call]
  cases hinsert : w.state.insert U before after id document with
  | some s' =>
    rw [hinsert] at hsome
    exact ⟨hsome.symm, h.insert hinsert⟩
  | none =>
    rw [hinsert] at hsome
    exact ⟨hsome.symm, rfl⟩

/-- The tokens of an index that holds given documents are those of the
    documents. -/
theorem tokensOf_eq {s : InMemoryLexicalIndex} (h : s.Holds U docs) {m : EntryMap}
    (hdocs : ∀ id, docs id = (m.get id).bind Entry.document) : tokensOf s.docs = m.tokens U := by
  -- entry by entry: a document and its statistics count the same tokens
  apply OrderedTable.total_congr (f := fun _ stats => DocStats.length stats)
  intro id
  have hstored := h.stored id
  rw [hdocs] at hstored
  cases hget : m.get id with
  | none =>
    rw [hget] at hstored
    cases hstats : s.docs.get id with
    | none => rfl
    | some stats =>
      rw [hstats] at hstored
      simp at hstored
  | some entry =>
    rw [hget] at hstored
    cases hdoc : entry.document with
    | none =>
      cases hstats : s.docs.get id with
      | none => simp [hdoc]
      | some stats =>
        rw [hstats] at hstored
        simp [hdoc] at hstored
    | some document =>
      cases hstats : s.docs.get id with
      | none =>
        rw [hstats] at hstored
        simp [hdoc] at hstored
      | some stats =>
        rw [hstats] at hstored
        have hof : DocStats.ofDocument U document = some stats := by simpa [hdoc] using hstored
        rcases DocStats.ofDocument_cases U document with ⟨-, stats', hstats', hlen⟩ | ⟨-, hnone⟩
        · rw [hof] at hstats'
          cases hstats'
          simpa [hdoc] using hlen
        · rw [hof] at hnone
          simp at hnone

end InMemoryLexicalIndex

namespace InMemoryPayloadStore

variable {ops : F64Ops} {w : World InMemoryPayloadStore}

theorem ends_set (id : VectorId) (payload : Payload) :
    ends ((port ops).set id payload) (fun _ w' => w'.state = w.state.set id payload)
      (fun _ _ => False) w := rfl

theorem ends_remove (id : VectorId) :
    ends ((port ops).remove id) (fun _ w' => w'.state = (w.state.remove id).2)
      (fun _ _ => False) w := rfl

theorem get_set (s : InMemoryPayloadStore) (id id' : VectorId) (payload : Payload) :
    (s.set id payload).get id' = if id' = id then some payload else s.get id' := by
  unfold get set
  rw [OrderedTable.get_insert]
  congr

theorem get_remove (s : InMemoryPayloadStore) (id id' : VectorId) :
    (s.remove id).2.get id' = if id' = id then none else s.get id' := by
  unfold get remove
  rw [OrderedTable.get_erase]
  congr

/-- A scan finds no id twice. -/
theorem nodup_matching (ops : F64Ops) (s : InMemoryPayloadStore) (order : HashOrder)
    (filter : CompiledFilter) :
    ((((order.entries s.payloads).filter fun p => filter.matches ops p.2).map
      fun p => (p.1, ())).map Prod.fst).Nodup := by
  rw [List.map_map]
  exact (order.nodup_keys s.payloads).sublist (List.filter_sublist.map _)

/-- The matching ids of a store that holds the payloads of a map, whatever
    order they are found in. -/
theorem matchingIds_eq (ops : F64Ops) {s : InMemoryPayloadStore} {m : EntryMap}
    (h : ∀ id, s.get id = (m.get id).bind Entry.payload) (order : HashOrder) (filter : Filter) :
    s.matchingIds ops order filter.compile =
      (m.filter fun _ entry => entry.matches ops filter).mapValues fun _ => () := by
  have hnodup := nodup_matching ops s order filter.compile
  apply OrderedTable.ext_get
  intro id
  apply Option.ext
  intro u
  have hstored : s.payloads.get id = (m.get id).bind Entry.payload := h id
  rw [matchingIds, OrderedTable.get_ofList_iff hnodup, OrderedTable.get_mapValues,
    OrderedTable.get_filter]
  simp only [List.mem_map, List.mem_filter, Prod.exists, Prod.mk.injEq, Option.map_eq_some_iff,
    Option.filter_eq_some_iff]
  constructor
  · rintro ⟨id', payload, ⟨hmem, hmatch⟩, rfl, hu⟩
    rw [order.mem_entries_iff, hstored] at hmem
    obtain ⟨entry, hentry, hpayload⟩ := Option.bind_eq_some_iff.mp hmem
    refine ⟨entry, ⟨hentry, ?_⟩, hu⟩
    rw [Entry.matches, hpayload]
    exact hmatch
  · rintro ⟨entry, ⟨hentry, hmatch⟩, hu⟩
    unfold Entry.matches at hmatch
    cases hpayload : entry.payload with
    | none =>
      rw [hpayload] at hmatch
      simp at hmatch
    | some payload =>
      rw [hpayload] at hmatch
      refine ⟨id, payload, ⟨?_, hmatch⟩, rfl, hu⟩
      rw [order.mem_entries_iff, hstored, hentry]
      exact hpayload

end InMemoryPayloadStore

/-! ## The simulation -/

/-- The ports of a collection that keeps documents and payloads in memory. -/
def memoryPorts {I : Type} (V : VectorIndex I) (U : Unicode) (ops : F64Ops) :
    Ports I InMemoryLexicalIndex InMemoryPayloadStore where
  index := V
  lexical := InMemoryLexicalIndex.port U ops
  payloads := InMemoryPayloadStore.port ops

/-- A collection keeps in its three stores what the map says. -/
structure Refines {I : Type} (Stores : I → OrderedTable VectorId Embedding → Prop) (U : Unicode)
    (c : Collection I InMemoryLexicalIndex InMemoryPayloadStore) (m : EntryMap) : Prop where
  index : Stores c.index (m.mapValues Entry.embedding)
  lexical : c.lexical.Holds U fun id => (m.get id).bind Entry.document
  payloads : ∀ id, c.payloads.get id = (m.get id).bind Entry.payload

section Simulation

variable {I : Type} {V : VectorIndex I} {dimension : Dimension}
  {Stores : I → OrderedTable VectorId Embedding → Prop} {U : Unicode} {ops : F64Ops}
  {m : EntryMap} {w : World (Collection I InMemoryLexicalIndex InMemoryPayloadStore)}

open Collection

theorem ends_delete (ops : F64Ops) (law : V.Lawful dimension Stores) (h : Refines Stores U w.state m)
    (order : HashOrder) (id : VectorId) :
    ends (delete (memoryPorts V U ops) order id)
      (fun removed w' => removed = (m.get id).isSome ∧ Refines Stores U w'.state (m.erase id))
      (fun _ _ => False) w := by
  unfold delete
  rw [ends_bind, ends_onIndex]
  apply ends_mono (law.remove h.index id) _ (fun _ _ hfalse => hfalse)
  intro removed w₁ hindex
  obtain ⟨hremoved, hstores, -⟩ := hindex
  rw [ends_bind, ends_onLexical]
  apply ends_mono (InMemoryLexicalIndex.ends_remove h.lexical order id) _ (fun _ _ hfalse => hfalse)
  intro _ w₂ hholds
  rw [ends_bind, ends_onPayloads]
  apply ends_mono (InMemoryPayloadStore.ends_remove id) _ (fun _ _ hfalse => hfalse)
  intro _ w₃ hpayloads
  rw [ends_pure]
  refine ⟨?_, ?_, ?_, ?_⟩
  · rw [hremoved, OrderedTable.get_mapValues, Option.isSome_map]
  · rw [OrderedTable.mapValues_erase]
    exact hstores
  · convert hholds using 1
    funext id'
    rw [OrderedTable.get_erase, Function.update_apply]
    split <;> rfl
  · intro id'
    dsimp only
    rw [hpayloads, InMemoryPayloadStore.get_remove, OrderedTable.get_erase]
    split
    · rfl
    · exact h.payloads id'

/-- The loop over distinct ids that have entries deletes each of them. -/
theorem ends_deleteEach (ops : F64Ops) (law : V.Lawful dimension Stores) (h : Refines Stores U w.state m)
    (orders : VectorId → HashOrder) {ids : List VectorId} (hnodup : ids.Nodup)
    (hmem : ∀ id ∈ ids, (m.get id).isSome = true) (count : Nat) :
    ends (deleteEach (memoryPorts V U ops) orders ids count)
      (fun n w' => n = count + ids.length ∧
        Refines Stores U w'.state (m.alterMany ids fun _ => none))
      (fun _ _ => False) w := by
  induction ids generalizing m w count with
  | nil => exact ⟨rfl, h⟩
  | cons id rest ih =>
    obtain ⟨hnot, hnodup⟩ := List.nodup_cons.mp hnodup
    rw [deleteEach, ends_bind]
    apply ends_mono (ends_delete ops law h (orders id) id) _ (fun _ _ hfalse => hfalse)
    intro removed w₁ hdelete
    obtain ⟨hremoved, hrefines⟩ := hdelete
    rw [hmem id List.mem_cons_self] at hremoved
    rw [hremoved, if_pos rfl]
    -- the ids are distinct, so those that are left still have their entries
    have hmem' : ∀ id' ∈ rest, ((m.erase id).get id').isSome = true := by
      intro id' hid'
      have hne : id' ≠ id := fun heq => hnot (heq ▸ hid')
      rw [OrderedTable.get_erase, if_neg hne]
      exact hmem id' (List.mem_cons_of_mem _ hid')
    apply ends_mono (ih hrefines hnodup hmem' (count + 1)) _ (fun _ _ hfalse => hfalse)
    intro n w₂ hrest
    refine ⟨?_, hrest.2⟩
    rw [hrest.1, List.length_cons]
    omega

theorem ends_deleteByFilter (ops : F64Ops) (law : V.Lawful dimension Stores) (h : Refines Stores U w.state m)
    (matching each : HashOrder) (orders : VectorId → HashOrder) (filter : Filter) :
    ends (deleteByFilter (memoryPorts V U ops) matching each orders filter)
      (fun n w' => n = (m.filter fun _ entry => entry.matches ops filter).len ∧
        Refines Stores U w'.state (m.filter fun _ entry => !entry.matches ops filter))
      (fun _ _ => False) w := by
  have hids := InMemoryPayloadStore.matchingIds_eq ops h.payloads matching filter
  unfold deleteByFilter
  rw [ends_bind, ends_get, ends_bind]
  show ends (Effect.liftExcept (.ok (w.state.payloads.matchingIds ops matching filter.compile)))
    _ _ w
  rw [liftExcept_ok, ends_pure, hids]
  have hkeys : ∀ id, id ∈ each.keys
      ((m.filter fun _ entry => entry.matches ops filter).mapValues fun _ => ()) ↔
      ∃ entry, m.get id = some entry ∧ entry.matches ops filter = true := by
    intro id
    rw [each.mem_keys_iff, OrderedTable.get_mapValues, Option.isSome_map, Option.isSome_iff_exists,
      OrderedTable.get_filter]
    simp only [Option.filter_eq_some_iff]
  have hmem : ∀ id ∈ each.keys
      ((m.filter fun _ entry => entry.matches ops filter).mapValues fun _ => ()),
      (m.get id).isSome = true := by
    intro id hid
    obtain ⟨entry, hentry, -⟩ := (hkeys id).mp hid
    rw [hentry]
    rfl
  apply ends_mono (ends_deleteEach ops law h orders (each.nodup_keys _) hmem 0) _
    (fun _ _ hfalse => hfalse)
  intro n w' hdeleted
  refine ⟨?_, ?_⟩
  · rw [hdeleted.1, Nat.zero_add, HashOrder.keys, List.length_map, (each.perm _).length_eq]
    exact OrderedTable.len_mapValues _ _
  · convert hdeleted.2 using 1
    apply OrderedTable.ext_get
    intro id
    rw [OrderedTable.get_alterMany _ (each.nodup_keys _), OrderedTable.get_filter]
    by_cases hid : ∃ entry, m.get id = some entry ∧ entry.matches ops filter = true
    · rw [if_pos ((hkeys id).mpr hid)]
      obtain ⟨entry, hentry, hmatch⟩ := hid
      simp [hentry, hmatch]
    · rw [if_neg (fun hk => hid ((hkeys id).mp hk))]
      cases hentry : m.get id with
      | none => rfl
      | some entry =>
        have hmatch : entry.matches ops filter = false := by
          rw [← Bool.not_eq_true]
          exact fun hm => hid ⟨entry, hentry, hm⟩
        simp [hmatch]

/-- The counters of the lexical index are those of the map. -/
theorem countersHold_eq {s : InMemoryLexicalIndex}
    (h : s.Holds U fun id => (m.get id).bind Entry.document) (id : VectorId)
    (document : Document) :
    countersHold U (tokensOf (s.docs.erase id)) document = m.fits U id (some document) := by
  obtain ⟨s', hforget, hdocs, -⟩ := InMemoryLexicalIndex.forget_spec h.inv .ascending id
  have hremove : s.remove .ascending id = some s' := hforget
  have hholds := h.remove hremove
  have htokens := InMemoryLexicalIndex.tokensOf_eq hholds (m := m.erase id) <| by
    intro id'
    rw [OrderedTable.get_erase, Function.update_apply]
    split <;> rfl
  rw [← hdocs, htokens]
  rfl

theorem ends_writePayload (id : VectorId) (payload : Option Payload) :
    ends (writePayload (memoryPorts V U ops) id payload)
      (fun _ w' => w'.state.index = w.state.index ∧ w'.state.lexical = w.state.lexical ∧
        ∀ id', w'.state.payloads.get id' =
          if id' = id then payload else w.state.payloads.get id')
      (fun _ _ => False) w := by
  cases payload with
  | some payload =>
    rw [writePayload, ends_onPayloads]
    apply ends_mono (InMemoryPayloadStore.ends_set id payload) _ (fun _ _ hfalse => hfalse)
    intro _ w' hset
    refine ⟨rfl, rfl, fun id' => ?_⟩
    rw [hset, InMemoryPayloadStore.get_set]
  | none =>
    rw [writePayload, ends_bind, ends_onPayloads]
    apply ends_mono (InMemoryPayloadStore.ends_remove id) _ (fun _ _ hfalse => hfalse)
    intro _ w' hremove
    refine ⟨rfl, rfl, fun id' => ?_⟩
    rw [hremove, InMemoryPayloadStore.get_remove]

theorem ends_writeDocument
    (h : w.state.lexical.Holds U fun id => (m.get id).bind Entry.document)
    (before after : HashOrder) (id : VectorId) (document : Option Document) :
    ends (writeDocument (memoryPorts V U ops) before after id document)
      (fun _ w' => m.fits U id document = true ∧ w'.state.index = w.state.index ∧
        w'.state.payloads = w.state.payloads ∧ w'.state.lexical.Holds U
          (Function.update (fun id => (m.get id).bind Entry.document) id document))
      (fun r _ => m.fits U id document = false ∧ r = .panicked) w := by
  cases document with
  | some document =>
    rw [writeDocument, ends_onLexical]
    apply ends_mono (InMemoryLexicalIndex.ends_insert h before after id document)
    · intro _ w' hinsert
      rw [countersHold_eq h] at hinsert
      exact ⟨hinsert.1, rfl, rfl, hinsert.2⟩
    · intro r w' hpanic
      rw [countersHold_eq h] at hpanic
      exact ⟨hpanic.1, hpanic.2 ▸ rfl⟩
  | none =>
    rw [writeDocument, ends_onLexical]
    apply ends_mono (InMemoryLexicalIndex.ends_remove h before id) _ (fun _ _ hfalse => hfalse.elim)
    intro _ w' hremove
    exact ⟨rfl, rfl, rfl, hremove⟩

/-- An upsert of the right dimension replaces the entry, unless the token
    counters overflow. -/
theorem ends_upsert (ops : F64Ops) (law : V.Lawful dimension Stores) (h : Refines Stores U w.state m)
    (before after : HashOrder) (id : VectorId) {e : Embedding}
    (hdim : e.dimension = dimension.get) (document : Option Document) (payload : Option Payload) :
    ends (upsert (memoryPorts V U ops) before after id e document payload)
      (fun _ w' => m.fits U id document = true ∧ Refines Stores U w'.state
        (m.insert id { embedding := e, document := document, payload := payload }))
      (fun r _ => m.fits U id document = false ∧ r = .panicked) w := by
  unfold upsert
  rw [ends_bind, ends_onIndex]
  apply ends_mono (law.remove h.index id) _ (fun _ _ hfalse => hfalse.elim)
  intro _ w₁ hremoved
  have hnew : ((m.mapValues Entry.embedding).erase id).get id = none := by
    rw [OrderedTable.get_erase, if_pos rfl]
  rw [ends_bind, ends_onIndex]
  apply ends_mono (law.insert hremoved.2.1 hdim hnew) _ (fun _ _ hfalse => hfalse.elim)
  intro _ w₂ hinserted
  rw [OrderedTable.insert_erase] at hinserted
  rw [ends_bind]
  apply ends_mono (ends_writeDocument
    (w := ⟨⟨w₂.state, w.state.lexical, w.state.payloads⟩, w₂.plan, w₂.commits⟩) h.lexical before
    after id document) _ (fun _ _ hpanic => hpanic)
  intro _ w₃ hdocument
  obtain ⟨hfits, hindex₃, hpayloads₃, hlexical₃⟩ := hdocument
  apply ends_mono (ends_writePayload id payload) _ (fun _ _ hfalse => hfalse.elim)
  intro _ w₄ hpayload
  obtain ⟨hindex₄, hlexical₄, hpayloads₄⟩ := hpayload
  refine ⟨hfits, ?_, ?_, ?_⟩
  · rw [hindex₄, hindex₃, OrderedTable.mapValues_insert]
    exact hinserted
  · rw [hlexical₄]
    convert hlexical₃ using 1
    funext id'
    rw [OrderedTable.get_insert, Function.update_apply]
    split <;> rfl
  · intro id'
    rw [hpayloads₄, hpayloads₃, OrderedTable.get_insert]
    by_cases hid : id' = id
    · rw [if_pos hid, if_pos hid]
      rfl
    · rw [if_neg hid, if_neg hid]
      exact h.payloads id'

/-- An upsert of the wrong dimension is rejected, and changes nothing when the
    id has no vector. -/
theorem ends_upsert_mismatch (ops : F64Ops) (law : V.Lawful dimension Stores) (h : Refines Stores U w.state m)
    (before after : HashOrder) {id : VectorId} (hnew : m.get id = none) {e : Embedding}
    (hdim : e.dimension ≠ dimension.get) (document : Option Document) (payload : Option Payload) :
    ends (upsert (memoryPorts V U ops) before after id e document payload)
      (fun _ _ => False)
      (fun r w' => r = .err (.index (.dimensionMismatch dimension.get e.dimension)) ∧
        w'.state = w.state) w := by
  have hnone : (m.mapValues Entry.embedding).get id = none := by
    rw [OrderedTable.get_mapValues, hnew]
    rfl
  unfold upsert
  rw [ends_bind, ends_onIndex]
  apply ends_mono (law.remove h.index id) _ (fun _ _ hfalse => hfalse.elim)
  intro _ w₁ hremoved
  have hsame : w₁.state = w.state.index := hremoved.2.2 hnone
  rw [ends_bind, ends_onIndex]
  apply ends_mono (law.insert_mismatch hremoved.2.1 id hdim) (fun _ _ hfalse => hfalse.elim)
  intro r w₂ hrejected
  refine ⟨by rw [hrejected.1]; rfl, ?_⟩
  dsimp only
  rw [hrejected.2, hsame]

/-- Every upsert the call makes is of the right dimension, or for an id that
    has no entry. -/
def Clean (dimension : Dimension) (m : EntryMap) : CollectionOp → Prop
  | .upsert _ _ id embedding _ _ => embedding.dimension = dimension.get ∨ m.get id = none
  | _ => True

/-- One call answers as the map does, and keeps the simulation. -/
theorem step_refines (ops : F64Ops) (law : V.Lawful dimension Stores)
    {c : Collection I InMemoryLexicalIndex InMemoryPayloadStore} (h : Refines Stores U c m)
    {op : CollectionOp} (hclean : Clean dimension m op) :
    Option.Rel (fun r r' => r.1 = r'.1 ∧ Refines Stores U r.2 r'.2)
      (step (memoryPorts V U ops) c op) (m.step U ops dimension op) := by
  have hstart : Refines Stores U (World.start c .none).state m := h
  cases op with
  | upsert before after id e document payload =>
    rw [step, EntryMap.step]
    by_cases hdim : e.dimension = dimension.get
    · rw [if_neg (not_not.mpr hdim)]
      rcases exec_cases (ends_upsert ops law hstart before after id hdim document payload) with ⟨a, w', hexec, hfits, hrefines⟩ | ⟨r, w', hexec, hover, rfl⟩
      · rw [hexec, if_pos hfits]
        exact .some ⟨rfl, hrefines⟩
      · rw [hexec, if_neg (by simp [hover])]
        exact .none
    · -- the wrong dimension, and nothing stored that could be lost
      have hnew : m.get id = none := hclean.resolve_left hdim
      rw [if_pos hdim]
      rcases exec_cases (ends_upsert_mismatch ops law hstart before after hnew hdim document payload) with ⟨_, _, -, hfalse⟩ | ⟨r, w', hexec, rfl, hsame⟩
      · exact hfalse.elim
      · rw [hexec]
        refine .some ⟨rfl, ?_⟩
        show Refines Stores U w'.state m
        rw [hsame]
        exact h
  | delete order id =>
    obtain ⟨removed, w', hexec, hremoved, hrefines⟩ := exec_ok (ends_delete ops law hstart order id)
    rw [step, EntryMap.step]
    rw [hexec, hremoved]
    exact .some ⟨rfl, hrefines⟩
  | deleteByFilter matching each orders filter =>
    obtain ⟨n, w', hexec, hn, hrefines⟩ := exec_ok (ends_deleteByFilter ops law hstart matching each
      orders filter)
    rw [step, EntryMap.step]
    rw [hexec, hn]
    exact .some ⟨rfl, hrefines⟩

/-- A run of the map whose upserts are all clean. -/
def CleanRun (U : Unicode) (ops : F64Ops) (dimension : Dimension) :
    EntryMap → List CollectionOp → Prop
  | _, [] => True
  | m, op :: rest => Clean dimension m op ∧
      ∀ answer m', m.step U ops dimension op = some (answer, m') →
        CleanRun U ops dimension m' rest

/-- A run answers as the map does, and keeps the simulation. -/
theorem run_refines (ops : F64Ops) (law : V.Lawful dimension Stores)
    {c : Collection I InMemoryLexicalIndex InMemoryPayloadStore} (h : Refines Stores U c m)
    {calls : List CollectionOp} (hclean : CleanRun U ops dimension m calls) :
    Option.Rel (fun r r' => r.1 = r'.1 ∧ Refines Stores U r.2 r'.2)
      (run (memoryPorts V U ops) c calls) (m.run U ops dimension calls) := by
  induction calls generalizing c m with
  | nil => exact .some ⟨rfl, h⟩
  | cons op rest ih =>
    obtain ⟨hop, hrest⟩ := hclean
    rw [run, EntryMap.run]
    apply rel_bind (step_refines ops law h hop)
    intro r r' _ hr' hone
    apply rel_map (ih hone.2 (hrest r'.1 r'.2 hr'))
    intro q q' hq
    exact ⟨congrArg₂ List.cons hone.1 hq.1, hq.2⟩

/-- A call whose embedding, if it has one, is of the index dimension. -/
def OfDimension (dimension : Dimension) : CollectionOp → Prop
  | .upsert _ _ _ embedding _ _ => embedding.dimension = dimension.get
  | _ => True

theorem cleanRun_of_dimension {calls : List CollectionOp}
    (h : ∀ op ∈ calls, OfDimension dimension op) : CleanRun U ops dimension m calls := by
  induction calls generalizing m with
  | nil => trivial
  | cons op rest ih =>
    refine ⟨?_, fun _ _ _ => ih fun op' hop' => h op' (List.mem_cons_of_mem _ hop')⟩
    have hop := h op List.mem_cons_self
    cases op with
    | upsert => exact Or.inl hop
    | delete => trivial
    | deleteByFilter => trivial

end Simulation

/-! ## Over the flat index -/

namespace FlatIndex

/-- The index stores the points of a table. -/
structure Stores (metric : Metric) (dimension : Dimension) (s : FlatIndex)
    (t : OrderedTable VectorId Embedding) : Prop where
  inv : s.Inv
  metric_eq : s.metric = metric
  dimension_eq : s.dimension = dimension
  points : ∀ id e, (id, e) ∈ s.points ↔ t.get id = some e

variable {metric : Metric} {dimension : Dimension} {s : FlatIndex}
  {t : OrderedTable VectorId Embedding}

theorem stores_new (metric : Metric) (dimension : Dimension) :
    Stores metric dimension (new metric dimension) .empty where
  inv := inv_new metric dimension
  metric_eq := rfl
  dimension_eq := rfl
  points _ _ := by simp [new]

theorem Stores.perm (h : Stores metric dimension s t) : s.points.Perm t.entries := by
  apply (List.perm_ext_iff_of_nodup (nodup_points h.inv) t.nodup_entries).mpr
  rintro ⟨id, e⟩
  rw [h.points, t.mem_entries_iff]

theorem Stores.absent_iff (h : Stores metric dimension s t) (id : VectorId) :
    (∀ e, (id, e) ∉ s.points) ↔ t.get id = none := by
  rw [Option.eq_none_iff_forall_ne_some]
  exact forall_congr' fun e => not_congr (h.points id e)

theorem Stores.remove (h : Stores metric dimension s t) (id : VectorId) :
    (s.remove id).1 = .ok (t.get id).isSome ∧ Stores metric dimension (s.remove id).2 (t.erase id) ∧
      (t.get id = none → (s.remove id).2 = s) := by
  have hinv := inv_remove h.inv id
  rcases s.remove_cases id with ⟨hsome, heq⟩ | ⟨hnone, heq⟩
  · obtain ⟨e, he⟩ := hsome
    rw [heq] at hinv ⊢
    have hget := (h.points id e).mp he
    refine ⟨by rw [hget]; rfl, ⟨hinv, h.metric_eq, h.dimension_eq, ?_⟩, ?_⟩
    · intro id' e'
      rw [mem_eraseP_iff h.inv.nodup, h.points, OrderedTable.get_erase]
      by_cases hid : id' = id
      · simp [hid]
      · simp [hid]
    · intro hnone
      rw [hget] at hnone
      simp at hnone
  · -- nothing to remove
    have hget := (h.absent_iff id).mp hnone
    rw [heq, t.erase_of_none hget]
    exact ⟨by rw [hget]; rfl, h, fun _ => rfl⟩

theorem Stores.insert (h : Stores metric dimension s t) {id : VectorId} {e : Embedding}
    (hdim : e.dimension = dimension.get) (hnew : t.get id = none) :
    (s.insert id e).1 = .ok () ∧ Stores metric dimension (s.insert id e).2 (t.insert id e) := by
  have hinv := inv_insert h.inv id e
  rcases s.insert_cases id e with ⟨hne, -⟩ | ⟨-, hdup, -⟩ | ⟨-, -, heq⟩
  · rw [h.dimension_eq] at hne
    exact absurd hdim hne
  · obtain ⟨e', he'⟩ := hdup
    exact absurd he' ((h.absent_iff id).mpr hnew e')
  · rw [heq] at hinv ⊢
    refine ⟨rfl, hinv, h.metric_eq, h.dimension_eq, ?_⟩
    intro id' e'
    rw [List.mem_append, h.points, OrderedTable.get_insert, List.mem_singleton, Prod.mk.injEq]
    by_cases hid : id' = id
    · simp [hid, hnew, eq_comm]
    · simp [hid]

theorem Stores.insert_mismatch (h : Stores metric dimension s t) (id : VectorId) {e : Embedding}
    (hdim : e.dimension ≠ dimension.get) :
    s.insert id e = (.error (.dimensionMismatch dimension.get e.dimension), s) := by
  rw [← h.dimension_eq] at hdim ⊢
  exact if_pos hdim

theorem lawful_port (ops : F32Ops) : (port ops).Lawful dimension (Stores metric dimension) where
  len h := h.perm.length_eq
  remove h id := by
    obtain ⟨hanswer, hstores, hsame⟩ := h.remove id
    rw [port_remove, ends_call, ← Prod.mk.eta (p := FlatIndex.remove _ id), hanswer]
    exact ⟨rfl, hstores, hsame⟩
  insert_mismatch := by
    intro w t h id e hdim
    rw [port_insert, ends_call, h.insert_mismatch id hdim]
    exact ⟨rfl, rfl⟩
  insert := by
    intro w t h id e hdim hnew
    obtain ⟨hanswer, hstores⟩ := h.insert hdim hnew
    rw [port_insert, ends_call, ← Prod.mk.eta (p := FlatIndex.insert _ _ _), hanswer]
    exact hstores

end FlatIndex

namespace Collection

variable {metric : Metric} {dimension : Dimension} {U : Unicode} {f32 : F32Ops} {f64 : F64Ops}
  {c : Collection FlatIndex InMemoryLexicalIndex InMemoryPayloadStore} {m : EntryMap}

/-- The ports of a collection in memory over the flat index. -/
abbrev flatPorts (U : Unicode) (f32 : F32Ops) (f64 : F64Ops) :
    Ports FlatIndex InMemoryLexicalIndex InMemoryPayloadStore := 
  memoryPorts (FlatIndex.port f32) U f64

theorem hydrate_memory {I : Type} {V : VectorIndex I}
    {c : Collection I InMemoryLexicalIndex InMemoryPayloadStore} (n : Neighbor) :
    hydrate (memoryPorts V U f64) c n =
      pure { id := n.id, score := n.score, payload := c.payloads.get n.id } := rfl

/-- Of the ids a filter allows, all that are stored are those of entries that
    satisfy it. -/
theorem allowedIds_memory (f64 : F64Ops) {I : Type} {V : VectorIndex I}
    {Stores : I → OrderedTable VectorId Embedding → Prop}
    {c : Collection I InMemoryLexicalIndex InMemoryPayloadStore} (h : Refines Stores U c m)
    (matching : HashOrder) (filter : Option Filter) :
    ∃ allowed, allowedIds (memoryPorts V U f64) matching c filter = pure allowed ∧
      admissible allowed = m.considers f64 filter := by
  cases filter with
  | none => exact ⟨none, rfl, rfl⟩
  | some filter =>
    refine ⟨some (c.payloads.matchingIds f64 matching filter.compile), rfl, ?_⟩
    funext id
    show ((c.payloads.matchingIds f64 matching filter.compile).get id).isSome = _
    rw [InMemoryPayloadStore.matchingIds_eq f64 h.payloads, OrderedTable.get_mapValues,
      Option.isSome_map, OrderedTable.get_filter]
    show _ = (m.get id).any fun entry => entry.matches f64 filter
    cases m.get id with
    | none => rfl
    | some entry => cases hmatch : entry.matches f64 filter <;> simp [hmatch]

theorem resolveMetric_flat (h : Refines (FlatIndex.Stores metric dimension) U c m)
    (requested : Option Metric) :
    resolveMetric (flatPorts U f32 f64) c requested = pure (requested.getD metric) := by
  have hmetric : (flatPorts U f32 f64).index.metric c.index = metric := h.index.metric_eq
  unfold resolveMetric
  rw [hmetric]
  apply if_pos
  show requested.getD metric ∈ [Metric.cosine, Metric.dotProduct, Metric.euclidean]
  cases requested.getD metric <;> simp

/-- A search answers as the map does. -/
theorem search_refines (h : Refines (FlatIndex.Stores metric dimension) U c m)
    (matching : HashOrder) (query : SearchQuery) :
    (search (flatPorts U f32 f64) matching c query).run =
      some (m.search f32 f64 metric dimension query) := by
  obtain ⟨allowed, hallowed, hadmissible⟩ := allowedIds_memory f64 (V := FlatIndex.port f32) h
    matching query.filter
  have hpoints := hits_eq_of_mem_iff f32 (query.metric.getD metric) query.embedding.values query.k
    (m.considers f64 query.filter) (FlatIndex.nodup_points h.index.inv)
    (m.mapValues Entry.embedding).nodup_entries fun p => h.index.perm.mem_iff
  have hhydrate : hydrate (flatPorts U f32 f64) c = fun n : Neighbor =>
      pure { id := n.id, score := n.score, payload := (m.get n.id).bind Entry.payload } := by
    funext n
    rw [hydrate_memory, h.payloads]
  have hfound : (flatPorts U f32 f64).index.searchFiltered c.index query.embedding query.k
      (query.metric.getD metric) (m.considers f64 query.filter) =
      some (FlatIndex.searchFiltered f32 c.index query.embedding query.k
        (query.metric.getD metric) (m.considers f64 query.filter)) := rfl
  unfold search EntryMap.search
  rw [resolveMetric_flat h, hallowed, pure_bind, pure_bind, hadmissible, hfound,
    FlatIndex.searchFiltered, h.index.dimension_eq, hpoints, hhydrate]
  by_cases hdim : query.embedding.dimension = dimension.get
  · rw [if_neg (not_not.mpr hdim), if_neg (not_not.mpr hdim)]
    simp only [List.mapM_pure]
    rfl
  · rw [if_pos hdim, if_pos hdim]
    rfl

/-- **A collection refines a map.**  Every run of calls whose embeddings are of
    the index dimension answers as the map does; it panics exactly when the
    token counters overflow.  At its end the number of vectors, the documents
    and the payloads are those of the map, and so is the answer to every
    search, whatever order the hash maps are read in. -/
theorem run_refines_flat (U : Unicode) (f32 : F32Ops) (f64 : F64Ops) (metric : Metric)
    (dimension : Dimension) (calls : List CollectionOp)
    (hdim : ∀ op ∈ calls, OfDimension dimension op) :
    Option.Rel
      (fun r r' => r.1 = r'.1 ∧ r.2.len (flatPorts U f32 f64) = r'.2.len ∧
        (∀ id e, (id, e) ∈ r.2.index.points ↔ (r'.2.get id).map Entry.embedding = some e) ∧
        (r.2.lexical.Holds U fun id => (r'.2.get id).bind Entry.document) ∧
        (∀ id, r.2.payloads.get id = (r'.2.get id).bind Entry.payload) ∧
        ∀ matching query, (search (flatPorts U f32 f64) matching r.2 query).run =
          some (r'.2.search f32 f64 metric dimension query))
      (run (flatPorts U f32 f64) ⟨.new metric dimension, .new, .new⟩ calls)
      (EntryMap.run U f64 dimension .empty calls) := by
  have hlaw : (FlatIndex.port f32).Lawful dimension (FlatIndex.Stores metric dimension) :=
    FlatIndex.lawful_port f32
  have hstart : Refines (FlatIndex.Stores metric dimension) U
      ⟨.new metric dimension, .new, .new⟩ .empty :=
    ⟨FlatIndex.stores_new metric dimension, InMemoryLexicalIndex.holds_new U, fun _ => rfl⟩
  have hrun := run_refines f64 hlaw hstart (cleanRun_of_dimension hdim)
  apply rel_imp hrun
  intro r r' hr
  obtain ⟨hanswers, hrefines⟩ := hr
  refine ⟨hanswers, ?_, ?_, hrefines.lexical, hrefines.payloads, search_refines hrefines⟩
  · exact (hlaw.len hrefines.index).trans (r'.2.len_mapValues _)
  · intro id e
    rw [hrefines.index.points, OrderedTable.get_mapValues]

theorem finite_integer (value : Int64) :
    ∀ e ∈ (OrderedTable.ofList [("k", FieldValue.scalar (.integer value))]).entries,
      e.2.isFinite = true := by
  intro e he
  obtain rfl := List.mem_singleton.mp he
  rfl

/-- A payload of one integer field. -/
def integerPayload (value : Int64) : Payload :=
  ⟨.ofList [("k", .scalar (.integer value))], finite_integer value⟩

/-- An entry replaced by one without a document, and both entries deleted by
    their new payloads. -/
def replacedCalls : List CollectionOp :=
  [.upsert .ascending .ascending ⟨1⟩ (.single (F32.ofInt 3) (.refl true))
      (some InMemoryLexicalIndex.abaDocument) (some (integerPayload 1)),
    .upsert .ascending .ascending ⟨2⟩ (.single (F32.ofInt 5) (.refl true)) none
      (some (integerPayload 2)),
    .upsert .descending .ascending ⟨1⟩ (.single (F32.ofInt 7) (.refl true)) none
      (some (integerPayload 2)),
    .deleteByFilter .ascending .descending (fun _ => .ascending) (.eq "k" (.integer 2)),
    .delete .ascending ⟨1⟩]

theorem run_refines_flat_replaced :
    (run (flatPorts .ascii .small .small) ⟨.new .cosine .one, .new, .new⟩ replacedCalls).map
        (fun r => (r.1, r.2.len (flatPorts .ascii .small .small))) =
      some ([.upserted (.ok ()), .upserted (.ok ()), .upserted (.ok ()), .deletedMatching (.ok 2),
        .deleted (.ok false)], 0) := by
  have hdim : ∀ op ∈ replacedCalls, OfDimension .one op := by
    simp [replacedCalls, OfDimension, Embedding.single, Embedding.dimension, Dimension.one]
  have hrel := run_refines_flat .ascii .small .small .cosine .one replacedCalls hdim
  have hmap : EntryMap.run .ascii .small .one .empty replacedCalls =
      some ([.upserted (.ok ()), .upserted (.ok ()), .upserted (.ok ()), .deletedMatching (.ok 2),
        .deleted (.ok false)], .empty) := by decide +kernel
  rw [hmap] at hrel
  generalize run (flatPorts .ascii .small .small) ⟨.new .cosine .one, .new, .new⟩
    replacedCalls = r at hrel
  cases hrel with
  | some h => rw [Option.map_some, h.1, h.2.1, OrderedTable.len_empty]

end Collection

end EidosDB
