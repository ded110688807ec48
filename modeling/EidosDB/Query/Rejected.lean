import EidosDB.Hnsw.Exact
import EidosDB.Query.Refinement

/-! # Rejected Upserts

    An upsert takes the old vector out of the index before the index has
    accepted the new one.  When the new one is rejected, for its dimension,
    the old vector is gone while its document and payload stay.  So a
    rejected upsert goes unnoticed exactly when there was no old vector; and
    a run whose rejected upserts are all of that kind never leaves a document
    or a payload without a vector. -/

namespace EidosDB

open Effect

deriving instance DecidableEq for FlatIndex

/-! ## The HNSW index keeps the contract -/

namespace HnswIndex

variable {P : Platform} {config : HnswConfig} {dimension : Dimension} {s : HnswIndex}
  {t : OrderedTable VectorId Embedding}

/-- The index stores the points of a table, as a flat index would. -/
def Stores (config : HnswConfig) (dimension : Dimension) (s : HnswIndex)
    (t : OrderedTable VectorId Embedding) : Prop :=
  ∃ f, Sim config dimension s f ∧ f.Stores config.metric dimension t

theorem Stores.points (h : Stores config dimension s t) (id : VectorId) (e : Embedding) :
    (id, e) ∈ s.graph.points ↔ t.get id = some e := by
  obtain ⟨f, hsim, hflat⟩ := h
  rw [hsim.points, hflat.points]

theorem remove_absent (h : Inv config dimension s) {id : VectorId}
    (hnone : ∀ e, (id, e) ∉ s.graph.points) : (s.remove id).2 = s := by
  have hlive : s.graph.live id = none := by
    rw [Option.eq_none_iff_forall_ne_some]
    intro n hn
    obtain ⟨⟨_, e⟩, hp, rfl⟩ := List.mem_map.mp ((live_isSome_iff h.nodes id).mp (by rw [hn]; rfl))
    exact hnone e hp
  have houtcome := removeTracked_outcome h id
  show (s.removeTracked id).2 = s
  generalize (s.removeTracked id).1 = r at houtcome
  generalize (s.removeTracked id).2 = s' at houtcome
  cases houtcome with
  | absent => rfl
  | removed hsome =>
    rw [hlive] at hsome
    simp at hsome

theorem lawful_port (P : Platform) (levelFloat : LevelFloat) :
    (port P levelFloat).Lawful dimension (Stores config dimension) where
  len := by
    intro s t h
    obtain ⟨f, hsim, hflat⟩ := h
    exact hsim.len_eq.trans hflat.perm.length_eq
  remove := by
    intro w t h id
    obtain ⟨f, hsim, hflat⟩ := h
    obtain ⟨hanswer, hsim'⟩ := hsim.remove id
    obtain ⟨hflatAnswer, hflat', -⟩ := hflat.remove id
    rw [port_remove, ends_call, ← Prod.mk.eta (p := HnswIndex.remove _ id), hanswer, hflatAnswer]
    refine ⟨rfl, ⟨_, hsim', hflat'⟩, fun hnone => ?_⟩
    apply remove_absent hsim.inv
    intro e he
    rw [hsim.points, hflat.points, hnone] at he
    simp at he
  insert_mismatch := by
    intro w t h id e hdim
    obtain ⟨f, hsim, -⟩ := h
    rw [port_insert, ends_call, HnswIndex.insert]
    rcases insertTracked_cases (P := P) w.state levelFloat id e with
      ⟨-, hcall⟩ | ⟨heq, -⟩ | ⟨heq, -⟩
    · rw [hcall, hsim.inv.dimension_eq]
      exact ⟨rfl, rfl⟩
    · rw [hsim.inv.dimension_eq] at heq
      exact absurd heq hdim
    · rw [hsim.inv.dimension_eq] at heq
      exact absurd heq hdim
  insert := by
    intro w t h id e hdim hnew
    obtain ⟨f, hsim, hflat⟩ := h
    obtain ⟨s', hcall, hsim'⟩ := hsim.insert (P := P) levelFloat id e
    obtain ⟨hanswer, hflat'⟩ := hflat.insert hdim hnew
    rw [port_insert, ends_call, hcall, hanswer]
    exact ⟨_, hsim', hflat'⟩

/-- A reachable index stores some table. -/
theorem stores_of_inv (h : Inv config dimension s) :
    Stores config dimension s (.ofList s.graph.points) := by
  have hsim := sim_toFlat h
  refine ⟨_, hsim, hsim.flat, hsim.metric, hsim.dim, fun id e => ?_⟩
  exact (OrderedTable.get_ofList_iff hsim.flat.nodup id e).symm

end HnswIndex

namespace FlatIndex

/-- The states that inserts and removes reach from an empty index. -/
inductive Reachable (metric : Metric) (dimension : Dimension) : FlatIndex → Prop where
  | new : Reachable metric dimension (new metric dimension)
  | insert {s : FlatIndex} (id : VectorId) (e : Embedding) :
      Reachable metric dimension s → Reachable metric dimension (s.insert id e).2
  | remove {s : FlatIndex} (id : VectorId) :
      Reachable metric dimension s → Reachable metric dimension (s.remove id).2

theorem Reachable.stores {metric : Metric} {dimension : Dimension} {s : FlatIndex}
    (h : Reachable metric dimension s) : Stores metric dimension s (.ofList s.points) := by
  have hkept : s.Inv ∧ s.metric = metric ∧ s.dimension = dimension := by
    induction h with
    | new => exact ⟨inv_new metric dimension, rfl, rfl⟩
    | insert id e _ ih =>
      exact ⟨inv_insert ih.1 id e, (insert_metric _ id e).trans ih.2.1,
        (insert_dimension _ id e).trans ih.2.2⟩
    | remove id _ ih =>
      exact ⟨inv_remove ih.1 id, (remove_metric _ id).trans ih.2.1,
        (remove_dimension _ id).trans ih.2.2⟩
  refine ⟨hkept.1, hkept.2.1, hkept.2.2, fun id e => ?_⟩
  exact (OrderedTable.get_ofList_iff hkept.1.nodup id e).symm

end FlatIndex

namespace Collection

/-! ## What a caller can see -/

/-- A call that asks a collection something. -/
inductive Probe where
  | len
  | search (matching : HashOrder) (query : SearchQuery)
  | searchHybrid (orders : SearchOrders) (query : HybridQuery)
  | delete (order : HashOrder) (id : VectorId)

/-- What it answers; `none` for a panic. -/
inductive ProbeAnswer where
  | len (n : Nat)
  | hits (result : Option (Except QueryError (List SearchHit)))
  | deleted (result : Option (Except QueryError Bool))

section Probes

variable {I L P : Type} (ports : Ports I L P) (ops : F64Ops)

def probe (c : Collection I L P) : Probe → ProbeAnswer × Collection I L P
  | .len => (.len (c.len ports), c)
  | .search matching query => (.hits (search ports matching c query).run, c)
  | .searchHybrid orders query => (.hits (searchHybrid ports ops orders c query).run, c)
  | .delete order id =>
      let r := (delete ports order id).exec c
      (.deleted (r.map Prod.fst), (r.map Prod.snd).getD c)

/-- The answers to later calls. -/
def probes : Collection I L P → List Probe → List ProbeAnswer
  | _, [] => []
  | c, p :: rest => (probe ports ops c p).1 :: probes (probe ports ops c p).2 rest

/-- No sequence of later calls tells the two collections apart. -/
def SameAnswers (c c' : Collection I L P) : Prop :=
  ∀ later, probes ports ops c later = probes ports ops c' later

end Probes

/-! ## A rejected upsert -/

section Rejected

variable {I : Type} {V : VectorIndex I} {dimension : Dimension}
  {Stores : I → OrderedTable VectorId Embedding → Prop} {U : Unicode} {ops : F64Ops}
  {t : OrderedTable VectorId Embedding} {m : EntryMap}
  {w : World (Collection I InMemoryLexicalIndex InMemoryPayloadStore)}

/-- The lexical step may panic, but reports no error. -/
theorem ends_writeDocument_any (before after : HashOrder) (id : VectorId)
    (document : Option Document) :
    ends (writeDocument (memoryPorts V U ops) before after id document)
      (fun _ _ => True) (fun r _ => r = .panicked) w := by
  cases document with
  | some document =>
    rw [writeDocument, ends_onLexical]
    show ends ((InMemoryLexicalIndex.port U ops).insert before after id document) _ _ _
    rw [InMemoryLexicalIndex.port_insert, ends_call]
    cases InMemoryLexicalIndex.insert U before after id document w.state.lexical with
    | none => rfl
    | some s => trivial
  | none =>
    rw [writeDocument, ends_onLexical]
    show ends ((InMemoryLexicalIndex.port U ops).remove before id) _ _ _
    rw [InMemoryLexicalIndex.port_remove, ends_call]
    cases InMemoryLexicalIndex.remove before id w.state.lexical with
    | none => rfl
    | some s => trivial

/-- An upsert that reports an error has removed the vector of its id and done
    nothing else. -/
theorem ends_upsert_rejected (U : Unicode) (ops : F64Ops) (law : V.Lawful dimension Stores) (h : Stores w.state.index t)
    (before after : HashOrder) (id : VectorId) (e : Embedding) (document : Option Document)
    (payload : Option Payload) :
    ends (upsert (memoryPorts V U ops) before after id e document payload)
      (fun _ _ => True)
      (fun r w' => r = .panicked ∨ (Stores w'.state.index (t.erase id) ∧
        (t.get id = none → w'.state = w.state))) w := by
  unfold upsert
  rw [ends_bind, ends_onIndex]
  apply ends_mono (law.remove h id) _ (fun _ _ hfalse => hfalse.elim)
  intro _ w₁ hremoved
  obtain ⟨-, hstores, hsame⟩ := hremoved
  rw [ends_bind, ends_onIndex]
  by_cases hdim : e.dimension = dimension.get
  · have hnew : (t.erase id).get id = none := by rw [OrderedTable.get_erase, if_pos rfl]
    apply ends_mono (law.insert hstores hdim hnew) _ (fun _ _ hfalse => hfalse.elim)
    intro _ w₂ _
    rw [ends_bind]
    apply ends_mono (ends_writeDocument_any before after id document) _ (fun _ _ hp => Or.inl hp)
    intro _ w₃ _
    exact ends_mono (ends_writePayload id payload) (fun _ _ _ => trivial)
      (fun _ _ hfalse => hfalse.elim)
  · apply ends_mono (law.insert_mismatch hstores id hdim) (fun _ _ hfalse => hfalse.elim)
    intro r w₂ hrejected
    refine Or.inr ⟨?_, fun hnone => ?_⟩
    · dsimp only
      rw [hrejected.2]
      exact hstores
    · dsimp only
      rw [hrejected.2, hsame hnone]

/-- A rejected upsert goes unnoticed exactly when its id had no vector. -/
theorem sameAnswers_iff (law : V.Lawful dimension Stores)
    {c c' : Collection I InMemoryLexicalIndex InMemoryPayloadStore} (h : Stores c.index t)
    {before after : HashOrder} {id : VectorId} {e : Embedding} {document : Option Document}
    {payload : Option Payload} {error : QueryError}
    (hrejected : (upsert (memoryPorts V U ops) before after id e document payload).exec c =
      some (.error error, c')) :
    SameAnswers (memoryPorts V U ops) ops c c' ↔ t.get id = none := by
  have hstart : Stores (World.start c .none).state.index t := h
  obtain ⟨hstores, hsame⟩ : Stores c'.index (t.erase id) ∧ (t.get id = none → c' = c) := by
    rcases exec_cases (ends_upsert_rejected U ops law hstart before after id e
      document payload) with ⟨a, w', hexec, -⟩ | ⟨r, w', hexec, hr⟩
    · rw [hrejected] at hexec
      simp at hexec
    · rw [hrejected] at hexec
      rcases hr with rfl | hr
      · simp [Halt.result] at hexec
      · cases r with
        | err e =>
          obtain ⟨-, rfl⟩ : error = e ∧ c' = w'.state := by simpa [Halt.result] using hexec
          exact hr
        | crashed => simp [Halt.result] at hexec
        | panicked => simp [Halt.result] at hexec
  constructor
  · intro hanswers
    by_contra hsome
    obtain ⟨e', he'⟩ := Option.ne_none_iff_exists'.mp hsome
    -- the number of vectors tells the two apart
    have hlen : ProbeAnswer.len (V.len c.index) = .len (V.len c'.index) :=
      (List.cons.inj (hanswers [.len])).1
    have hcount := t.len_erase he'
    rw [law.len h, law.len hstores, ProbeAnswer.len.injEq] at hlen
    omega
  · intro hnone
    rw [hsame hnone]
    exact fun _ => rfl

end Rejected

/-- A rejected upsert goes unnoticed exactly when its id has no vector. -/
def RejectedUnnoticed {I : Type} (ports : Ports I InMemoryLexicalIndex InMemoryPayloadStore)
    (ops : F64Ops) (points : I → List (VectorId × Embedding))
    (c : Collection I InMemoryLexicalIndex InMemoryPayloadStore) : Prop :=
  ∀ before after id e document payload error c',
    (upsert ports before after id e document payload).exec c = some (.error error, c') →
    (SameAnswers ports ops c c' ↔ ∀ e', (id, e') ∉ points c.index)

theorem rejectedUnnoticed {I : Type} {V : VectorIndex I} {dimension : Dimension}
    {Stores : I → OrderedTable VectorId Embedding → Prop} {U : Unicode} {ops : F64Ops}
    {t : OrderedTable VectorId Embedding} {points : I → List (VectorId × Embedding)}
    (law : V.Lawful dimension Stores)
    (hpoints : ∀ {s t}, Stores s t → ∀ id e, (id, e) ∈ points s ↔ t.get id = some e)
    {c : Collection I InMemoryLexicalIndex InMemoryPayloadStore} (h : Stores c.index t) :
    RejectedUnnoticed (memoryPorts V U ops) ops points c := by
  intro before after id e document payload error c' hrejected
  rw [sameAnswers_iff law h hrejected, Option.eq_none_iff_forall_ne_some]
  exact forall_congr' fun e' => not_congr (hpoints h id e').symm

/-! ## Runs -/

section Runs

variable {I : Type} (points : I → List (VectorId × Embedding)) (dimension : Dimension)

/-- No id has a document or a payload without a vector. -/
def NoOrphans (c : Collection I InMemoryLexicalIndex InMemoryPayloadStore) : Prop :=
  ∀ id, (c.lexical.docs.get id).isSome = true ∨ (c.payloads.get id).isSome = true →
    ∃ e, (id, e) ∈ points c.index

/-- An upsert is of the index dimension, or for an id without a vector. -/
def CleanCall (c : Collection I InMemoryLexicalIndex InMemoryPayloadStore) :
    CollectionOp → Prop
  | .upsert _ _ id e _ _ => e.dimension = dimension.get ∨ ∀ e', (id, e') ∉ points c.index
  | _ => True

/-- The states of a run from `start` whose upserts are all clean. -/
inductive CleanlyReached (ports : Ports I InMemoryLexicalIndex InMemoryPayloadStore)
    (start : Collection I InMemoryLexicalIndex InMemoryPayloadStore) :
    Collection I InMemoryLexicalIndex InMemoryPayloadStore → Prop where
  | start : CleanlyReached ports start start
  | step {c c' : Collection I InMemoryLexicalIndex InMemoryPayloadStore} {op : CollectionOp}
      {answer : CollectionAnswer} : CleanlyReached ports start c → CleanCall points dimension c op →
      step ports c op = some (answer, c') → CleanlyReached ports start c'

variable {points dimension} {V : VectorIndex I}
  {Stores : I → OrderedTable VectorId Embedding → Prop} {U : Unicode} {ops : F64Ops}
  {c start : Collection I InMemoryLexicalIndex InMemoryPayloadStore} {m : EntryMap}

theorem noOrphans_of_refines
    (hpoints : ∀ {s t}, Stores s t → ∀ id e, (id, e) ∈ points s ↔ t.get id = some e)
    (h : Refines Stores U c m) : NoOrphans points c := by
  intro id hid
  have hentry : (m.get id).isSome = true := by
    rcases hid with hdoc | hpayload
    · have hstored := h.lexical.stored id
      cases hget : m.get id with
      | some entry => rfl
      | none =>
        rw [hget] at hstored
        obtain ⟨stats, hstats⟩ := Option.isSome_iff_exists.mp hdoc
        rw [hstats] at hstored
        simp at hstored
    · rw [h.payloads] at hpayload
      cases hget : m.get id with
      | some entry => rfl
      | none =>
        rw [hget] at hpayload
        simp at hpayload
  obtain ⟨entry, hget⟩ := Option.isSome_iff_exists.mp hentry
  refine ⟨entry.embedding, (hpoints h.index id _).mpr ?_⟩
  rw [OrderedTable.get_mapValues, hget]
  rfl

theorem CleanlyReached.refines (law : V.Lawful dimension Stores)
    (hpoints : ∀ {s t}, Stores s t → ∀ id e, (id, e) ∈ points s ↔ t.get id = some e)
    (hstart : Refines Stores U start .empty)
    (hreach : CleanlyReached points dimension (memoryPorts V U ops) start c) :
    ∃ m, Refines Stores U c m := by
  induction hreach with
  | start => exact ⟨_, hstart⟩
  | @step c c' op answer _ hclean hstep ih =>
    obtain ⟨m, hrefines⟩ := ih
    have hclean' : Clean dimension m op := by
      cases op with
      | upsert before after id e document payload =>
        refine hclean.imp_right fun habsent => ?_
        cases hget : m.get id with
        | none => rfl
        | some entry =>
          apply absurd ((hpoints hrefines.index id entry.embedding).mpr ?_) (habsent _)
          rw [OrderedTable.get_mapValues, hget]
          rfl
      | delete => trivial
      | deleteByFilter => trivial
    have hrel := step_refines ops law hrefines hclean'
    rw [hstep] at hrel
    generalize m.step U ops dimension op = r at hrel
    cases hrel with
    | some h => exact ⟨_, h.2⟩

end Runs

/-! ## Over both indexes -/

/-- The ports of a collection in memory over the HNSW index. -/
abbrev hnswPorts (P : Platform) (levelFloat : LevelFloat) (U : Unicode) (ops : F64Ops) :
    Ports HnswIndex InMemoryLexicalIndex InMemoryPayloadStore :=
  memoryPorts (HnswIndex.port P levelFloat) U ops

/-- **When a rejected upsert changes nothing.**  In every state a rejected
    upsert is unnoticed by all later calls exactly when its id has no vector;
    and in every run in which upserts are of the index dimension or for ids
    without a vector, no document and no payload is ever without a vector. -/
theorem rejected_upsert (P : Platform) (levelFloat : LevelFloat) (U : Unicode) (f32 : F32Ops)
    (ops : F64Ops) :
    (∀ metric dimension (c : Collection FlatIndex InMemoryLexicalIndex InMemoryPayloadStore),
      (FlatIndex.Reachable metric dimension c.index →
        RejectedUnnoticed (flatPorts U f32 ops) ops FlatIndex.points c) ∧
      (CleanlyReached FlatIndex.points dimension (flatPorts U f32 ops)
        ⟨.new metric dimension, .new, .new⟩ c → NoOrphans FlatIndex.points c)) ∧
    ∀ config dimension (c : Collection HnswIndex InMemoryLexicalIndex InMemoryPayloadStore),
      (HnswIndex.Reachable P config dimension c.index →
        RejectedUnnoticed (hnswPorts P levelFloat U ops) ops (fun s => s.graph.points) c) ∧
      (CleanlyReached (fun s => s.graph.points) dimension (hnswPorts P levelFloat U ops)
        ⟨.new config dimension, .new, .new⟩ c → NoOrphans (fun s => s.graph.points) c) := by
  constructor
  · intro metric dimension c
    have hlaw : (FlatIndex.port f32).Lawful dimension (FlatIndex.Stores metric dimension) :=
      FlatIndex.lawful_port f32
    have hstart : Refines (FlatIndex.Stores metric dimension) U
        ⟨.new metric dimension, .new, .new⟩ .empty :=
      ⟨FlatIndex.stores_new metric dimension, InMemoryLexicalIndex.holds_new U, fun _ => rfl⟩
    refine ⟨fun hreach => ?_, fun hreach => ?_⟩
    · exact rejectedUnnoticed hlaw (fun hs => hs.points) hreach.stores
    · obtain ⟨m, hrefines⟩ := hreach.refines hlaw (fun hs => hs.points) hstart
      exact noOrphans_of_refines (fun hs => hs.points) hrefines
  · intro config dimension c
    have hlaw : (HnswIndex.port P levelFloat).Lawful dimension (HnswIndex.Stores config dimension) :=
      HnswIndex.lawful_port P levelFloat
    have hstart : Refines (HnswIndex.Stores config dimension) U
        ⟨.new config dimension, .new, .new⟩ .empty :=
      ⟨⟨_, .new config dimension, FlatIndex.stores_new config.metric dimension⟩,
        InMemoryLexicalIndex.holds_new U, fun _ => rfl⟩
    refine ⟨fun hreach => ?_, fun hreach => ?_⟩
    · exact rejectedUnnoticed hlaw (fun hs => hs.points)
        (HnswIndex.stores_of_inv (HnswIndex.reachable_inv hreach))
    · obtain ⟨m, hrefines⟩ := hreach.refines hlaw (fun hs => hs.points) hstart
      exact noOrphans_of_refines (fun hs => hs.points) hrefines

theorem finite_two : ∀ v ∈ [F32.ofInt 5, F32.ofInt 7], v.isFinite = true := by decide

/-- A vector of two components. -/
def twoComponents : Embedding :=
  ⟨[F32.ofInt 5, F32.ofInt 7], List.cons_ne_nil _ _, finite_two⟩

/-- One vector with a document, in a collection of dimension one. -/
def heldCollection : Collection FlatIndex InMemoryLexicalIndex InMemoryPayloadStore where
  index :=
    { metric := .cosine, dimension := .one
      points := [(⟨1⟩, .single (F32.ofInt 3) (.refl true))] }
  lexical :=
    { docs := .ofList [(⟨1⟩, { termFrequencies := .ofList [("a", 2), ("b", 1)], length := 3 })]
      docFrequencies := .ofList [("a", 1), ("b", 1)]
      totalTokens := 3 }
  payloads := .new

/-- `heldCollection` without its vector. -/
def orphanedCollection : Collection FlatIndex InMemoryLexicalIndex InMemoryPayloadStore :=
  { heldCollection with index := .new .cosine .one }

/-- The call that makes `heldCollection`. -/
def firstUpsert : CollectionOp :=
  .upsert .ascending .ascending ⟨1⟩ (.single (F32.ofInt 3) (.refl true))
    (some InMemoryLexicalIndex.abaDocument) none

theorem reached_held : CleanlyReached FlatIndex.points .one (flatPorts .ascii .small .small)
    ⟨.new .cosine .one, .new, .new⟩ heldCollection := by
  have hclean : CleanCall FlatIndex.points .one ⟨.new .cosine .one, .new, .new⟩ firstUpsert :=
    Or.inl rfl
  have hstep : step (flatPorts .ascii .small .small) ⟨.new .cosine .one, .new, .new⟩ firstUpsert =
      some (.upserted (.ok ()), heldCollection) := by decide +kernel
  exact .step .start hclean hstep

/-- An upsert of two components in dimension one is rejected, and the vector
    it was to replace is gone. -/
theorem not_rejected_upsert :
    CleanlyReached FlatIndex.points .one (flatPorts .ascii .small .small)
      ⟨.new .cosine .one, .new, .new⟩ heldCollection ∧
    (upsert (flatPorts .ascii .small .small) .ascending .ascending ⟨1⟩ twoComponents none
      none).exec heldCollection =
        some (.error (.index (.dimensionMismatch 1 2)), orphanedCollection) ∧
    ¬ SameAnswers (flatPorts .ascii .small .small) .small heldCollection orphanedCollection ∧
    ¬ NoOrphans FlatIndex.points orphanedCollection := by
  refine ⟨reached_held, by decide +kernel, ?_, ?_⟩
  · intro hanswers
    have hlen : ProbeAnswer.len 1 = .len 0 := (List.cons.inj (hanswers [.len])).1
    simp at hlen
  · intro hnone
    obtain ⟨e, he⟩ := hnone ⟨1⟩ (Or.inl (by decide +kernel))
    simp [orphanedCollection, FlatIndex.new] at he

/-- The same upsert for an id without a vector goes unnoticed. -/
theorem rejected_upsert_absent :
    (upsert (flatPorts .ascii .small .small) .ascending .ascending ⟨2⟩ twoComponents none
      none).exec heldCollection =
        some (.error (.index (.dimensionMismatch 1 2)), heldCollection) ∧
    SameAnswers (flatPorts .ascii .small .small) .small heldCollection heldCollection ∧
    NoOrphans FlatIndex.points heldCollection := by
  have hexec : (upsert (flatPorts .ascii .small .small) .ascending .ascending ⟨2⟩ twoComponents none
      none).exec heldCollection =
        some (.error (.index (.dimensionMismatch 1 2)), heldCollection) := by decide +kernel
  have hreach : FlatIndex.Reachable .cosine .one heldCollection.index :=
    .insert ⟨1⟩ (.single (F32.ofInt 3) (.refl true)) .new
  have hboth := (rejected_upsert .small .base2 .ascii .small .small).1 .cosine .one
    heldCollection
  refine ⟨hexec, ?_, hboth.2 reached_held⟩
  apply (hboth.1 hreach _ _ _ _ _ _ _ _ hexec).mpr
  simp [heldCollection]

end Collection

end EidosDB
