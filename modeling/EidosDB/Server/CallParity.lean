import EidosDB.Query.StandIns
import EidosDB.Server.Requests
import EidosDB.Storage.StandIns

/-! # Calls over Stores that Stand In for Others

    If the stores of one server stand in for those of another one, a call on
    related collections is answered alike and leaves related collections.
    There are two exceptions.  A file may be too large to grow; and a call
    that panics poisons the lock on both sides, after which the collections
    are not compared any more. -/

namespace EidosDB

open Effect

/-! ## Collections of both kinds -/

section Kinds

variable {I J L P I' J' L' P' : Type}

/-- Two collections of one kind whose stores are related. -/
def KindStandsFor (RI : I → I' → Prop) (RJ : J → J' → Prop) (RL : L → L' → Prop)
    (RP : P → P' → Prop) : CollectionKind I J L P → CollectionKind I' J' L' P' → Prop
  | .flat c, .flat c' => Collection.StandsFor RI RL RP c c'
  | .hnsw c, .hnsw c' => Collection.StandsFor RJ RL RP c c'
  | _, _ => False

/-- All stores of one server stand in for those of another. -/
structure KindStores.StandIn (stores : KindStores I J L P) (stores' : KindStores I' J' L' P')
    (dimension : Dimension) (AbsentI : VectorId → I' → Prop) (AbsentJ : VectorId → J' → Prop)
    (RI : I → I' → Prop) (RJ : J → J' → Prop) (RL : L → L' → Prop) (RP : P → P' → Prop) :
    Prop where
  flat : stores.flat.StandIn Blameless stores'.flat dimension AbsentI RI RL RP
  hnsw : stores.hnsw.StandIn Blameless stores'.hnsw dimension AbsentJ RJ RL RP
  compactFlat : Simulates Interrupted RI stores.compactFlat stores'.compactFlat fun _ => RI
  compactHnsw : Simulates Interrupted RJ stores.compactHnsw stores'.compactHnsw fun _ => RJ

/-- The error of a store whose file cannot grow. -/
def QueryError.TooLarge (e : QueryError) : Prop :=
  e = .index (StorageError.io .fileTooLarge).toIndexError

theorem error_of_blameless (r : Halt QueryError) (h : Blameless none r) :
    ∃ e, r = .err e ∧ e.TooLarge := by
  cases r with
  | err e => exact ⟨e, rfl, h.2 (by simp)⟩
  | crashed => cases h
  | panicked => cases h

theorem error_of_interrupted (r : Halt StorageError) (h : Interrupted none r) :
    ∃ e, r = .err e ∧ e = .io .fileTooLarge := by
  cases r with
  | err e => exact ⟨e, rfl, h.2 (by simp)⟩
  | crashed => cases h
  | panicked => cases h

variable {stores : KindStores I J L P} {stores' : KindStores I' J' L' P'} {dimension : Dimension}
  {AbsentI : VectorId → I' → Prop} {AbsentJ : VectorId → J' → Prop} {RI : I → I' → Prop}
  {RJ : J → J' → Prop} {RL : L → L' → Prop} {RP : P → P' → Prop}
  {k : CollectionKind I J L P} {k' : CollectionKind I' J' L' P'}

theorem exec_follows {ε δ α : Type} {Ex : Option Stop → Halt ε → Prop} {Excused : ε → Prop}
    {flat : Effect ε (Collection I L P) α} {hnsw : Effect ε (Collection J L P) α}
    {flat' : Effect δ (Collection I' L' P') α} {hnsw' : Effect δ (Collection J' L' P') α}
    (hflat : Simulates Ex (Collection.StandsFor RI RL RP) flat flat'
      fun _ => Collection.StandsFor RI RL RP)
    (hhnsw : Simulates Ex (Collection.StandsFor RJ RL RP) hnsw hnsw'
      fun _ => Collection.StandsFor RJ RL RP)
    (hex : ∀ r, Ex none r → ∃ e, r = .err e ∧ Excused e) (hk : KindStandsFor RI RJ RL RP k k') :
    Follows Excused (KindStandsFor RI RJ RL RP) (k.exec flat hnsw) (k'.exec flat' hnsw') := by
  cases k with
  | flat c =>
    cases k' with
    | flat c' =>
      unfold CollectionKind.exec
      exact (hflat.follows hex hk).map_state fun _ _ hc => hc
    | hnsw c' => exact absurd hk id
  | hnsw c =>
    cases k' with
    | flat c' => exact absurd hk id
    | hnsw c' =>
      unfold CollectionKind.exec
      exact (hhnsw.follows hex hk).map_state fun _ _ hc => hc

theorem simulates_onIndexMut {I I' : Type} {R : I → I' → Prop} {m : Effect StorageError I Unit}
    {m' : Effect StorageError I' Unit} (hm : Simulates Interrupted R m m' fun _ => R) :
    Simulates Interrupted (Collection.StandsFor R RL RP) (CollectionKind.onIndexMut m)
      (CollectionKind.onIndexMut m') fun _ => Collection.StandsFor R RL RP := by
  apply simulates_zoom
  intro c c' hc
  apply simulates_mono hm
  · rintro s t ⟨rfl, rfl⟩
    exact hc.index
  · exact fun _ _ _ hr => ⟨hr, hc.lexical, hc.payloads⟩

/-- Compaction of the index, with the error of either kind. -/
theorem simulates_compact {I I' : Type} {R : I → I' → Prop} {m : Effect StorageError I Unit}
    {m' : Effect StorageError I' Unit} (hm : Simulates Interrupted R m m' fun _ => R)
    {f : StorageError → ServerError}
    (hstatus : ∀ e, serverErrorToStatus (f e) = ⟨.internal, e.text⟩) :
    Simulates
      (fun how r => ∃ (r₁ : Halt StorageError) (f : StorageError → ServerError),
        Interrupted how r₁ ∧ r = r₁.map f ∧ ∀ e, serverErrorToStatus (f e) = ⟨.internal, e.text⟩)
      (Collection.StandsFor R RL RP) (mapErr f (CollectionKind.onIndexMut m))
      (mapErr f (CollectionKind.onIndexMut m')) fun _ => Collection.StandsFor R RL RP :=
  simulates_mapErr (simulates_onIndexMut hm) fun _ r hr => ⟨r, f, hr, rfl, hstatus⟩

section Calls

variable (h : stores.StandIn stores' dimension AbsentI AbsentJ RI RJ RL RP)
  (hk : KindStandsFor RI RJ RL RP k k')

include h hk

theorem upsert_follows (orders : HashOrder × HashOrder) {d : DecodedPoint}
    (hdim : d.embedding.dimension = dimension.get) :
    Follows QueryError.TooLarge (KindStandsFor RI RJ RL RP)
      (k.upsert stores.toKindPorts orders d) (k'.upsert stores'.toKindPorts orders d) := by
  have hexec : ∀ {I J L P : Type} (stores : KindStores I J L P) (k : CollectionKind I J L P),
      k.upsert stores.toKindPorts orders d = k.exec
        (Collection.upsert stores.flat orders.1 orders.2 d.id d.embedding d.document d.payload)
        (Collection.upsert stores.hnsw orders.1 orders.2 d.id d.embedding d.document d.payload) := by
    intro _ _ _ _ stores k
    cases k <;> rfl
  rw [hexec, hexec]
  exact exec_follows (Collection.simulates_upsert h.flat _ _ d.id hdim _ _)
    (Collection.simulates_upsert h.hnsw _ _ d.id hdim _ _) error_of_blameless hk

theorem delete_follows (order : HashOrder) (id : VectorId) :
    Follows QueryError.TooLarge (KindStandsFor RI RJ RL RP) (k.delete stores order id)
      (k'.delete stores' order id) :=
  exec_follows (Collection.simulates_delete h.flat order id)
    (Collection.simulates_delete h.hnsw order id) error_of_blameless hk

theorem deleteByFilter_follows (matching each : HashOrder) (orders : VectorId → HashOrder)
    (filter : Filter) :
    Follows QueryError.TooLarge (KindStandsFor RI RJ RL RP)
      (k.deleteByFilter stores matching each orders filter)
      (k'.deleteByFilter stores' matching each orders filter) :=
  exec_follows (Collection.simulates_deleteByFilter h.flat matching each orders filter)
    (Collection.simulates_deleteByFilter h.hnsw matching each orders filter) error_of_blameless hk

theorem compact_follows :
    Follows (fun e => serverErrorToStatus e = ⟨.internal, (StorageError.io .fileTooLarge).text⟩)
      (KindStandsFor RI RJ RL RP) (k.compact stores) (k'.compact stores') := by
  refine exec_follows (simulates_compact h.compactFlat fun _ => rfl)
    (simulates_compact h.compactHnsw fun _ => rfl) ?_ hk
  rintro _ ⟨r, f, hr, rfl, hstatus⟩
  obtain ⟨e, rfl, rfl⟩ := error_of_interrupted r hr
  exact ⟨_, rfl, hstatus _⟩

theorem len_eq_of_standsFor : k.len stores = k'.len stores' := by
  cases k with
  | flat c =>
    cases k' with
    | flat c' => exact Collection.len_standsFor h.flat hk
    | hnsw c' => exact absurd hk id
  | hnsw c =>
    cases k' with
    | flat c' => exact absurd hk id
    | hnsw c' => exact Collection.len_standsFor h.hnsw hk

theorem search_eq_of_standsFor (matching : HashOrder) (query : SearchQuery) :
    k.search stores matching query = k'.search stores' matching query := by
  cases k with
  | flat c =>
    cases k' with
    | flat c' => exact Collection.search_standsFor h.flat hk matching query
    | hnsw c' => exact absurd hk id
  | hnsw c =>
    cases k' with
    | flat c' => exact absurd hk id
    | hnsw c' => exact Collection.search_standsFor h.hnsw hk matching query

theorem searchHybrid_eq_of_standsFor (ops : F64Ops) (orders : SearchOrders) (query : HybridQuery) :
    k.searchHybrid stores ops orders query = k'.searchHybrid stores' ops orders query := by
  cases k with
  | flat c =>
    cases k' with
    | flat c' => exact Collection.searchHybrid_standsFor h.flat hk ops orders query
    | hnsw c' => exact absurd hk id
  | hnsw c =>
    cases k' with
    | flat c' => exact absurd hk id
    | hnsw c' => exact Collection.searchHybrid_standsFor h.hnsw hk ops orders query

end Calls

end Kinds

/-! ## Replies -/

/-- The reply of a server whose file cannot grow. -/
def Status.TooLarge (status : Status) : Prop :=
  status = queryErrorToStatus (.index (StorageError.io .fileTooLarge).toIndexError) ∨
    status = ⟨.internal, (StorageError.io .fileTooLarge).text⟩

theorem tooLarge_of_query {e : QueryError} (h : e.TooLarge) : (queryErrorToStatus e).TooLarge :=
  Or.inl (congrArg queryErrorToStatus h)

/-- How a call may be answered beside the same call on related collections. -/
inductive Agreed {α σ τ : Type} (Q : σ → τ → Prop) : Except Status α × σ → Except Status α × τ → Prop
    where
  | same {answer : Except Status α} {s : σ} {t : τ} (related : Q s t) :
      Agreed Q (answer, s) (answer, t)
  /-- The lock is poisoned on both sides. -/
  | internal {status : Status} {s : σ} {t : τ} (code : status.code = .internal) :
      Agreed Q (.error status, s) (.error status, t)
  | tooLarge {status : Status} {s : σ} {r : Except Status α × τ} (excuse : status.TooLarge) :
      Agreed Q (.error status, s) r

namespace Agreed

variable {α β σ τ σ' τ' : Type} {Q : σ → τ → Prop} {a : Except Status α} {a' : Except Status α}
  {s : σ} {t : τ}

theorem map (h : Agreed Q (a, s) (a', t)) (f : α → β) : Agreed Q (a.map f, s) (a'.map f, t) := by
  cases h with
  | same related => exact .same related
  | internal code => exact .internal code
  | tooLarge excuse => exact .tooLarge excuse

theorem map_state {Q' : σ' → τ' → Prop} {f : σ → σ'} {g : τ → τ'} (h : Agreed Q (a, s) (a', t))
    (hQ : Q s t → Q' (f s) (g t)) : Agreed Q' (a, f s) (a', g t) := by
  cases h with
  | same related => exact .same (hQ related)
  | internal code => exact .internal code
  | tooLarge excuse => exact .tooLarge excuse

end Agreed

/-! ## Handles -/

section Handlers

variable {I J L P I' J' L' P' : Type}

/-- Two healthy handles of a collection with the metadata. -/
structure HandleStandsFor (K : CollectionMeta → CollectionKind I J L P →
    CollectionKind I' J' L' P' → Prop) (metadata : CollectionMeta)
    (h : CollectionHandle I J L P) (h' : CollectionHandle I' J' L' P') : Prop where
  clean : h.poisoned = false
  clean' : h'.poisoned = false
  dimension : h.dimension = metadata.dimension
  dimension' : h'.dimension = metadata.dimension
  inner : K metadata h.inner h'.inner

/-- The collections of two servers with the same metadata. -/
def HandlesStandFor (K : CollectionMeta → CollectionKind I J L P → CollectionKind I' J' L' P' → Prop)
    (metas : OrderedTable String CollectionMeta) (handles : Handles I J L P)
    (handles' : Handles I' J' L' P') : Prop :=
  ∀ name, match metas.get name with
    | none => handles.get name = none ∧ handles'.get name = none
    | some metadata => ∃ h h', handles.get name = some h ∧ handles'.get name = some h' ∧
        HandleStandsFor K metadata h h'

variable {K : CollectionMeta → CollectionKind I J L P → CollectionKind I' J' L' P' → Prop}
  {metas : OrderedTable String CollectionMeta} {metadata : CollectionMeta}
  {handles : Handles I J L P} {handles' : Handles I' J' L' P'} {h : CollectionHandle I J L P}
  {h' : CollectionHandle I' J' L' P'}

/-- What a name leads to on both sides. -/
theorem HandlesStandFor.cases (hs : HandlesStandFor K metas handles handles') (name : String) :
    (metas.get name = none ∧ handles.get name = none ∧ handles'.get name = none) ∨
    ∃ metadata h h', metas.get name = some metadata ∧ handles.get name = some h ∧
      handles'.get name = some h' ∧ HandleStandsFor K metadata h h' := by
  have hname := hs name
  cases hmeta : metas.get name with
  | none =>
    rw [hmeta] at hname
    exact Or.inl ⟨rfl, hname⟩
  | some metadata =>
    rw [hmeta] at hname
    obtain ⟨h, h', hget, hget', hstands⟩ := hname
    exact Or.inr ⟨metadata, h, h', rfl, hget, hget', hstands⟩

theorem HandlesStandFor.insert (hs : HandlesStandFor K metas handles handles') {name : String}
    (hmeta : metas.get name = some metadata) (hstands : HandleStandsFor K metadata h h') :
    HandlesStandFor K metas (handles.insert name h) (handles'.insert name h') := by
  intro other
  by_cases heq : other = name
  · subst heq
    rw [hmeta]
    exact ⟨h, h', OrderedTable.get_insert_self _ _ _, OrderedTable.get_insert_self _ _ _, hstands⟩
  · rw [OrderedTable.get_insert_ne _ _ heq, OrderedTable.get_insert_ne _ _ heq]
    exact hs other

/-- A write under the lock. -/
theorem runBlocking_agrees {α : Type}
    {f : CollectionKind I J L P → Outcome Status α × CollectionKind I J L P}
    {f' : CollectionKind I' J' L' P' → Outcome Status α × CollectionKind I' J' L' P'}
    (hstands : HandleStandsFor K metadata h h')
    (hf : Follows Status.TooLarge (K metadata) (f h.inner) (f' h'.inner)) :
    Agreed (HandleStandsFor K metadata) (runBlocking f h) (runBlocking f' h') := by
  unfold runBlocking
  rw [if_neg (by rw [hstands.clean]; decide), if_neg (by rw [hstands.clean']; decide)]
  generalize f h.inner = r at hf ⊢
  generalize f' h'.inner = r' at hf ⊢
  cases hf with
  | ok related => exact .same { hstands with inner := related }
  | panicked => exact .internal rfl
  | excused excuse => exact .tooLarge excuse

/-- A write of which the error becomes a status. -/
theorem runBlocking_mapErr_agrees {ε α : Type} {Excused : ε → Prop} {status : ε → Status}
    {f : CollectionKind I J L P → Outcome ε α × CollectionKind I J L P}
    {f' : CollectionKind I' J' L' P' → Outcome ε α × CollectionKind I' J' L' P'}
    (hstands : HandleStandsFor K metadata h h')
    (hf : Follows Excused (K metadata) (f h.inner) (f' h'.inner))
    (hexcused : ∀ e, Excused e → (status e).TooLarge) :
    Agreed (HandleStandsFor K metadata)
      (runBlocking (fun kind => ((f kind).1.mapErr status, (f kind).2)) h)
      (runBlocking (fun kind => ((f' kind).1.mapErr status, (f' kind).2)) h') := by
  apply runBlocking_agrees hstands
  generalize f h.inner = r at hf ⊢
  generalize f' h'.inner = r' at hf ⊢
  exact hf.mapErr hexcused

/-- A read under the lock. -/
theorem runBlockingRead_eq {α : Type} {f : CollectionKind I J L P → Option (Except Status α)}
    {f' : CollectionKind I' J' L' P' → Option (Except Status α)}
    (hstands : HandleStandsFor K metadata h h') (hf : f h.inner = f' h'.inner) :
    runBlockingRead f h = runBlockingRead f' h' := by
  unfold runBlockingRead
  rw [hstands.clean, hstands.clean', hf]

/-- The stores on which the calls of two servers are compared: those of a
    collection with the metadata. -/
structure StoresStandIn (stores : KindStores I J L P) (stores' : KindStores I' J' L' P')
    (K : CollectionMeta → CollectionKind I J L P → CollectionKind I' J' L' P' → Prop) : Prop where
  upsert {metadata : CollectionMeta} {k : CollectionKind I J L P}
    {k' : CollectionKind I' J' L' P'} (hk : K metadata k k') (orders : HashOrder × HashOrder)
    {d : DecodedPoint} (hdim : d.embedding.dimension = metadata.dimension.get) :
    Follows QueryError.TooLarge (K metadata) (k.upsert stores.toKindPorts orders d)
      (k'.upsert stores'.toKindPorts orders d)
  delete {metadata : CollectionMeta} {k : CollectionKind I J L P}
    {k' : CollectionKind I' J' L' P'} (hk : K metadata k k') (order : HashOrder) (id : VectorId) :
    Follows QueryError.TooLarge (K metadata) (k.delete stores order id)
      (k'.delete stores' order id)
  deleteByFilter {metadata : CollectionMeta} {k : CollectionKind I J L P}
    {k' : CollectionKind I' J' L' P'} (hk : K metadata k k') (matching each : HashOrder)
    (orders : VectorId → HashOrder) (filter : Filter) :
    Follows QueryError.TooLarge (K metadata) (k.deleteByFilter stores matching each orders filter)
      (k'.deleteByFilter stores' matching each orders filter)
  compact {metadata : CollectionMeta} {k : CollectionKind I J L P}
    {k' : CollectionKind I' J' L' P'} (hk : K metadata k k') :
    Follows (fun e => serverErrorToStatus e = ⟨.internal, (StorageError.io .fileTooLarge).text⟩)
      (K metadata) (k.compact stores) (k'.compact stores')
  len {metadata : CollectionMeta} {k : CollectionKind I J L P}
    {k' : CollectionKind I' J' L' P'} (hk : K metadata k k') : k.len stores = k'.len stores'
  search {metadata : CollectionMeta} {k : CollectionKind I J L P}
    {k' : CollectionKind I' J' L' P'} (hk : K metadata k k') (matching : HashOrder)
    (query : SearchQuery) : k.search stores matching query = k'.search stores' matching query
  searchHybrid {metadata : CollectionMeta} {k : CollectionKind I J L P}
    {k' : CollectionKind I' J' L' P'} (hk : K metadata k k') (ops : F64Ops) (orders : SearchOrders)
    (query : HybridQuery) :
    k.searchHybrid stores ops orders query = k'.searchHybrid stores' ops orders query

section Calls

variable {stores : KindStores I J L P} {stores' : KindStores I' J' L' P'}
  (hin : StoresStandIn stores stores' K)

include hin

/-- The loop over the points of a batch. -/
theorem upsertEach_follows (orders : UpsertOrders) (points : List DecodedPoint) :
    ∀ (n : Nat) (k : CollectionKind I J L P) (k' : CollectionKind I' J' L' P'), K metadata k k' →
    (∀ d ∈ points, d.embedding.dimension = metadata.dimension.get) →
    Follows Status.TooLarge (K metadata) (upsertEach stores.toKindPorts orders n points k)
      (upsertEach stores'.toKindPorts orders n points k') := by
  induction points with
  | nil => exact fun _ _ _ hk _ => .ok hk
  | cons d rest ih =>
    intro n k k' hk hdims
    have hone := hin.upsert hk (orders n) (hdims d List.mem_cons_self)
    unfold upsertEach
    generalize k.upsert stores.toKindPorts (orders n) d = r at hone ⊢
    generalize k'.upsert stores'.toKindPorts (orders n) d = r' at hone ⊢
    cases hone with
    | ok related =>
      exact ih (n + 1) _ _ related fun d hd => hdims d (List.mem_cons_of_mem _ hd)
    | panicked => exact .panicked
    | excused excuse => exact .excused (tooLarge_of_query excuse)

omit hin in
theorem dims_of_ensureDimension {points : List DecodedPoint} {expected : Nat}
    (hok : ensureDimension points expected = .ok ()) :
    ∀ d ∈ points, d.embedding.dimension = expected := by
  unfold ensureDimension at hok
  split at hok
  · cases hok
  · next hnone =>
    intro d hd
    have hall := List.find?_eq_none.mp hnone d.embedding.dimension (List.mem_map_of_mem hd)
    simpa using hall

variable (hs : HandlesStandFor K metas handles handles')

include hs

theorem upsert_agrees (order : HashOrder) (orders : HashOrder × HashOrder)
    (request : Pb.UpsertRequest) :
    Agreed (HandlesStandFor K metas)
      (EidosDbHandler.upsert stores order orders handles request)
      (EidosDbHandler.upsert stores' order orders handles' request) := by
  unfold EidosDbHandler.upsert
  rcases hs.cases request.collection with
    ⟨-, hget, hget'⟩ | ⟨metadata, h, h', hmeta, hget, hget', hstands⟩
  · rw [hget, hget']
    exact .same hs
  · rw [hget, hget']
    cases request.point with
    | none => exact .same hs
    | some point =>
      dsimp only
      rw [hstands.dimension, hstands.dimension']
      by_cases hlen : point.vector.length ≠ metadata.dimension.get
      · rw [if_pos hlen, if_pos hlen]
        exact .same hs
      · rw [if_neg hlen, if_neg hlen]
        cases hdecode : pointFromPb order point with
        | error e => exact .same hs
        | ok d =>
          -- the decoded embedding has the components of the message
          have hdim : d.embedding.dimension = metadata.dimension.get := by
            have hpoint := (inverse_point order).encode_of_ok hdecode
            rw [← not_not.mp hlen, ← hpoint]
            rfl
          have hcall := runBlocking_mapErr_agrees hstands (hin.upsert hstands.inner orders hdim)
            fun _ => tooLarge_of_query
          exact hcall.map_state fun hnew => hs.insert hmeta hnew

theorem delete_agrees (order : HashOrder) (request : Pb.DeleteRequest) :
    Agreed (HandlesStandFor K metas) (EidosDbHandler.delete stores order handles request)
      (EidosDbHandler.delete stores' order handles' request) := by
  unfold EidosDbHandler.delete
  rcases hs.cases request.collection with
    ⟨-, hget, hget'⟩ | ⟨metadata, h, h', hmeta, hget, hget', hstands⟩
  · rw [hget, hget']
    exact .same hs
  · rw [hget, hget']
    dsimp only
    cases vectorIdFromPb request.id with
    | error e => exact .same hs
    | ok id =>
      have hcall := runBlocking_mapErr_agrees hstands (hin.delete hstands.inner order id)
        fun _ => tooLarge_of_query
      exact (hcall.map_state fun hnew => hs.insert hmeta hnew).map _

theorem deleteByFilter_agrees (matching each : HashOrder) (orders : VectorId → HashOrder)
    (request : Pb.DeleteByFilterRequest) :
    Agreed (HandlesStandFor K metas)
      (EidosDbHandler.deleteByFilter stores matching each orders handles request)
      (EidosDbHandler.deleteByFilter stores' matching each orders handles' request) := by
  unfold EidosDbHandler.deleteByFilter
  cases deleteByFilterFromPb request with
  | error e => exact .same hs
  | ok decoded =>
    obtain ⟨collection, filter⟩ := decoded
    dsimp only
    rcases hs.cases collection with
      ⟨-, hget, hget'⟩ | ⟨metadata, h, h', hmeta, hget, hget', hstands⟩
    · rw [hget, hget']
      exact .same hs
    · rw [hget, hget']
      have hcall := runBlocking_mapErr_agrees hstands
        (hin.deleteByFilter hstands.inner matching each orders filter) fun _ => tooLarge_of_query
      exact (hcall.map_state fun hnew => hs.insert hmeta hnew).map _

theorem compact_agrees (request : Pb.CompactRequest) :
    Agreed (HandlesStandFor K metas) (EidosDbHandler.compact stores handles request)
      (EidosDbHandler.compact stores' handles' request) := by
  unfold EidosDbHandler.compact
  rcases hs.cases request.collection with
    ⟨-, hget, hget'⟩ | ⟨metadata, h, h', hmeta, hget, hget', hstands⟩
  · rw [hget, hget']
    exact .same hs
  · rw [hget, hget']
    have hcall := runBlocking_mapErr_agrees hstands (hin.compact hstands.inner)
      fun _ he => Or.inr he
    exact hcall.map_state fun hnew => hs.insert hmeta hnew

theorem batchUpsert_agrees (order : HashOrder) (orders : UpsertOrders)
    (request : Pb.BatchUpsertRequest) :
    Agreed (HandlesStandFor K metas)
      (batchUpsert stores.toKindPorts order orders handles request)
      (batchUpsert stores'.toKindPorts order orders handles' request) := by
  unfold batchUpsert
  cases batchUpsertFromPb order request with
  | error e => exact .same hs
  | ok decoded =>
    obtain ⟨collection, points⟩ := decoded
    dsimp only
    rcases hs.cases collection with
      ⟨-, hget, hget'⟩ | ⟨metadata, h, h', hmeta, hget, hget', hstands⟩
    · rw [hget, hget']
      exact .same hs
    · rw [hget, hget']
      dsimp only
      rw [hstands.dimension, hstands.dimension']
      cases hensure : ensureDimension points metadata.dimension.get with
      | error status => exact .same hs
      | ok _ =>
        have hrun := runBlocking_agrees hstands
          (upsertEach_follows hin orders points 0 h.inner h'.inner hstands.inner
            (dims_of_ensureDimension hensure))
        exact (hrun.map_state fun hnew => hs.insert hmeta hnew).map _

omit hs in
/-- The loop over the chunks of a stream. -/
theorem bulkLoop_agrees (order : HashOrder) (orders : UpsertOrders) (collection : String)
    (stream : List StreamItem) : ∀ (h : CollectionHandle I J L P)
    (h' : CollectionHandle I' J' L' P') (upserted : Nat) (decoded : List DecodedPoint),
    HandleStandsFor K metadata h h' →
    Agreed (HandleStandsFor K metadata)
      (bulkLoop stores.toKindPorts order orders collection h upserted decoded stream)
      (bulkLoop stores'.toKindPorts order orders collection h' upserted decoded stream) := by
  induction stream with
  | nil =>
    intro h h' upserted decoded hstands
    unfold bulkLoop
    rw [hstands.dimension, hstands.dimension']
    cases hensure : ensureDimension decoded metadata.dimension.get with
    | error status => exact .same hstands
    | ok _ =>
      have hrun := runBlocking_agrees hstands
        (upsertEach_follows hin orders decoded upserted h.inner h'.inner hstands.inner
          (dims_of_ensureDimension hensure))
      dsimp only
      generalize runBlocking (upsertEach stores.toKindPorts orders upserted decoded) h = r at hrun ⊢
      generalize runBlocking (upsertEach stores'.toKindPorts orders upserted decoded) h' = r'
        at hrun ⊢
      cases hrun with
      | @same answer s t related =>
        cases answer with
        | error status => exact .same related
        | ok _ => exact .same related
      | internal code => exact .internal code
      | tooLarge excuse => exact .tooLarge excuse
  | cons item rest ih =>
    intro h h' upserted decoded hstands
    unfold bulkLoop
    rw [hstands.dimension, hstands.dimension']
    cases hensure : ensureDimension decoded metadata.dimension.get with
    | error status => exact .same hstands
    | ok _ =>
      have hrun := runBlocking_agrees hstands
        (upsertEach_follows hin orders decoded upserted h.inner h'.inner hstands.inner
          (dims_of_ensureDimension hensure))
      dsimp only
      generalize runBlocking (upsertEach stores.toKindPorts orders upserted decoded) h = r at hrun ⊢
      generalize runBlocking (upsertEach stores'.toKindPorts orders upserted decoded) h' = r'
        at hrun ⊢
      cases hrun with
      | @same answer s t related =>
        cases answer with
        | error status => exact .same related
        | ok _ =>
          -- the next message
          dsimp only
          cases item with
          | error status => exact .same related
          | ok next =>
            dsimp only
            cases bulkUpsertFromPb order next with
            | error e => exact .same related
            | ok chunk =>
              dsimp only
              split
              · exact .same related
              · exact ih s t _ _ related
      | internal code => exact .internal code
      | tooLarge excuse => exact .tooLarge excuse

theorem bulkUpsert_agrees (order : HashOrder) (orders : UpsertOrders) (stream : List StreamItem) :
    Agreed (HandlesStandFor K metas)
      (bulkUpsert stores.toKindPorts order orders handles stream)
      (bulkUpsert stores'.toKindPorts order orders handles' stream) := by
  unfold bulkUpsert
  cases stream with
  | nil => exact .same hs
  | cons item rest =>
    cases item with
    | error status => exact .same hs
    | ok first =>
      dsimp only
      cases bulkUpsertFromPb order first with
      | error e => exact .same hs
      | ok decoded =>
        obtain ⟨collection, points⟩ := decoded
        dsimp only
        rcases hs.cases collection with
          ⟨-, hget, hget'⟩ | ⟨metadata, h, h', hmeta, hget, hget', hstands⟩
        · rw [hget, hget']
          exact .same hs
        · rw [hget, hget']
          exact (bulkLoop_agrees hin order orders collection rest h h' 0 points hstands).map_state
            fun hnew => hs.insert hmeta hnew

theorem search_agrees (matching : HashOrder) (request : Pb.SearchRequest) :
    EidosDbHandler.search stores matching handles request =
      EidosDbHandler.search stores' matching handles' request := by
  unfold EidosDbHandler.search
  cases searchQueryFromPb request with
  | error e => rfl
  | ok decoded =>
    obtain ⟨name, query⟩ := decoded
    dsimp only
    rcases hs.cases name with ⟨-, hget, hget'⟩ | ⟨metadata, h, h', hmeta, hget, hget', hstands⟩
    · rw [hget, hget']
    · rw [hget, hget']
      dsimp only
      rw [hstands.dimension, hstands.dimension', runBlockingRead_eq hstands]
      rw [hin.search hstands.inner]

theorem searchHybrid_agrees (ops : F64Ops) (orders : SearchOrders)
    (request : Pb.SearchHybridRequest) :
    EidosDbHandler.searchHybrid stores ops orders handles request =
      EidosDbHandler.searchHybrid stores' ops orders handles' request := by
  unfold EidosDbHandler.searchHybrid
  cases hybridQueryFromPb request with
  | error e => rfl
  | ok decoded =>
    obtain ⟨name, query⟩ := decoded
    dsimp only
    rcases hs.cases name with ⟨-, hget, hget'⟩ | ⟨metadata, h, h', hmeta, hget, hget', hstands⟩
    · rw [hget, hget']
    · rw [hget, hget']
      dsimp only
      rw [hstands.dimension, hstands.dimension', runBlockingRead_eq hstands]
      rw [hin.searchHybrid hstands.inner]

/-- What is told of a collection. -/
theorem info_agrees (metadata : CollectionMeta) :
    EidosDbHandler.info stores handles metadata = EidosDbHandler.info stores' handles' metadata := by
  unfold EidosDbHandler.info
  rcases hs.cases metadata.name with ⟨-, hget, hget'⟩ | ⟨other, h, h', -, hget, hget', hstands⟩
  · rw [hget, hget']
  · rw [hget, hget']
    dsimp only
    rw [hstands.clean, hstands.clean', hin.len hstands.inner]

/-- Every call that leaves the set of collections alone is answered alike. -/
theorem call_agrees (ops : F64Ops) {request : Request} {r : Reply × Handles I J L P}
    (hcall : EidosDbHandler.call stores ops ⟨metas, handles⟩ request = some r) :
    ∃ r', EidosDbHandler.call stores' ops ⟨metas, handles'⟩ request = some r' ∧
      Agreed (HandlesStandFor K metas) r r' := by
  have hinfo : EidosDbHandler.info stores handles = EidosDbHandler.info stores' handles' :=
    funext (info_agrees hin hs)
  cases request with
  | createCollection _ => cases hcall
  | dropCollection _ => cases hcall
  | listCollections order =>
    cases hcall
    refine ⟨_, rfl, ?_⟩
    dsimp only
    unfold EidosDbHandler.listCollections
    rw [hinfo]
    exact .same hs
  | describeCollection request =>
    cases hcall
    refine ⟨_, rfl, ?_⟩
    dsimp only
    unfold EidosDbHandler.describeCollection
    rw [hinfo]
    exact .same hs
  | upsert order orders request =>
    cases hcall
    exact ⟨_, rfl, (upsert_agrees hin hs order orders request).map _⟩
  | batchUpsert order orders request =>
    cases hcall
    exact ⟨_, rfl, (batchUpsert_agrees hin hs order orders request).map _⟩
  | bulkUpsert order orders stream =>
    cases hcall
    exact ⟨_, rfl, (bulkUpsert_agrees hin hs order orders stream).map _⟩
  | delete order request =>
    cases hcall
    exact ⟨_, rfl, (delete_agrees hin hs order request).map _⟩
  | deleteByFilter matching each orders request =>
    cases hcall
    exact ⟨_, rfl, (deleteByFilter_agrees hin hs matching each orders request).map _⟩
  | search matching request =>
    cases hcall
    refine ⟨_, rfl, ?_⟩
    dsimp only
    rw [search_agrees hin hs]
    exact .same hs
  | searchHybrid orders request =>
    cases hcall
    refine ⟨_, rfl, ?_⟩
    dsimp only
    rw [searchHybrid_agrees hin hs]
    exact .same hs
  | compact request =>
    cases hcall
    exact ⟨_, rfl, (compact_agrees hin hs request).map _⟩

end Calls

end Handlers

end EidosDB
