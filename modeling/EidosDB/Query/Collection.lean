import EidosDB.Lexical.Fusion
import EidosDB.Query.Ports

/-! # Collections

    A collection binds a vector index, a lexical index and a payload store.
    Writes go to the three of them one after the other, and stop at the first
    that fails; a filter is evaluated before the geometric search and
    restricts it to the matching ids. -/

namespace EidosDB

open Effect

inductive QueryError where
  | unsupportedMetric (metric : Metric)
  | index (error : IndexError)
  | payload (error : PayloadError)
  | emptyQuery
  | lexical (error : LexicalError)
  deriving DecidableEq, Repr

/-- `SearchQuery` -/
structure SearchQuery where
  embedding : Embedding
  k : Nat
  metric : Option Metric
  filter : Option Filter

/-- `SearchHit` -/
structure SearchHit where
  id : VectorId
  score : F32
  payload : Option Payload
  deriving DecidableEq

/-- `HybridQuery` -/
structure HybridQuery where
  vector : Option Embedding
  text : Option String
  k : Nat
  filter : Option Filter
  metric : Option Metric
  rrfK : F64
  overfetchFactor : Nat

/-- `DEFAULT_RRF_K` -/
def defaultRrfK : F64 := .sixty

/-- `DEFAULT_OVERFETCH_FACTOR` -/
def defaultOverfetchFactor : Nat := 4

/-- `Collection` -/
structure Collection (I L P : Type) where
  index : I
  lexical : L
  payloads : P
  deriving DecidableEq

/-- The ports of the three parts. -/
structure Ports (I L P : Type) where
  index : VectorIndex I
  lexical : LexicalIndex L
  payloads : PayloadStore P

/-- The orders of the iterations of one search. -/
structure SearchOrders where
  matching : HashOrder
  lexical : HashOrder
  fusion : HashOrder

namespace Collection

variable {I L P : Type} (ports : Ports I L P)

def onIndex {α : Type} (m : Effect IndexError I α) : Effect QueryError (Collection I L P) α :=
  mapErr .index (zoom Collection.index (fun index self => { self with index := index }) m)

def onLexical {α : Type} (m : Effect LexicalError L α) : Effect QueryError (Collection I L P) α :=
  mapErr .lexical (zoom Collection.lexical (fun lexical self => { self with lexical := lexical }) m)

def onPayloads {α : Type} (m : Effect PayloadError P α) : Effect QueryError (Collection I L P) α :=
  mapErr .payload
    (zoom Collection.payloads (fun payloads self => { self with payloads := payloads }) m)

section Rules

variable {α : Type} {Q : α → World (Collection I L P) → Prop}
  {E : Halt QueryError → World (Collection I L P) → Prop} {w : World (Collection I L P)}

@[simp] theorem ends_onIndex {m : Effect IndexError I α} :
    ends (onIndex m) Q E w ↔
      ends m (fun a w' => Q a ⟨⟨w'.state, w.state.lexical, w.state.payloads⟩, w'.plan, w'.commits⟩)
        (fun r w' => E (r.map .index)
          ⟨⟨w'.state, w.state.lexical, w.state.payloads⟩, w'.plan, w'.commits⟩)
        ⟨w.state.index, w.plan, w.commits⟩ := by
  unfold onIndex
  rw [ends_mapErr, ends_zoom]

@[simp] theorem ends_onLexical {m : Effect LexicalError L α} :
    ends (onLexical m) Q E w ↔
      ends m (fun a w' => Q a ⟨⟨w.state.index, w'.state, w.state.payloads⟩, w'.plan, w'.commits⟩)
        (fun r w' => E (r.map .lexical)
          ⟨⟨w.state.index, w'.state, w.state.payloads⟩, w'.plan, w'.commits⟩)
        ⟨w.state.lexical, w.plan, w.commits⟩ := by
  unfold onLexical
  rw [ends_mapErr, ends_zoom]

@[simp] theorem ends_onPayloads {m : Effect PayloadError P α} :
    ends (onPayloads m) Q E w ↔
      ends m (fun a w' => Q a ⟨⟨w.state.index, w.state.lexical, w'.state⟩, w'.plan, w'.commits⟩)
        (fun r w' => E (r.map .payload)
          ⟨⟨w.state.index, w.state.lexical, w'.state⟩, w'.plan, w'.commits⟩)
        ⟨w.state.payloads, w.plan, w.commits⟩ := by
  unfold onPayloads
  rw [ends_mapErr, ends_zoom]

end Rules

def len (self : Collection I L P) : Nat := ports.index.len self.index

/-! ## Writes -/

/-- The lexical step of `upsert`: no document removes the one before. -/
def writeDocument (before after : HashOrder) (id : VectorId) :
    Option Document → Effect QueryError (Collection I L P) Unit
  | some document => onLexical (ports.lexical.insert before after id document)
  | none => onLexical (ports.lexical.remove before id)

/-- The payload step of `upsert`. -/
def writePayload (id : VectorId) : Option Payload → Effect QueryError (Collection I L P) Unit
  | some payload => onPayloads (ports.payloads.set id payload)
  | none => do
    let _ ← onPayloads (ports.payloads.remove id)
    pure ()

/-- `upsert` -/
def upsert (before after : HashOrder) (id : VectorId) (embedding : Embedding)
    (document : Option Document) (payload : Option Payload) :
    Effect QueryError (Collection I L P) Unit := do
  let _ ← onIndex (ports.index.remove id)
  onIndex (ports.index.insert id embedding)
  writeDocument ports before after id document
  writePayload ports id payload

/-- `delete` -/
def delete (order : HashOrder) (id : VectorId) : Effect QueryError (Collection I L P) Bool := do
  let removed ← onIndex (ports.index.remove id)
  onLexical (ports.lexical.remove order id)
  let _ ← onPayloads (ports.payloads.remove id)
  pure removed

/-- The loop of `delete_by_filter`; the count is a `u64` that fits. -/
def deleteEach (orders : VectorId → HashOrder) :
    List VectorId → Nat → Effect QueryError (Collection I L P) Nat
  | [], count => pure count
  | id :: rest, count => do
    let removed ← delete ports (orders id) id
    deleteEach orders rest (if removed then count + 1 else count)

/-- `delete_by_filter`: `matching` is the order of the scan, `each` that of
    the loop over the matching ids. -/
def deleteByFilter (matching each : HashOrder) (orders : VectorId → HashOrder)
    (filter : Filter) : Effect QueryError (Collection I L P) Nat := do
  let self ← get
  let ids ← Effect.liftExcept
    ((ports.payloads.matchingIds matching self.payloads filter.compile).mapError .payload)
  deleteEach ports orders (each.keys ids) 0

/-! ## Searches -/

/-- A result of one of the stores, and a panic where it is `none`. -/
def liftIndex {α : Type} (result : Option (Except IndexError α)) : ExceptT QueryError Option α :=
  result.map fun r => r.mapError .index

def liftPayload {α : Type} (result : Except PayloadError α) : ExceptT QueryError Option α :=
  some (result.mapError .payload)

/-- The hit of a scored id, with its payload. -/
def hydrate (self : Collection I L P) (neighbor : Neighbor) :
    ExceptT QueryError Option SearchHit := do
  let payload ← liftPayload (ports.payloads.get self.payloads neighbor.id)
  pure { id := neighbor.id, score := neighbor.score, payload := payload }

/-- The predicate of a filter on ids: of no filter, all of them. -/
def admissible (allowed : Option (OrderedTable VectorId Unit)) (id : VectorId) : Bool :=
  allowed.all fun ids => (ids.get id).isSome

/-- The ids a filter allows. -/
def allowedIds (matching : HashOrder) (self : Collection I L P) :
    Option Filter → ExceptT QueryError Option (Option (OrderedTable VectorId Unit))
  | some filter => do
    let ids ← liftPayload (ports.payloads.matchingIds matching self.payloads filter.compile)
    pure (some ids)
  | none => pure none

/-- The metric of a query, if the index supports it. -/
def resolveMetric (self : Collection I L P) (metric : Option Metric) :
    ExceptT QueryError Option Metric :=
  let metric := metric.getD (ports.index.metric self.index)
  if metric ∈ ports.index.supportedMetrics self.index then pure metric
  else throw (.unsupportedMetric metric)

/-- `search` -/
def search (matching : HashOrder) (self : Collection I L P) (query : SearchQuery) :
    ExceptT QueryError Option (List SearchHit) := do
  let metric ← resolveMetric ports self query.metric
  let allowed ← allowedIds ports matching self query.filter
  let neighbors ← liftIndex (ports.index.searchFiltered self.index query.embedding query.k metric
    (admissible allowed))
  neighbors.mapM (hydrate ports self)

/-- The dense channel of `search_hybrid`. -/
def denseChannel (ops : F64Ops) (self : Collection I L P) (query : HybridQuery) (depth : Nat)
    (isAdmissible : VectorId → Bool) : ExceptT QueryError Option (Option (List Scored)) :=
  match query.vector with
  | some embedding => do
    let metric ← resolveMetric ports self query.metric
    let neighbors ← liftIndex
      (ports.index.searchFiltered self.index embedding depth metric isAdmissible)
    pure (some (neighbors.map fun n => (n.id, ops.ofF32 n.score)))
  | none => pure none

/-- The one ranking of the channels that are there. -/
def fuseChannels (ops : F64Ops) (order : HashOrder) (rrfK : F64) :
    Option (List Scored) → Option (List Scored) → ExceptT QueryError Option (List Scored)
  | some dense, some lexical =>
    pure (fuseRrf ops order [dense.map Prod.fst, lexical.map Prod.fst] rrfK)
  | some single, none => pure single
  | none, some single => pure single
  -- the `unreachable!` of the source
  | none, none => ExceptT.mk none

/-- `search_hybrid` -/
def searchHybrid (ops : F64Ops) (orders : SearchOrders) (self : Collection I L P)
    (query : HybridQuery) : ExceptT QueryError Option (List SearchHit) :=
  if query.vector.isNone && query.text.isNone then throw .emptyQuery
  else do
    let allowed ← allowedIds ports orders.matching self query.filter
    -- `saturating_mul`
    let depth := min (query.k * query.overfetchFactor) usizeMax
    let dense ← denseChannel ports ops self query depth (admissible allowed)
    let lexical := query.text.map fun text =>
      ports.lexical.searchTextFiltered orders.lexical self.lexical text depth (admissible allowed)
    let ranked ← fuseChannels ops orders.fusion query.rrfK dense lexical
    (ranked.take query.k).mapM fun p => hydrate ports self { id := p.1, score := ops.toF32 p.2 }

end Collection

/-! ## Runs -/

/-- A call that writes to a collection, with the orders of its iterations. -/
inductive CollectionOp where
  | upsert (before after : HashOrder) (id : VectorId) (embedding : Embedding)
      (document : Option Document) (payload : Option Payload)
  | delete (order : HashOrder) (id : VectorId)
  | deleteByFilter (matching each : HashOrder) (orders : VectorId → HashOrder) (filter : Filter)

/-- What a writing call answers. -/
inductive CollectionAnswer where
  | upserted (result : Except QueryError Unit)
  | deleted (result : Except QueryError Bool)
  | deletedMatching (result : Except QueryError Nat)
  deriving DecidableEq

namespace Collection

variable {I L P : Type} (ports : Ports I L P)

/-- One call; `none` when it panics. -/
def step (self : Collection I L P) :
    CollectionOp → Option (CollectionAnswer × Collection I L P)
  | .upsert before after id embedding document payload =>
      ((upsert ports before after id embedding document payload).exec self).map
        fun r => (.upserted r.1, r.2)
  | .delete order id => ((delete ports order id).exec self).map fun r => (.deleted r.1, r.2)
  | .deleteByFilter matching each orders filter =>
      ((deleteByFilter ports matching each orders filter).exec self).map
        fun r => (.deletedMatching r.1, r.2)

/-- A run of calls, with the answers in order. -/
def run : Collection I L P → List CollectionOp →
    Option (List CollectionAnswer × Collection I L P)
  | self, [] => some ([], self)
  | self, op :: rest =>
      (step ports self op).bind fun r =>
        (run r.2 rest).map fun r' => (r.1 :: r'.1, r'.2)

end Collection

end EidosDB
