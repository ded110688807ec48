import EidosDB.Core.Flat
import EidosDB.Hnsw.Index
import EidosDB.Lexical.InMemory
import EidosDB.Lib.Effect
import EidosDB.Query.Filter

/-! # The Ports of a Collection

    A collection is put together from a vector index, a lexical index and a
    payload store.  Each is a port: a record of the operations the collection
    calls, over whatever state the implementation has.  Operations that
    iterate over hash maps take the order of the iteration.  The in-memory
    implementations are given below. -/

namespace EidosDB

open Effect

/-- `VectorIndex`; a search that is `none` panics. -/
structure VectorIndex (I : Type) where
  metric : I → Metric
  supportedMetrics : I → List Metric
  dimension : I → Dimension
  len : I → Nat
  insert : VectorId → Embedding → Effect IndexError I Unit
  remove : VectorId → Effect IndexError I Bool
  searchFiltered : I → Embedding → Nat → Metric → (VectorId → Bool) →
    Option (Except IndexError (List Neighbor))

/-- `LexicalIndex` -/
structure LexicalIndex (L : Type) where
  insert : HashOrder → HashOrder → VectorId → Document → Effect LexicalError L Unit
  remove : HashOrder → VectorId → Effect LexicalError L Unit
  len : L → Nat
  searchTextFiltered : HashOrder → L → String → Nat → (VectorId → Bool) → List Scored

/-- `PayloadStore` -/
structure PayloadStore (P : Type) where
  set : VectorId → Payload → Effect PayloadError P Unit
  get : P → VectorId → Except PayloadError (Option Payload)
  remove : VectorId → Effect PayloadError P Bool
  len : P → Nat
  matchingIds : HashOrder → P → CompiledFilter → Except PayloadError (OrderedTable VectorId Unit)

/-! ## Vector indexes in memory -/

def FlatIndex.port (ops : F32Ops) : VectorIndex FlatIndex where
  metric self := self.metric
  supportedMetrics _ := [.cosine, .dotProduct, .euclidean]
  dimension self := self.dimension
  len self := self.len
  insert id embedding := call fun self => some (self.insert id embedding)
  remove id := call fun self => some (self.remove id)
  searchFiltered self query k metric isAdmissible :=
    some (self.searchFiltered ops query k metric isAdmissible)

theorem FlatIndex.port_insert (ops : F32Ops) (id : VectorId) (embedding : Embedding) :
    (FlatIndex.port ops).insert id embedding =
      call fun self => some (self.insert id embedding) := rfl

theorem FlatIndex.port_remove (ops : F32Ops) (id : VectorId) :
    (FlatIndex.port ops).remove id = call fun self => some (self.remove id) := rfl

/-- The port of an HNSW index, with the logarithm its sampler uses. -/
def HnswIndex.port (P : Platform) (levelFloat : LevelFloat) : VectorIndex HnswIndex where
  metric self := self.config.metric
  supportedMetrics self := [self.config.metric]
  dimension self := self.dimension
  len self := self.len
  insert id embedding := call fun self => self.insert P levelFloat id embedding
  remove id := call fun self => some (self.remove id)
  searchFiltered self query k metric isAdmissible :=
    self.searchFiltered P query k metric isAdmissible

theorem HnswIndex.port_insert (P : Platform) (levelFloat : LevelFloat) (id : VectorId)
    (embedding : Embedding) : (HnswIndex.port P levelFloat).insert id embedding =
      call fun self => self.insert P levelFloat id embedding := rfl

theorem HnswIndex.port_remove (P : Platform) (levelFloat : LevelFloat) (id : VectorId) :
    (HnswIndex.port P levelFloat).remove id = call fun self => some (self.remove id) := rfl

/-! ## The lexical index in memory -/

def InMemoryLexicalIndex.port (U : Unicode) (ops : F64Ops) : LexicalIndex InMemoryLexicalIndex where
  insert before after id document := call fun self =>
    (self.insert U before after id document).map fun self => (.ok (), self)
  remove order id := call fun self => (self.remove order id).map fun self => (.ok (), self)
  len self := self.len
  searchTextFiltered order self query k isAdmissible :=
    self.searchTextFiltered U ops order query k isAdmissible

namespace InMemoryLexicalIndex

variable (U : Unicode) (ops : F64Ops)

theorem port_insert (before after : HashOrder) (id : VectorId) (document : Document) :
    (port U ops).insert before after id document = call fun self =>
      (self.insert U before after id document).map fun self => (.ok (), self) := rfl

theorem port_remove (order : HashOrder) (id : VectorId) :
    (port U ops).remove order id = call fun self =>
      (self.remove order id).map fun self => (.ok (), self) := rfl

end InMemoryLexicalIndex

/-! ## The payload store in memory -/

/-- `InMemoryPayloadStore` -/
structure InMemoryPayloadStore where
  payloads : OrderedTable VectorId Payload
  deriving DecidableEq

namespace InMemoryPayloadStore

/-- `InMemoryPayloadStore::new` -/
def new : InMemoryPayloadStore := { payloads := .empty }

def set (self : InMemoryPayloadStore) (id : VectorId) (payload : Payload) : InMemoryPayloadStore :=
  { payloads := self.payloads.insert id payload }

def get (self : InMemoryPayloadStore) (id : VectorId) : Option Payload := self.payloads.get id

def remove (self : InMemoryPayloadStore) (id : VectorId) : Bool × InMemoryPayloadStore :=
  ((self.payloads.get id).isSome, { payloads := self.payloads.erase id })

def len (self : InMemoryPayloadStore) : Nat := self.payloads.len

/-- `matching_ids`: the set as a table of its ids. -/
def matchingIds (ops : F64Ops) (order : HashOrder) (self : InMemoryPayloadStore)
    (filter : CompiledFilter) : OrderedTable VectorId Unit :=
  .ofList (((order.entries self.payloads).filter fun p => filter.matches ops p.2).map
    fun p => (p.1, ()))

def port (ops : F64Ops) : PayloadStore InMemoryPayloadStore where
  set id payload := call fun self => some (.ok (), self.set id payload)
  get self id := .ok (self.get id)
  remove id := call fun self => some (.ok (self.remove id).1, (self.remove id).2)
  len self := self.len
  matchingIds order self filter := .ok (self.matchingIds ops order filter)

end InMemoryPayloadStore

end EidosDB
