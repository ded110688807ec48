import EidosDB.Query.Ports
import EidosDB.Storage.PersistentFlat
import EidosDB.Storage.PersistentHnsw
import EidosDB.Storage.PersistentLexical

/-! # The Persistent Payload Store

    Payloads in one table of a database, encoded row by row; the handle
    caches the number of rows.  A write is one transaction, and the counter
    moves when the transaction is committed.

    The persistent stores are given as the ports of a collection at the
    end. -/

namespace EidosDB

open Bytes Effect

/-- The database, with its table. -/
structure PayloadDb where
  payloads : OrderedTable VectorId (List Byte)

/-- A database whose table is empty. -/
def PayloadDb.fresh : PayloadDb := { payloads := .empty }

/-- `PersistentPayloadStore`, the cached counter of an open store. -/
structure PersistentPayloadStore where
  count : Nat

/-- An open store with its database. -/
structure StoredPayloads where
  db : PayloadDb
  store : PersistentPayloadStore

/-- A step of the database that fails for no reason of the program's. -/
def PayloadError.failure : PayloadError := .backend "Input/output error (os error 5)"

/-- `PersistentPayloadStore::open`: the file is made if there is none, one
    transaction makes its table, and the rows are counted. -/
def PersistentPayloadStore.openAt : Effect PayloadError (Option PayloadDb) PersistentPayloadStore := do
  durable .failure (fun file => some (file.getD .fresh))
  commit .failure id
  let file ← get
  pure { count := (file.getD .fresh).payloads.len }

namespace StoredPayloads

variable (codec : Codec Payload)

/-- `decode` of the payload store. -/
def parse (bytes : List Byte) : Except PayloadError Payload :=
  (codec.decode bytes).mapError .serialization

/-- `set` -/
def set (id : VectorId) (payload : Payload) : Effect PayloadError StoredPayloads Unit := do
  let self ← get
  let wasNew := (self.db.payloads.get id).isNone
  commit .failure (fun self =>
    { self with db := { payloads := self.db.payloads.insert id (codec.encode payload) } })
  if wasNew then modify fun self => { self with store := { count := self.store.count + 1 } }
  else pure ()

/-- `get` -/
def get (self : StoredPayloads) (id : VectorId) : Except PayloadError (Option Payload) :=
  match self.db.payloads.get id with
  | some row => (parse codec row).map some
  | none => .ok none

/-- `remove` -/
def remove (id : VectorId) : Effect PayloadError StoredPayloads Bool := do
  let self ← Effect.get
  let existed := (self.db.payloads.get id).isSome
  commit .failure (fun self => { self with db := { payloads := self.db.payloads.erase id } })
  if existed then do
    modify fun self => { self with store := { count := self.store.count - 1 } }
    pure existed
  else pure existed

def len (self : StoredPayloads) : Nat := self.store.count

/-- One row in the scan of `matching_ids`. -/
def matchRow (ops : F64Ops) (filter : CompiledFilter) (matched : OrderedTable VectorId Unit)
    (row : VectorId × List Byte) : Except PayloadError (OrderedTable VectorId Unit) := do
  let payload ← parse codec row.2
  .ok (if filter.matches ops payload then matched.insert row.1 () else matched)

/-- `matching_ids`: the scan is in the order of the keys. -/
def matchingIds (ops : F64Ops) (self : StoredPayloads) (filter : CompiledFilter) :
    Except PayloadError (OrderedTable VectorId Unit) :=
  self.db.payloads.entries.foldlM (matchRow codec ops filter) .empty

def port (ops : F64Ops) : PayloadStore StoredPayloads where
  set := set codec
  get := get codec
  remove := remove
  len := len
  matchingIds _ self filter := matchingIds codec ops self filter

end StoredPayloads

/-! ## The other stores as ports -/

/-- `PersistentFlatIndex` as a `VectorIndex`. -/
def FlatStore.port (ops : F32Ops) : VectorIndex FlatStore where
  metric self := self.index.metric
  supportedMetrics _ := [.cosine, .dotProduct, .euclidean]
  dimension self := self.index.dimension
  len := FlatStore.len
  insert id embedding := mapErr StorageError.toIndexError (FlatStore.insert id embedding)
  remove id := mapErr StorageError.toIndexError (FlatStore.remove id)
  searchFiltered self query k metric isAdmissible :=
    some (self.searchFiltered ops query k metric isAdmissible)

/-- `PersistentHnswIndex` as a `VectorIndex`. -/
def HnswStore.port (pc : HnswCodec) (P : Platform) (levelFloat : LevelFloat) :
    VectorIndex HnswStore where
  metric self := self.index.graph.config.metric
  supportedMetrics self := [self.index.graph.config.metric]
  dimension self := self.index.graph.dimension
  len self := self.index.graph.len
  insert id embedding :=
    mapErr StorageError.toIndexError (HnswStore.writeThroughInsert pc P levelFloat id embedding)
  remove id := mapErr StorageError.toIndexError (HnswStore.writeThroughRemove pc id)
  searchFiltered self query k metric isAdmissible :=
    self.index.graph.searchFiltered P query k metric isAdmissible

/-- `PersistentLexicalIndex` as a `LexicalIndex`: the orders of an insert are
    those of its loop over the new terms and of its list of them. -/
def LexicalStore.port (U : Unicode) (codecs : LexicalCodecs) (ops : F64Ops) :
    LexicalIndex LexicalStore where
  insert postings terms id document := LexicalStore.insert U codecs postings terms id document
  remove _ id := LexicalStore.remove codecs id
  len := LexicalStore.len
  searchTextFiltered order self query k isAdmissible :=
    self.searchTextFiltered U codecs ops order query k isAdmissible

end EidosDB
