import EidosDB.Lexical.InMemory
import EidosDB.Lib.Effect
import EidosDB.Storage.Postcard

/-! # The Persistent Lexical Index

    BM25 over three tables of one database: for each term the list of the
    documents that hold it, and for each document its length and its terms.
    The handle caches the number of documents and of tokens, which `open`
    counts from the tables and the writes move by signed deltas.

    A write computes the new rows inside a transaction; an error before the
    commit drops it.  The lists hold the 128 bits of an id, here the id. -/

namespace EidosDB

open Bytes Effect

/-- The encodings of the rows. -/
structure LexicalCodecs where
  postings : Codec (List (VectorId × Nat))
  length : Codec Nat
  terms : Codec (List String)

/-- The database, with its three tables. -/
structure LexicalDb where
  postings : OrderedTable String (List Byte)
  docLengths : OrderedTable VectorId (List Byte)
  docTerms : OrderedTable VectorId (List Byte)

/-- `PersistentLexicalIndex`, the cached counters of an open index. -/
structure PersistentLexicalIndex where
  corpusSize : Nat
  totalTokens : Nat

/-- An open index with its database. -/
structure LexicalStore where
  db : LexicalDb
  index : PersistentLexicalIndex

/-- `decode` of the lexical store: the error becomes a serialization error. -/
def Codec.parse {α : Type} (codec : Codec α) (bytes : List Byte) : Except LexicalError α :=
  (codec.decode bytes).mapError .serialization

@[simp] theorem Codec.parse_encode {α : Type} (codec : Codec α) (a : α) :
    codec.parse (codec.encode a) = .ok a := by
  rw [parse, codec.decode_encode]
  rfl

namespace LexicalDb

/-- A database whose tables are empty. -/
def fresh : LexicalDb := { postings := .empty, docLengths := .empty, docTerms := .empty }

variable (codecs : LexicalCodecs)

/-! ## Rows -/

/-- The list of a term; no row is the empty list. -/
def postingList (postings : OrderedTable String (List Byte)) (term : String) :
    Except LexicalError (List (VectorId × Nat)) :=
  match postings.get term with
  | none => .ok []
  | some row => codecs.postings.parse row

/-- One term of a document that is forgotten. -/
def dropPosting (id : VectorId) (postings : OrderedTable String (List Byte)) (term : String) :
    Except LexicalError (OrderedTable String (List Byte)) := do
  let list ← postingList codecs postings term
  -- a list that becomes empty has no row
  let kept := list.filter fun p => decide (p.1 ≠ id)
  .ok (if kept.isEmpty then postings.erase term
    else postings.insert term (codecs.postings.encode kept))

/-- One term of a document that is inserted, with its frequency. -/
def addPosting (id : VectorId) (postings : OrderedTable String (List Byte))
    (term : String × Nat) : Except LexicalError (OrderedTable String (List Byte)) := do
  let list ← postingList codecs postings term.1
  .ok (postings.insert term.1 (codecs.postings.encode (list ++ [(id, term.2)])))

/-- The change of the token count by a document that is forgotten. -/
def lengthDelta (db : LexicalDb) (id : VectorId) : Except LexicalError Int :=
  match db.docLengths.get id with
  | none => .ok 0
  | some row => do
    let old ← codecs.length.parse row
    .ok (-(old : Int))

/-- What a transaction does to the tables and the counters. -/
structure Change where
  db : LexicalDb
  sizeDelta : Int
  tokenDelta : Int

/-- The step of both writes that takes out the document stored before, if
    there is one: the lists without it, and the change of the token count. -/
def forgetRows (db : LexicalDb) (id : VectorId) :
    Except LexicalError (Option (OrderedTable String (List Byte) × Int)) :=
  match db.docTerms.get id with
  | none => .ok none
  | some row => do
    let priorTerms ← codecs.terms.parse row
    let kept ← priorTerms.foldlM (dropPosting codecs id) db.postings
    let tokenDelta ← lengthDelta codecs db id
    .ok (some (kept, tokenDelta))

/-- The rows `insert` writes: `postings` is the order of the loop over the
    new terms, `terms` that of the list of them. -/
def insertRows (db : LexicalDb) (postings terms : HashOrder) (id : VectorId)
    (stats : DocStats) : Except LexicalError Change := do
  let prior ← forgetRows codecs db id
  -- the new lists are built on those without the old document
  let lists ← (postings.entries stats.termFrequencies).foldlM (addPosting codecs id)
    (prior.elim db.postings Prod.fst)
  .ok
    { db :=
        { postings := lists
          docLengths := db.docLengths.insert id (codecs.length.encode stats.length)
          docTerms := db.docTerms.insert id
            (codecs.terms.encode (terms.keys stats.termFrequencies)) }
      sizeDelta := (prior.elim 0 fun _ => -1) + 1
      tokenDelta := prior.elim 0 Prod.snd + stats.length }

/-- The rows `remove` writes. -/
def removeRows (db : LexicalDb) (id : VectorId) : Except LexicalError Change := do
  let prior ← forgetRows codecs db id
  match prior with
  | none => .ok { db := db, sizeDelta := 0, tokenDelta := 0 }
  | some (kept, tokenDelta) =>
    .ok
      { db :=
          { postings := kept
            docLengths := db.docLengths.erase id
            docTerms := db.docTerms.erase id }
        sizeDelta := -1
        tokenDelta := tokenDelta }

/-- One row in the counting loop of `open`; `none` for a token count that
    overflows. -/
def countRow (counters : PersistentLexicalIndex) (row : VectorId × List Byte) :
    ExceptT LexicalError Option PersistentLexicalIndex := do
  let length ← ExceptT.mk (some (codecs.length.parse row.2))
  let totalTokens ← ExceptT.lift (checkedAdd u64Max counters.totalTokens length)
  pure { corpusSize := counters.corpusSize + 1, totalTokens := totalTokens }

/-- The counting loop of `open`. -/
def counters (db : LexicalDb) : ExceptT LexicalError Option PersistentLexicalIndex :=
  db.docLengths.entries.foldlM (countRow codecs) { corpusSize := 0, totalTokens := 0 }

end LexicalDb

/-! ## Opening -/

/-- A step of the database that fails for no reason of the program's. -/
def LexicalError.failure : LexicalError := .backend "Input/output error (os error 5)"

namespace PersistentLexicalIndex

/-- `apply_delta`; the number of documents is a `usize` that fits. -/
def applyDelta (value : Nat) (delta : Int) : Nat :=
  if 0 ≤ delta then value + delta.toNat else value - (-delta).toNat

/-- `apply_token_delta`; `none` for an addition that overflows. -/
def applyTokenDelta (value : Nat) (delta : Int) : Option Nat :=
  if 0 ≤ delta then checkedAdd u64Max value delta.toNat else some (value - (-delta).toNat)

/-- `PersistentLexicalIndex::open`: the file is made if there is none, one
    transaction makes its tables, and the counters are read. -/
def openAt (codecs : LexicalCodecs) :
    Effect LexicalError (Option LexicalDb) PersistentLexicalIndex := do
  durable .failure (fun file => some (file.getD .fresh))
  commit .failure id
  call fun file => ((file.getD .fresh).counters codecs).run.map fun r => (r, file)

end PersistentLexicalIndex

/-! ## Writing -/

namespace LexicalStore

variable (U : Unicode) (codecs : LexicalCodecs)

/-- The end of a write: the transaction is committed, and then the counters
    are moved. -/
def commitChange (change : LexicalDb.Change) : Effect LexicalError LexicalStore Unit := do
  commit .failure (fun self => { self with db := change.db })
  -- in memory only; a counter that overflows panics after the commit
  call fun self => (PersistentLexicalIndex.applyTokenDelta self.index.totalTokens
    change.tokenDelta).map fun totalTokens =>
      (.ok (), { self with index :=
        { corpusSize := PersistentLexicalIndex.applyDelta self.index.corpusSize change.sizeDelta
          totalTokens := totalTokens } })

/-- `LexicalIndex::insert` -/
def insert (postings terms : HashOrder) (id : VectorId) (document : Document) :
    Effect LexicalError LexicalStore Unit := do
  let stats ← call fun self => (DocStats.ofDocument U document).map fun stats => (.ok stats, self)
  let self ← get
  let change ← Effect.liftExcept (self.db.insertRows codecs postings terms id stats)
  commitChange change

/-- `LexicalIndex::remove` -/
def remove (id : VectorId) : Effect LexicalError LexicalStore Unit := do
  let self ← get
  let change ← Effect.liftExcept (self.db.removeRows codecs id)
  commitChange change

/-- The index is dropped and opened again. -/
def reopen : Effect LexicalError LexicalStore Unit := do
  let index ← zoom (fun self => some self.db)
    (fun file self => { self with db := file.getD .fresh }) (PersistentLexicalIndex.openAt codecs)
  modify fun self => { self with index := index }

def len (self : LexicalStore) : Nat := self.index.corpusSize

/-! ## Searching -/

variable (ops : F64Ops)

/-- One entry of the list of a query term. -/
def addContribution (self : LexicalStore) (isAdmissible : VectorId → Bool) (idf : F64)
    (scores : OrderedTable VectorId F64) (posting : VectorId × Nat) :
    Except LexicalError (OrderedTable VectorId F64) :=
  if !isAdmissible posting.1 then .ok scores
  else
    match self.db.docLengths.get posting.1 with
    -- a document without a length counts for nothing
    | none => .ok scores
    | some row => do
      let length ← codecs.length.parse row
      let contribution := Bm25.termScore ops posting.2 length
        (Bm25.averageDocLength ops self.index.totalTokens self.index.corpusSize) idf
      .ok (scores.insert posting.1 (ops.add ((scores.get posting.1).getD .zero) contribution))

/-- One query term. -/
def addTerm (self : LexicalStore) (isAdmissible : VectorId → Bool)
    (scores : OrderedTable VectorId F64) (term : String) :
    Except LexicalError (OrderedTable VectorId F64) :=
  match self.db.postings.get term with
  | none => .ok scores
  | some row => do
    let list ← codecs.postings.parse row
    let idf := Bm25.idf ops self.index.corpusSize list.length
    list.foldlM (self.addContribution codecs ops isAdmissible idf) scores

/-- `scored` -/
def scored (order : HashOrder) (self : LexicalStore) (query : String)
    (isAdmissible : VectorId → Bool) : Except LexicalError (List Scored) :=
  if self.index.corpusSize = 0 then .ok []
  else do
    let scores ← (tokenize U query).foldlM (self.addTerm codecs ops isAdmissible) .empty
    .ok ((order.entries scores).filter fun p => p.2.gt .zero)

/-- `search_text_filtered`: an error is an empty result. -/
def searchTextFiltered (order : HashOrder) (self : LexicalStore) (query : String) (k : Nat)
    (isAdmissible : VectorId → Bool) : List Scored :=
  match self.scored U codecs ops order query isAdmissible with
  | .ok scored => ranked k scored
  | .error _ => []

end LexicalStore

/-! ## Runs -/

/-- A call on either index, with the orders of its iterations in memory and on
    disk. -/
inductive LexicalCall where
  | insert (before after postings terms : HashOrder) (id : VectorId) (document : Document)
  | remove (order : HashOrder) (id : VectorId)
  | reopen

namespace LexicalStore

variable (U : Unicode) (codecs : LexicalCodecs)

def step (self : LexicalStore) (call : LexicalCall) :
    Option (Except LexicalError Unit × LexicalStore) :=
  match call with
  | .insert _ _ postings terms id document => (insert U codecs postings terms id document).exec self
  | .remove _ id => (remove codecs id).exec self
  | .reopen => (reopen codecs).exec self

/-- A run of calls, with the answers in order. -/
def run : LexicalStore → List LexicalCall →
    Option (List (Except LexicalError Unit) × LexicalStore)
  | self, [] => some ([], self)
  | self, call :: rest =>
      (self.step U codecs call).bind fun r => (run r.2 rest).map fun r' => (r.1 :: r'.1, r'.2)

end LexicalStore

/-- The call as the index in memory sees it; it has nothing to open. -/
def LexicalCall.inMemory : LexicalCall → Option InMemoryLexicalIndex.Op
  | .insert before after _ _ id document => some (.insert before after id document)
  | .remove order id => some (.remove order id)
  | .reopen => none

end EidosDB
