import EidosDB.Lexical.Analyzer
import EidosDB.Lexical.Bm25
import EidosDB.Lib.HashOrder

/-! # The In-Memory Lexical Index

    The BM25 index that keeps, for each document, the count of each of its
    terms, and beside the documents two running statistics: how many
    documents hold a term, and how many tokens there are.  The statistics are
    kept up by what an insert adds and a removal takes away.

    Token counts are `u32`, their total `u64`; `none` stands for the panic of
    an addition that overflows or a subtraction that underflows.  Counts of
    documents are `usize` values that fit. -/

namespace EidosDB

/-- `a + b` on an integer type with the largest value `max`. -/
def checkedAdd (max a b : Nat) : Option Nat := if a + b ≤ max then some (a + b) else none

/-- `a - b` on an unsigned integer type. -/
def checkedSub (a b : Nat) : Option Nat := if b ≤ a then some (a - b) else none

/-! ## Documents by their terms -/

/-- `DocStats` -/
structure DocStats where
  termFrequencies : OrderedTable String Nat
  length : Nat
  deriving DecidableEq

namespace DocStats

def empty : DocStats := { termFrequencies := .empty, length := 0 }

/-- One token in the counting loop of `insert`. -/
def countToken (stats : DocStats) (token : String) : Option DocStats := do
  let frequency ← checkedAdd u32Max ((stats.termFrequencies.get token).getD 0) 1
  let length ← checkedAdd u32Max stats.length 1
  some { termFrequencies := stats.termFrequencies.insert token frequency, length := length }

/-- The counting loop of `insert`. -/
def ofTokens (tokens : List String) : Option DocStats := tokens.foldlM countToken empty

def ofDocument (U : Unicode) (document : Document) : Option DocStats :=
  ofTokens (tokenize U document.text)

end DocStats

/-! ## The index -/

/-- `InMemoryLexicalIndex` -/
structure InMemoryLexicalIndex where
  docs : OrderedTable VectorId DocStats
  docFrequencies : OrderedTable String Nat
  totalTokens : Nat
  deriving DecidableEq

namespace InMemoryLexicalIndex

/-- `InMemoryLexicalIndex::new` -/
def new : InMemoryLexicalIndex := { docs := .empty, docFrequencies := .empty, totalTokens := 0 }

/-- One term in the loop of `forget`. -/
def releaseTerm (docFrequencies : OrderedTable String Nat) (term : String) :
    Option (OrderedTable String Nat) :=
  match docFrequencies.get term with
  | none => some docFrequencies
  | some count => do
    let count ← checkedSub count 1
    if count = 0 then some (docFrequencies.erase term)
    else some (docFrequencies.insert term count)

/-- One term in the second loop of `insert`. -/
def addTerm (docFrequencies : OrderedTable String Nat) (term : String) : OrderedTable String Nat :=
  docFrequencies.insert term ((docFrequencies.get term).getD 0 + 1)

/-- `forget` -/
def forget (order : HashOrder) (id : VectorId) (self : InMemoryLexicalIndex) :
    Option InMemoryLexicalIndex :=
  match self.docs.get id with
  | none => some self
  | some stats => do
    let docFrequencies ←
      (order.keys stats.termFrequencies).foldlM releaseTerm self.docFrequencies
    let totalTokens ← checkedSub self.totalTokens stats.length
    some { docs := self.docs.erase id, docFrequencies := docFrequencies, totalTokens := totalTokens }

/-- `LexicalIndex::insert`: `before` is the order of the terms of a document
    replaced, `after` that of the new one. -/
def insert (U : Unicode) (before after : HashOrder) (id : VectorId) (document : Document)
    (self : InMemoryLexicalIndex) : Option InMemoryLexicalIndex := do
  let kept ← self.forget before id
  let stats ← DocStats.ofDocument U document
  let totalTokens ← checkedAdd u64Max kept.totalTokens stats.length
  some
    { docs := kept.docs.insert id stats
      docFrequencies := (after.keys stats.termFrequencies).foldl addTerm kept.docFrequencies
      totalTokens := totalTokens }

/-- `LexicalIndex::remove` -/
def remove (order : HashOrder) (id : VectorId) (self : InMemoryLexicalIndex) :
    Option InMemoryLexicalIndex := self.forget order id

def len (self : InMemoryLexicalIndex) : Nat := self.docs.len

section Search

variable (U : Unicode) (ops : F64Ops)

/-- One query term in the scoring loop. -/
def addTermScore (self : InMemoryLexicalIndex) (stats : DocStats) (score : F64) (term : String) :
    F64 :=
  match stats.termFrequencies.get term with
  | none => score
  | some frequency =>
    let docFreq := (self.docFrequencies.get term).getD 0
    ops.add score (Bm25.termScore ops frequency stats.length
      (Bm25.averageDocLength ops self.totalTokens self.docs.len)
      (Bm25.idf ops self.docs.len docFreq))

/-- The score of one document. -/
def scoreOf (self : InMemoryLexicalIndex) (terms : List String) (stats : DocStats) : F64 :=
  terms.foldl (self.addTermScore ops stats) .zero

/-- `search_text_filtered` -/
def searchTextFiltered (order : HashOrder) (self : InMemoryLexicalIndex) (query : String) (k : Nat)
    (isAdmissible : VectorId → Bool) : List Scored :=
  if self.docs.len = 0 then []
  else
    let terms := tokenize U query
    ranked k (((order.entries self.docs).filter fun p => isAdmissible p.1).filterMap fun p =>
      let score := self.scoreOf ops terms p.2
      if score.gt .zero then some (p.1, score) else none)

end Search

/-! ## Runs -/

/-- A call that writes to an index, with the orders of its iterations. -/
inductive Op where
  | insert (before after : HashOrder) (id : VectorId) (document : Document)
  | remove (order : HashOrder) (id : VectorId)

def step (U : Unicode) (self : InMemoryLexicalIndex) : Op → Option InMemoryLexicalIndex
  | .insert before after id document => self.insert U before after id document
  | .remove order id => self.remove order id

def run (U : Unicode) (self : InMemoryLexicalIndex) (ops : List Op) :
    Option InMemoryLexicalIndex := ops.foldlM (step U) self

/-- The map of stored documents after one call. -/
def Op.apply (documents : VectorId → Option Document) : Op → VectorId → Option Document
  | .insert _ _ id document => Function.update documents id (some document)
  | .remove _ id => Function.update documents id none

/-- The map of stored documents a run ends with. -/
def documents (ops : List Op) : VectorId → Option Document := ops.foldl Op.apply (fun _ => none)

end InMemoryLexicalIndex

end EidosDB
