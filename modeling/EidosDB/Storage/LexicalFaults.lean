import EidosDB.Lib.Transaction
import EidosDB.Lib.Session
import EidosDB.Storage.LexicalParity

/-! # Failing Steps of the Lexical Index

    The calls of the persistent lexical index once more, with every step that
    may fail: each call of the database, each row that is encoded or decoded.
    A step that fails ends the call, and the transaction it is in is dropped.
    So a call that fails leaves the tables and the counters as they were, and
    one that succeeds moves the counters to those of the new tables. -/

namespace EidosDB

open Bytes Effect LexicalDb

/-- A row that cannot be encoded or decoded for no reason of the program's. -/
def LexicalError.rowFailure : LexicalError :=
  .serialization "Hit the end of buffer, expected more data"

section Steps

variable {σ : Type} (U : Unicode) (codecs : LexicalCodecs)

/-- A call of the database. -/
abbrev LexicalDb.redb : Effect LexicalError σ Unit := fallible .failure

/-- Calls of the database, one after another. -/
abbrev LexicalDb.redbs (n : Nat) : Effect LexicalError σ Unit := fallibles .failure n

/-- `decode` -/
def decodeRow {α : Type} (codec : Codec α) (bytes : List Byte) : Effect LexicalError σ α := do
  fallible .rowFailure
  Effect.liftExcept (codec.parse bytes)

/-- `encode` -/
def encodeRow {α : Type} (codec : Codec α) (a : α) : Effect LexicalError σ (List Byte) := do
  fallible .rowFailure
  pure (codec.encode a)

namespace LexicalDb.Change

/-! ## Steps of a transaction -/

def withPostings (self : Change) (postings : OrderedTable String (List Byte)) : Change :=
  { self with db := { self.db with postings := postings } }

/-- The list of a term. -/
def readList (term : String) : Effect LexicalError Change (List (VectorId × Nat)) := do
  redb
  let self ← get
  match self.db.postings.get term with
  | none => pure []
  | some row => decodeRow codecs.postings row

/-- The list of a term is written. -/
def writeList (term : String) (list : List (VectorId × Nat)) : Effect LexicalError Change Unit := do
  let row ← encodeRow codecs.postings list
  redb
  modify fun self => self.withPostings (self.db.postings.insert term row)

/-- One term of a document that is forgotten. -/
def dropTerm (id : VectorId) (term : String) : Effect LexicalError Change Unit := do
  let list ← readList codecs term
  let kept := list.filter fun p => decide (p.1 ≠ id)
  if kept.isEmpty then do
    redb
    modify fun self => self.withPostings (self.db.postings.erase term)
  else writeList codecs term kept

/-- One term of a document that is inserted, with its frequency. -/
def addTerm (id : VectorId) (term : String × Nat) : Effect LexicalError Change Unit := do
  let list ← readList codecs term.1
  writeList codecs term.1 (list ++ [(id, term.2)])

/-- The token count without a document that is forgotten. -/
def dropLength (id : VectorId) : Effect LexicalError Change Unit := do
  redb
  let self ← get
  match self.db.docLengths.get id with
  | none => pure ()
  | some row => do
    let old ← decodeRow codecs.length row
    modify fun self => { self with tokenDelta := self.tokenDelta - (old : Int) }

/-- The step of both writes that takes out the document stored before; it
    answers whether there is one. -/
def forgetPrior (id : VectorId) : Effect LexicalError Change Bool := do
  redb
  let self ← get
  match self.db.docTerms.get id with
  | none => pure false
  | some row => do
    let priorTerms ← decodeRow codecs.terms row
    priorTerms.forM (dropTerm codecs id)
    dropLength codecs id
    pure true

/-- The transaction of `insert`. -/
def insertBody (postings terms : HashOrder) (id : VectorId) (stats : DocStats) :
    Effect LexicalError Change Unit := do
  -- the three tables are opened
  redbs 3
  let prior ← forgetPrior codecs id
  modify fun self => if prior then { self with sizeDelta := self.sizeDelta - 1 } else self
  (postings.entries stats.termFrequencies).forM (addTerm codecs id)
  let distinct ← encodeRow codecs.terms (terms.keys stats.termFrequencies)
  redb
  modify fun self => { self with db := { self.db with docTerms := self.db.docTerms.insert id distinct } }
  let length ← encodeRow codecs.length stats.length
  redb
  modify fun self =>
    { db := { self.db with docLengths := self.db.docLengths.insert id length }
      sizeDelta := self.sizeDelta + 1
      tokenDelta := self.tokenDelta + stats.length }

/-- The transaction of `remove`. -/
def removeBody (id : VectorId) : Effect LexicalError Change Unit := do
  -- the three tables are opened
  redbs 3
  let prior ← forgetPrior codecs id
  if prior then do
    redb
    modify fun self => { self with db := { self.db with docLengths := self.db.docLengths.erase id } }
    redb
    modify fun self =>
      { self with
        db := { self.db with docTerms := self.db.docTerms.erase id }
        sizeDelta := self.sizeDelta - 1 }
  else pure ()

/-- A transaction that has done nothing. -/
def start (db : LexicalDb) : Change := { db := db, sizeDelta := 0, tokenDelta := 0 }

end LexicalDb.Change

/-! ## The calls -/

namespace LexicalStore

/-- `LexicalIndex::insert`, step by step. -/
def insertSteps (postings terms : HashOrder) (id : VectorId) (document : Document) :
    Effect LexicalError LexicalStore Unit := do
  let stats ← call fun self => (DocStats.ofDocument U document).map fun stats => (.ok stats, self)
  redb
  let self ← get
  let change ← transaction (.start self.db) (Change.insertBody codecs postings terms id stats)
  commitChange change

/-- `LexicalIndex::remove`, step by step. -/
def removeSteps (id : VectorId) : Effect LexicalError LexicalStore Unit := do
  redb
  let self ← get
  let change ← transaction (.start self.db) (Change.removeBody codecs id)
  commitChange change

end LexicalStore

namespace PersistentLexicalIndex

/-- The counting loop of `open`. -/
def countSteps : List (VectorId × List Byte) → PersistentLexicalIndex →
    Effect LexicalError (Option LexicalDb) PersistentLexicalIndex
  | [], counters => pure counters
  | row :: rest, counters => do
    redb
    let length ← decodeRow codecs.length row.2
    match checkedAdd u64Max counters.totalTokens length with
    | none => panic
    | some totalTokens =>
      countSteps rest { corpusSize := counters.corpusSize + 1, totalTokens := totalTokens }

/-- `PersistentLexicalIndex::open`, step by step. -/
def openSteps : Effect LexicalError (Option LexicalDb) PersistentLexicalIndex := do
  durable .failure (fun file => some (file.getD .fresh))
  -- a transaction that only makes the three tables
  redbs 4
  commit .failure id
  -- the lengths are opened and walked
  redbs 3
  let file ← get
  countSteps codecs (file.getD .fresh).docLengths.entries { corpusSize := 0, totalTokens := 0 }

end PersistentLexicalIndex

end Steps

/-! ## A transaction does what its rows say -/

section Yields

variable {σ : Type} {codecs : LexicalCodecs}

theorem yields_decodeRow {α : Type} (codec : Codec α) (bytes : List Byte) (s : σ) :
    Yields (decodeRow codec bytes) s fun a s' => codec.parse bytes = .ok a ∧ s' = s := by
  apply yields_fallible
  rintro w rfl
  cases hparse : codec.parse bytes with
  | ok a => exact ⟨rfl, rfl⟩
  | error e => exact fun hpanic => nomatch hpanic

theorem yields_encodeRow {α : Type} (codec : Codec α) (a : α) (s : σ) :
    Yields (encodeRow codec a) s fun row s' => row = codec.encode a ∧ s' = s :=
  yields_fallible (yields_pure ⟨rfl, rfl⟩)

namespace LexicalDb.Change

/-- What the steps on the lists leave alone. -/
def rest (self : Change) :
    OrderedTable VectorId (List Byte) × OrderedTable VectorId (List Byte) × Int × Int :=
  (self.db.docLengths, self.db.docTerms, self.sizeDelta, self.tokenDelta)

/-- A change is its lists and the rest. -/
theorem eq_withPostings {t t' : Change} (h : t'.rest = t.rest) :
    t' = t.withPostings t'.db.postings := by
  obtain ⟨⟨postings, docLengths, docTerms⟩, sizeDelta, tokenDelta⟩ := t
  obtain ⟨⟨postings', docLengths', docTerms'⟩, sizeDelta', tokenDelta'⟩ := t'
  obtain ⟨hlengths, hterms, hsize, htoken⟩ : docLengths' = docLengths ∧ docTerms' = docTerms ∧
      sizeDelta' = sizeDelta ∧ tokenDelta' = tokenDelta := by
    simpa [rest] using h
  subst hlengths hterms hsize htoken
  rfl

theorem yields_readList (term : String) (t : Change) :
    Yields (readList codecs term) t fun list t' =>
      postingList codecs t.db.postings term = .ok list ∧ t' = t := by
  apply yields_fallible
  apply yields_get
  unfold postingList
  cases t.db.postings.get term with
  | none => exact yields_pure ⟨rfl, rfl⟩
  | some row => exact yields_decodeRow codecs.postings row t

theorem yields_writeList (term : String) (list : List (VectorId × Nat)) (t : Change) :
    Yields (writeList codecs term list) t fun _ t' =>
      t' = t.withPostings (t.db.postings.insert term (codecs.postings.encode list)) := by
  apply yields_bind (yields_encodeRow codecs.postings list t)
  rintro row t' ⟨rfl, rfl⟩
  exact yields_fallible (yields_modify rfl)

theorem yields_dropTerm (id : VectorId) (term : String) (t : Change) :
    Yields (dropTerm codecs id term) t fun _ t' =>
      dropPosting codecs id t.db.postings term = .ok t'.db.postings ∧ t'.rest = t.rest := by
  apply yields_bind (yields_readList term t)
  rintro list t' ⟨hlist, rfl⟩
  unfold dropPosting
  rw [hlist]
  dsimp only [bind, Except.bind]
  split
  · exact yields_fallible (yields_modify ⟨rfl, rfl⟩)
  · apply yields_mono (yields_writeList term _ t')
    rintro _ _ rfl
    exact ⟨rfl, rfl⟩

theorem yields_addTerm (id : VectorId) (term : String × Nat) (t : Change) :
    Yields (addTerm codecs id term) t fun _ t' =>
      addPosting codecs id t.db.postings term = .ok t'.db.postings ∧ t'.rest = t.rest := by
  apply yields_bind (yields_readList term.1 t)
  rintro list t' ⟨hlist, rfl⟩
  unfold addPosting
  rw [hlist]
  dsimp only [bind, Except.bind]
  apply yields_mono (yields_writeList term.1 _ t')
  rintro _ _ rfl
  exact ⟨rfl, rfl⟩

theorem yields_dropLength (id : VectorId) (t : Change) :
    Yields (dropLength codecs id) t fun _ t' => ∃ delta, lengthDelta codecs t.db id = .ok delta ∧
      t' = { t with tokenDelta := t.tokenDelta + delta } := by
  apply yields_fallible
  apply yields_get
  unfold lengthDelta
  cases t.db.docLengths.get id with
  | none => exact yields_pure ⟨0, rfl, by rw [Int.add_zero]⟩
  | some row =>
    apply yields_bind (yields_decodeRow codecs.length row t)
    rintro old t' ⟨hold, rfl⟩
    apply yields_modify
    dsimp only
    rw [hold]
    exact ⟨-(old : Int), rfl, rfl⟩

/-- What becomes of a transaction that has taken out a document. -/
def forgot (t : Change) (prior : Option (OrderedTable String (List Byte) × Int)) : Change :=
  { t.withPostings (prior.elim t.db.postings Prod.fst) with
    tokenDelta := t.tokenDelta + prior.elim 0 Prod.snd }

theorem yields_forgetPrior (id : VectorId) (t : Change) :
    Yields (forgetPrior codecs id) t fun found t' => ∃ prior,
      forgetRows codecs t.db id = .ok prior ∧ found = prior.isSome ∧ t' = t.forgot prior := by
  apply yields_fallible
  apply yields_get
  unfold forgetRows
  cases t.db.docTerms.get id with
  | none =>
    refine yields_pure ⟨none, rfl, rfl, ?_⟩
    show t = { t with tokenDelta := t.tokenDelta + 0 }
    rw [Int.add_zero]
  | some row =>
    apply yields_bind (yields_decodeRow codecs.terms row t)
    rintro priorTerms t₁ ⟨hterms, rfl⟩
    apply yields_bind (yields_forM (fun t => t.db.postings) rest
      fun term _ t => yields_dropTerm id term t)
    rintro _ t₂ ⟨hdropped, hrest⟩
    have hdb : t₂.db.docLengths = t₁.db.docLengths := congrArg Prod.fst hrest
    apply yields_bind (yields_dropLength id t₂)
    rintro _ t₃ ⟨delta, hdelta, rfl⟩
    refine yields_pure ⟨some (t₂.db.postings, delta), ?_, rfl, ?_⟩
    · have hsame : lengthDelta codecs t₁.db id = .ok delta := by
        rw [← hdelta]
        unfold lengthDelta
        rw [hdb]
      dsimp only
      rw [hterms]
      show (priorTerms.foldlM (dropPosting codecs id) t₁.db.postings >>= _) = _
      rw [hdropped]
      show (lengthDelta codecs t₁.db id >>= _) = _
      rw [hsame]
      rfl
    · rw [eq_withPostings hrest]
      rfl

/-- A transaction of `insert` that ends has computed the new rows. -/
theorem yields_insertBody (db : LexicalDb) (postings terms : HashOrder) (id : VectorId)
    (stats : DocStats) : Yields (insertBody codecs postings terms id stats) (start db)
      fun _ change => insertRows codecs db postings terms id stats = .ok change := by
  apply yields_fallibles
  apply yields_bind (yields_forgetPrior id (start db))
  rintro found t₁ ⟨prior, hprior, rfl, rfl⟩
  apply yields_next
  apply yields_bind (yields_forM (fun t => t.db.postings) rest
    fun term _ t => yields_addTerm id term t)
  rintro _ t₂ ⟨hadded, hrest⟩
  apply yields_bind (yields_encodeRow codecs.terms _ t₂)
  rintro distinct t₃ ⟨rfl, rfl⟩
  apply yields_fallible
  apply yields_next
  apply yields_bind (yields_encodeRow codecs.length _ _)
  rintro length t₄ ⟨rfl, rfl⟩
  apply yields_fallible
  apply yields_modify
  have hrows : forgetRows codecs db id = .ok prior := hprior
  have hlists : List.foldlM (addPosting codecs id) (prior.elim db.postings Prod.fst)
      (postings.entries stats.termFrequencies) = .ok t₃.db.postings := by
    cases prior <;> exact hadded
  unfold insertRows
  rw [hrows]
  show (List.foldlM (addPosting codecs id) (prior.elim db.postings Prod.fst)
    (postings.entries stats.termFrequencies) >>= _) = _
  rw [hlists, eq_withPostings hrest]
  cases prior <;> simp [forgot, withPostings, start, bind, Except.bind]

theorem yields_removeBody (db : LexicalDb) (id : VectorId) :
    Yields (removeBody codecs id) (start db) fun _ change =>
      removeRows codecs db id = .ok change := by
  apply yields_fallibles
  apply yields_bind (yields_forgetPrior id (start db))
  rintro found t₁ ⟨prior, hprior, rfl, rfl⟩
  have hrows : forgetRows codecs db id = .ok prior := hprior
  unfold removeRows
  rw [hrows]
  cases prior with
  | none => exact yields_pure rfl
  | some p =>
    apply yields_fallible
    apply yields_next
    apply yields_fallible
    apply yields_modify
    simp [forgot, withPostings, start, bind, Except.bind]

end LexicalDb.Change

end Yields

/-! ## The counters of a set of documents -/

namespace LexicalStore

variable {U : Unicode} {codecs : LexicalCodecs} {docs docs' : OrderedTable VectorId DocStats}
  {db : LexicalDb} {change : Change} {id : VectorId}

/-- The counters of documents. -/
def countersOf (docs : OrderedTable VectorId DocStats) : PersistentLexicalIndex :=
  { corpusSize := docs.len, totalTokens := tokensOf docs }

/-- A transaction leads from one set of documents to another: its rows are
    theirs, its deltas lead from the counters of the one to those of the
    other, and take away no more than there is. -/
structure Leads (codecs : LexicalCodecs) (docs docs' : OrderedTable VectorId DocStats)
    (change : Change) : Prop where
  rows : RowsOf codecs change.db docs'
  size : PersistentLexicalIndex.applyDelta docs.len change.sizeDelta = docs'.len
  tokens : ∀ total, PersistentLexicalIndex.applyTokenDelta (tokensOf docs) change.tokenDelta =
    some total → total = tokensOf docs' ∧ total ≤ u64Max
  size_le : -change.sizeDelta ≤ docs.len
  tokens_le : -change.tokenDelta ≤ tokensOf docs

theorem leads_insertRows (h : RowsOf codecs db docs) (hle : tokensOf docs ≤ u64Max)
    {postings terms : HashOrder} {stats : DocStats}
    (hchange : insertRows codecs db postings terms id stats = .ok change) :
    Leads codecs docs ((docs.erase id).insert id stats) change := by
  obtain ⟨change', hchange', hrows, hsize, htokens⟩ := insertRows_spec h postings terms id stats
  rw [hchange] at hchange'
  cases hchange'
  obtain ⟨hsplit, hlen⟩ := beside docs id
  have hnone : (docs.erase id).get id = none := by rw [OrderedTable.get_erase, if_pos rfl]
  have hdelta : change.tokenDelta =
      -(((docs.get id).elim 0 DocStats.length : Nat) : Int) + stats.length := by
    rw [htokens]
    cases docs.get id <;> simp
  refine ⟨hrows, ?_, ?_, ?_, ?_⟩
  · rw [hsize]
    exact applyDelta_insert docs id stats
  · intro total htotal
    rw [hdelta, hsplit, applyTokenDelta_eq _ (hsplit ▸ hle)] at htotal
    obtain ⟨hfits, rfl⟩ := checkedAdd_eq_some.mp htotal
    rw [tokensOf_insert hnone]
    exact ⟨Nat.add_comm _ _, hfits⟩
  · rw [hsize, hlen]
    cases docs.get id with
    | none => simp
    | some _ =>
      rw [Option.elim_some, Option.elim_some]
      omega
  · rw [hdelta, hsplit]
    omega

theorem leads_removeRows (h : RowsOf codecs db docs) (hle : tokensOf docs ≤ u64Max)
    (hchange : removeRows codecs db id = .ok change) :
    Leads codecs docs (docs.erase id) change := by
  obtain ⟨change', hchange', hrows, hsize, htokens⟩ := removeRows_spec h id
  rw [hchange] at hchange'
  cases hchange'
  obtain ⟨hsplit, hlen⟩ := beside docs id
  have hdelta : change.tokenDelta =
      -(((docs.get id).elim 0 DocStats.length : Nat) : Int) + ((0 : Nat) : Int) := by
    rw [htokens]
    cases docs.get id <;> simp
  refine ⟨hrows, ?_, ?_, ?_, ?_⟩
  · rw [hsize]
    exact applyDelta_erase docs id
  · intro total htotal
    rw [hdelta, hsplit, applyTokenDelta_eq _ (hsplit ▸ hle)] at htotal
    obtain ⟨hfits, rfl⟩ := checkedAdd_eq_some.mp htotal
    exact ⟨Nat.add_zero _, hfits⟩
  · rw [hsize, hlen]
    cases docs.get id <;> simp
  · rw [hdelta, hsplit]
    omega

/-- The transactions of the writes. -/
inductive IsWrite (codecs : LexicalCodecs) : Effect LexicalError Change Unit → Prop
  | insert (postings terms : HashOrder) (id : VectorId) (stats : DocStats) :
      IsWrite codecs (Change.insertBody codecs postings terms id stats)
  | remove (id : VectorId) : IsWrite codecs (Change.removeBody codecs id)

theorem yields_write (h : RowsOf codecs db docs) (hle : tokensOf docs ≤ u64Max)
    {body : Effect LexicalError Change Unit} (hbody : IsWrite codecs body) :
    Yields body (.start db) fun _ change => ∃ docs', Leads codecs docs docs' change := by
  cases hbody with
  | insert postings terms id stats =>
    apply yields_mono (Change.yields_insertBody _ postings terms id stats)
    intro _ change hchange
    exact ⟨_, leads_insertRows h hle hchange⟩
  | remove id =>
    apply yields_mono (Change.yields_removeBody _ id)
    intro _ change hchange
    exact ⟨_, leads_removeRows h hle hchange⟩

/-- The tables are those of documents whose counters are cached. -/
def Counts (codecs : LexicalCodecs) (s : LexicalStore) : Prop :=
  ∃ docs, RowsOf codecs s.db docs ∧ tokensOf docs ≤ u64Max ∧ s.index = countersOf docs

/-- How a write ends: with the counters of the new tables, or with the store
    as it was.  A panic may come after the commit. -/
def EndsCounted (codecs : LexicalCodecs) (m : Effect LexicalError LexicalStore Unit)
    (w : World LexicalStore) : Prop :=
  ends m (fun _ w' => Counts codecs w'.state)
    (fun r w' => (r ≠ .panicked → w'.state = w.state) ∧
      ∃ docs, RowsOf codecs w'.state.db docs) w

/-- The end of a write. -/
theorem endsCounted_commitChange {w : World LexicalStore} (hindex : w.state.index = countersOf docs)
    (hrows : RowsOf codecs w.state.db docs) (h : Leads codecs docs docs' change) :
    EndsCounted codecs (commitChange change) w := by
  unfold EndsCounted commitChange
  rw [ends_bind]
  apply ends_commit
  · intro plan _
    rw [ends_call, hindex]
    dsimp only [countersOf]
    cases htokens : PersistentLexicalIndex.applyTokenDelta (tokensOf docs) change.tokenDelta with
    | none => exact ⟨fun hr => absurd rfl hr, docs', h.rows⟩
    | some total =>
      obtain ⟨rfl, hle⟩ := h.tokens total htokens
      exact ⟨docs', h.rows, hle, by rw [h.size]; rfl⟩
  · exact fun _ plan => ⟨fun _ => rfl, docs, hrows⟩
  · exact fun _ plan => ⟨fun _ => rfl, docs, hrows⟩

/-- A write is a transaction whose rows lead to other documents. -/
theorem endsCounted_write {w : World LexicalStore} (h : Counts codecs w.state)
    {body : Effect LexicalError Change Unit} (hbody : IsWrite codecs body) :
    EndsCounted codecs (do
      redb
      let self ← get
      let change ← transaction (.start self.db) body
      commitChange change) w := by
  obtain ⟨docs, hrows, hle, hindex⟩ := h
  apply ends_fallible
  · intro plan _
    rw [ends_bind, ends_get, ends_bind]
    apply ends_transaction (yields_write hrows hle hbody)
    · rintro change plan' commits ⟨docs', hleads⟩
      exact endsCounted_commitChange (w := ⟨w.state, plan', commits⟩) hindex hrows hleads
    · exact fun _ _ _ _ => ⟨fun _ => rfl, docs, hrows⟩
  · exact fun _ _ _ _ => ⟨fun _ => rfl, docs, hrows⟩

theorem endsCounted_insertSteps {w : World LexicalStore} (h : Counts codecs w.state)
    (postings terms : HashOrder) (id : VectorId) (document : Document) :
    EndsCounted codecs (insertSteps U codecs postings terms id document) w := by
  unfold EndsCounted insertSteps
  rw [ends_bind, ends_call]
  cases DocStats.ofDocument U document with
  | none =>
    obtain ⟨docs, hrows, -⟩ := h
    exact ⟨fun _ => rfl, docs, hrows⟩
  | some stats =>
    exact endsCounted_write (w := ⟨w.state, w.plan, w.commits⟩) h
      (.insert postings terms id stats)

theorem endsCounted_removeSteps {w : World LexicalStore} (h : Counts codecs w.state)
    (id : VectorId) : EndsCounted codecs (removeSteps codecs id) w :=
  endsCounted_write h (.remove id)

end LexicalStore

/-! ## Opening -/

namespace PersistentLexicalIndex

variable {codecs : LexicalCodecs} {docs : OrderedTable VectorId DocStats}

/-- The counting loop ends with the counters of the rows; undisturbed it halts
    only when they overflow. -/
theorem ends_countSteps (rows : List (VectorId × DocStats)) (counters : PersistentLexicalIndex)
    (hstart : counters.totalTokens ≤ u64Max) (w : World (Option LexicalDb)) :
    ends (countSteps codecs (rows.map fun p => (p.1, codecs.length.encode p.2.length)) counters)
      (fun counted w' => w'.state = w.state ∧ counted.totalTokens ≤ u64Max ∧
        counted = { corpusSize := counters.corpusSize + rows.length
                    totalTokens := counters.totalTokens + (rows.map fun p => p.2.length).sum })
      (fun _ w' => w'.state = w.state ∧ (w.plan.how = none →
        u64Max < counters.totalTokens + (rows.map fun p => p.2.length).sum)) w := by
  induction rows generalizing counters w with
  | nil => exact ⟨rfl, hstart, by simp⟩
  | cons row rest ih =>
    rw [List.map_cons, countSteps]
    apply ends_fallible
    · intro plan hplan
      unfold decodeRow
      rw [bind_bind]
      apply ends_fallible
      · intro plan' hplan'
        rw [codecs.length.parse_encode, liftExcept_ok, ends_bind, ends_pure]
        have hhow : plan'.how = w.plan.how := hplan'.trans hplan
        split
        next hover =>
          refine ⟨rfl, fun _ => ?_⟩
          have hgt : ¬ counters.totalTokens + row.2.length ≤ u64Max := fun hle => by
            rw [checkedAdd, if_pos hle] at hover
            cases hover
          rw [List.map_cons, List.sum_cons]
          omega
        next total hsum =>
          obtain ⟨hle, rfl⟩ := checkedAdd_eq_some.mp hsum
          apply ends_mono (ih _ hle _)
          · rintro counted w' ⟨hstate, hfits, rfl⟩
            refine ⟨hstate, hfits, ?_⟩
            simp only [List.length_cons, List.map_cons, List.sum_cons, Nat.add_assoc, Nat.add_comm 1]
          · rintro r w' ⟨hstate, hover⟩
            refine ⟨hstate, fun hnone => ?_⟩
            have hlt := hover (hhow.trans hnone)
            rw [List.map_cons, List.sum_cons]
            dsimp only at hlt
            omega
      · intro _ _ hne _
        exact ⟨rfl, fun hnone => absurd (hplan.trans hnone) hne⟩
    · intro _ _ hne _
      exact ⟨rfl, fun hnone => absurd hnone hne⟩

/-- The tables of a file. -/
def tables (file : Option LexicalDb) : LexicalDb := file.getD .fresh

/-- Opening counts the rows, and leaves the tables as they were however it
    ends. -/
theorem ends_openSteps {w : World (Option LexicalDb)} (hrows : RowsOf codecs (tables w.state) docs) :
    ends (openSteps codecs)
      (fun index w' => w'.state = some (tables w.state) ∧ tokensOf docs ≤ u64Max ∧
        index = LexicalStore.countersOf docs)
      (fun _ w' => tables w'.state = tables w.state ∧
        (w.plan.how = none → u64Max < tokensOf docs)) w := by
  -- an interrupted step leaves the tables, and was interrupted by the plan
  have hcut : ∀ (plan : Plan) (state : Option LexicalDb), plan.how = w.plan.how →
      plan.how ≠ none → tables state = tables w.state →
      tables state = tables w.state ∧ (w.plan.how = none → u64Max < tokensOf docs) :=
    fun plan state hhow hne htables => ⟨htables, fun hnone => absurd (hhow.trans hnone) hne⟩
  unfold openSteps
  apply ends_durable_bind
  · intro plan hplan
    apply ends_fallibles
    · intro plan₁ hplan₁
      have h₁ : plan₁.how = w.plan.how := hplan₁.trans hplan
      apply ends_commit_bind
      · intro plan₂ hplan₂
        have h₂ : plan₂.how = w.plan.how := hplan₂.trans h₁
        apply ends_fallibles
        · intro plan₃ hplan₃
          have h₃ : plan₃.how = w.plan.how := hplan₃.trans h₂
          rw [ends_bind, ends_get]
          have hlengths : (Option.getD (some (w.state.getD .fresh)) LexicalDb.fresh).docLengths.entries =
              docs.entries.map fun p => (p.1, codecs.length.encode p.2.length) :=
            congrArg OrderedTable.entries hrows.lengths
          dsimp only [id]
          rw [hlengths]
          apply ends_mono (ends_countSteps docs.entries ⟨0, 0⟩ (Nat.zero_le _) _)
          · rintro index w' ⟨hstate, hle, hcounted⟩
            have hindex : index = LexicalStore.countersOf docs := by
              rw [hcounted, Nat.zero_add, Nat.zero_add]
              rfl
            rw [hindex] at hle
            exact ⟨hstate, hle, hindex⟩
          · rintro r w' ⟨hstate, hover⟩
            refine ⟨by rw [hstate]; rfl, fun hnone => ?_⟩
            have hlt := hover (h₃.trans hnone)
            rwa [Nat.zero_add] at hlt
        · exact fun _ _ hne _ => hcut _ _ h₂ hne rfl
      · exact fun _ _ hne _ => hcut _ _ h₁ hne rfl
    · exact fun _ _ hne _ => hcut _ _ hplan hne rfl
  · exact fun _ _ hne _ => hcut _ _ rfl hne rfl

end PersistentLexicalIndex

/-! ## Runs -/

/-- A write, with the orders of its iterations. -/
inductive LexicalWrite where
  | insert (postings terms : HashOrder) (id : VectorId) (document : Document)
  | remove (id : VectorId)

namespace LexicalStore

variable (U : Unicode) (codecs : LexicalCodecs)

def writeSteps : LexicalWrite → Effect LexicalError LexicalStore Unit
  | .insert postings terms id document => insertSteps U codecs postings terms id document
  | .remove id => removeSteps codecs id

/-- The file of an index, which may not be there, and the index. -/
def program : Program LexicalError (Option LexicalDb) PersistentLexicalIndex LexicalWrite where
  openFile := PersistentLexicalIndex.openSteps codecs
  call write := zoom (fun s => ⟨s.1.getD .fresh, s.2⟩) (fun self _ => (some self.db, self.index))
    (writeSteps U codecs write)

variable {U codecs}

/-- The tables of a file are those of documents. -/
def FileOf (codecs : LexicalCodecs) (file : Option LexicalDb) : Prop :=
  ∃ docs, RowsOf codecs (PersistentLexicalIndex.tables file) docs

/-- So are those of an open file, and the handle counts them. -/
def OpenOf (codecs : LexicalCodecs) (file : Option LexicalDb) (index : PersistentLexicalIndex) :
    Prop :=
  ∃ db, file = some db ∧ Counts codecs ⟨db, index⟩

theorem respects : (program U codecs).Respects (FileOf codecs) (OpenOf codecs) := by
  refine ⟨?_, ?_, ?_⟩
  · rintro _ index ⟨db, rfl, docs, hrows, -⟩
    exact ⟨docs, hrows⟩
  · rintro file plan ⟨docs, hrows⟩
    apply ends_mono (PersistentLexicalIndex.ends_openSteps (w := .start file plan) hrows)
    · rintro index w' ⟨hstate, hle, hindex⟩
      exact ⟨_, hstate, docs, hrows, hle, hindex⟩
    · rintro r w' ⟨htables, -⟩
      exact ⟨docs, htables ▸ hrows⟩
  · rintro _ index write plan ⟨db, rfl, hcounts⟩
    have hends : EndsCounted codecs (writeSteps U codecs write) (.start ⟨db, index⟩ plan) := by
      cases write with
      | insert postings terms id document =>
        exact endsCounted_insertSteps hcounts postings terms id document
      | remove id => exact endsCounted_removeSteps hcounts id
    unfold program
    rw [ends_zoom]
    apply ends_mono hends
    · rintro _ w' hcounts'
      exact ⟨_, rfl, hcounts'⟩
    · rintro r w' ⟨hsame, hrows⟩
      refine ⟨fun hr => ?_, hrows⟩
      rw [hsame hr]
      rfl

/-- Opening an open file again gives the handle there is. -/
theorem exec_openFile {file : Option LexicalDb} {index : PersistentLexicalIndex}
    (h : OpenOf codecs file index) :
    (program U codecs).openFile.exec file = some (.ok index, file) := by
  obtain ⟨db, rfl, docs, hrows, hle, rfl⟩ := h
  rcases exec_cases (PersistentLexicalIndex.ends_openSteps (w := .start (some db) .none) hrows) with
    ⟨index, w', hexec, hstate, -, rfl⟩ | ⟨r, w', -, -, hover⟩
  · rw [hstate] at hexec
    exact hexec
  · exact absurd (hover rfl) (Nat.not_lt.mpr hle)

variable (U codecs) in
/-- An index on a file that is not there yet, after some events. -/
def runFresh (events : List (Access LexicalWrite)) :
    Session (Option LexicalDb) PersistentLexicalIndex :=
  (program U codecs).run ⟨none, none⟩ events

theorem holds_runFresh (events : List (Access LexicalWrite)) :
    Program.Holds (FileOf codecs) (OpenOf codecs) (runFresh U codecs events) := by
  have hfresh : Program.Holds (FileOf codecs) (OpenOf codecs) ⟨none, none⟩ :=
    ⟨.empty, rowsOf_fresh codecs⟩
  exact respects.run_holds hfresh events

theorem neverDrifts (events : List (Access LexicalWrite)) :
    (program U codecs).NeverDrifts PersistentLexicalIndex.tables (runFresh U codecs events) := by
  apply respects.neverDrifts (holds_runFresh events)
  · exact exec_openFile
  · rintro file plan ⟨docs, hrows⟩
    exact ends_mono (PersistentLexicalIndex.ends_openSteps (w := .start file plan) hrows)
      (fun _ _ _ => trivial) fun _ _ hr => hr.1

/-- What the next write takes away from the counters is there. -/
def NeverUnderflows (codecs : LexicalCodecs)
    (s : Session (Option LexicalDb) PersistentLexicalIndex) : Prop :=
  ∀ index, s.handle = some index → ∀ body, IsWrite codecs body → ∀ plan w',
    body (.start (.start (PersistentLexicalIndex.tables s.file)) plan) = (.ok (), w') →
    -w'.state.sizeDelta ≤ index.corpusSize ∧ -w'.state.tokenDelta ≤ index.totalTokens

theorem neverUnderflows (events : List (Access LexicalWrite)) :
    NeverUnderflows codecs (runFresh U codecs events) := by
  have hholds : Program.Holds (FileOf codecs) (OpenOf codecs) (runFresh U codecs events) :=
    holds_runFresh events
  generalize runFresh U codecs events = s at hholds
  obtain ⟨file, handle⟩ := s
  rintro index ⟨rfl⟩ body hbody plan w' hrun
  obtain ⟨db, rfl, docs, hrows, hle, rfl⟩ := hholds
  have hyields := yields_write hrows hle hbody (.start (.start db) plan) rfl
  rw [PersistentLexicalIndex.tables, Option.getD_some] at hrun
  unfold ends at hyields
  rw [hrun] at hyields
  obtain ⟨docs', hleads⟩ := hyields
  exact ⟨hleads.size_le, hleads.tokens_le⟩

end LexicalStore

end EidosDB
