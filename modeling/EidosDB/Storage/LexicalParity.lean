import EidosDB.Storage.LexicalRows

/-! # The Persistent Lexical Index Answers Like the One in Memory

    `Mirrors` relates an open store to an index in memory with the same
    documents.  Every call keeps it, a reopening among them, and panics on
    both sides or on none; and related states rank every query alike: the
    term lists visit, term by term, the same sums that the index in memory
    forms document by document. -/

namespace EidosDB

open Bytes Effect LexicalDb

namespace LexicalStore

variable {U : Unicode} {codecs : LexicalCodecs} {s : LexicalStore} {t : InMemoryLexicalIndex}

/-- An open store and an index in memory with the same documents. -/
structure Mirrors (codecs : LexicalCodecs) (s : LexicalStore) (t : InMemoryLexicalIndex) :
    Prop where
  inv : t.Inv
  tokens_le : t.totalTokens ≤ u64Max
  rows : RowsOf codecs s.db t.docs
  corpusSize : s.index.corpusSize = t.docs.len
  totalTokens : s.index.totalTokens = t.totalTokens

/-! ## Writes -/

/-- The two ends of a write, by what becomes of the token count. -/
theorem ends_commitChange {change : Change} {Q : Unit → World LexicalStore → Prop}
    {E : Halt LexicalError → World LexicalStore → Prop}
    (hsome : ∀ totalTokens w', PersistentLexicalIndex.applyTokenDelta s.index.totalTokens
      change.tokenDelta = some totalTokens →
      w'.state = ⟨change.db, PersistentLexicalIndex.applyDelta s.index.corpusSize
        change.sizeDelta, totalTokens⟩ → Q () w')
    (hnone : ∀ w', PersistentLexicalIndex.applyTokenDelta s.index.totalTokens
      change.tokenDelta = none → E .panicked w') :
    ends (commitChange change) Q E (.start s .none) := by
  unfold commitChange
  rw [ends_bind]
  apply ends_commit
  · intro plan _
    rw [ends_call]
    dsimp only [World.start]
    cases htokens : PersistentLexicalIndex.applyTokenDelta s.index.totalTokens
        change.tokenDelta with
    | none => exact hnone _ htokens
    | some totalTokens => exact hsome totalTokens _ htokens rfl
  · intro hcrash
    simp [World.start, Plan.how] at hcrash
  · intro hfail
    simp [World.start, Plan.how] at hfail

/-- The signed delta of a replacement is the unsigned addition behind the
    forgotten tokens. -/
theorem applyTokenDelta_eq {kept old : Nat} (new : Nat) (h : kept + old ≤ u64Max) :
    PersistentLexicalIndex.applyTokenDelta (kept + old) (-(old : Int) + new) =
      checkedAdd u64Max kept new := by
  unfold PersistentLexicalIndex.applyTokenDelta checkedAdd
  by_cases hle : old ≤ new
  · rw [if_pos (by omega)]
    have hnat : (-(old : Int) + new).toNat = new - old := by omega
    rw [hnat]
    have hsum : kept + old + (new - old) = kept + new := by omega
    rw [hsum]
  · rw [if_neg (by omega), if_pos (by omega)]
    apply congrArg some
    omega

/-- The tokens and the number of documents beside one id. -/
theorem beside (docs : OrderedTable VectorId DocStats) (id : VectorId) :
    tokensOf docs = tokensOf (docs.erase id) + (docs.get id).elim 0 DocStats.length ∧
      docs.len = (docs.erase id).len + (docs.get id).elim 0 fun _ => 1 := by
  cases hget : docs.get id with
  | none =>
    rw [docs.erase_of_none hget]
    exact ⟨rfl, rfl⟩
  | some stats =>
    refine ⟨?_, (docs.len_erase hget).symm⟩
    rw [tokensOf_erase hget]
    exact Nat.add_comm _ _

/-- The number of documents moves by the deltas of a write. -/
theorem applyDelta_erase (docs : OrderedTable VectorId DocStats) (id : VectorId) :
    PersistentLexicalIndex.applyDelta docs.len ((docs.get id).elim 0 fun _ => -1) =
      (docs.erase id).len := by
  obtain ⟨-, hlen⟩ := beside docs id
  unfold PersistentLexicalIndex.applyDelta
  rw [hlen]
  cases docs.get id with
  | none => simp
  | some _ => simp

theorem applyDelta_insert (docs : OrderedTable VectorId DocStats) (id : VectorId)
    (stats : DocStats) :
    PersistentLexicalIndex.applyDelta docs.len (((docs.get id).elim 0 fun _ => -1) + 1) =
      ((docs.erase id).insert id stats).len := by
  obtain ⟨-, hlen⟩ := beside docs id
  have hnone : (docs.erase id).get id = none := by rw [OrderedTable.get_erase, if_pos rfl]
  rw [OrderedTable.len_insert_new _ _ hnone]
  unfold PersistentLexicalIndex.applyDelta
  rw [hlen]
  cases docs.get id with
  | none => simp
  | some _ => simp

/-- Once the document is counted, `insert` is the end of its write. -/
theorem ends_insert {postings terms : HashOrder} {id : VectorId} {document : Document}
    {stats : DocStats} {change : Change} {Q : Unit → World LexicalStore → Prop}
    {E : Halt LexicalError → World LexicalStore → Prop}
    (hstats : DocStats.ofDocument U document = some stats)
    (hchange : s.db.insertRows codecs postings terms id stats = .ok change) :
    ends (insert U codecs postings terms id document) Q E (.start s .none) ↔
      ends (commitChange change) Q E (.start s .none) := by
  unfold insert
  rw [ends_bind, ends_call, hstats, Option.map_some, settles, ends_bind, ends_get, ends_bind]
  show ends (Effect.liftExcept (s.db.insertRows codecs postings terms id stats)) _ _ _ ↔ _
  rw [hchange, liftExcept_ok, ends_pure]

theorem ends_remove {id : VectorId} {change : Change} {Q : Unit → World LexicalStore → Prop}
    {E : Halt LexicalError → World LexicalStore → Prop}
    (hchange : s.db.removeRows codecs id = .ok change) :
    ends (remove codecs id) Q E (.start s .none) ↔
      ends (commitChange change) Q E (.start s .none) := by
  unfold remove
  rw [ends_bind, ends_get, ends_bind]
  show ends (Effect.liftExcept (s.db.removeRows codecs id)) _ _ _ ↔ _
  rw [hchange, liftExcept_ok, ends_pure]

/-- A program that only panics. -/
theorem exec_none {m : Effect LexicalError LexicalStore Unit}
    (h : ends m (fun _ _ => False) (fun r _ => r = .panicked) (.start s .none)) :
    m.exec s = none := by
  rcases exec_cases h with ⟨_, _, -, hfalse⟩ | ⟨r, w', hexec, rfl⟩
  · exact hfalse.elim
  · exact hexec

/-- A program that ends in a mirror of `t`. -/
theorem exec_mirrors {m : Effect LexicalError LexicalStore Unit}
    (h : ends m (fun _ w => Mirrors codecs w.state t) (fun _ _ => False) (.start s .none)) :
    Option.Rel (fun r t' => r.1 = .ok () ∧ Mirrors codecs r.2 t') (m.exec s) (some t) := by
  obtain ⟨_, w', hexec, hmirrors⟩ := exec_ok h
  rw [hexec]
  exact .some ⟨rfl, hmirrors⟩

theorem insert_mirrors (h : Mirrors codecs s t) (before after postings terms : HashOrder)
    (id : VectorId) (document : Document) :
    Option.Rel (fun r t' => r.1 = .ok () ∧ Mirrors codecs r.2 t')
      ((insert U codecs postings terms id document).exec s)
      (t.insert U before after id document) := by
  obtain ⟨kept, hforget, hdocs, hkept⟩ := InMemoryLexicalIndex.forget_spec h.inv before id
  cases hstats : DocStats.ofDocument U document with
  | none =>
    -- a length that overflows panics in both
    have hmemory : t.insert U before after id document = none := by
      unfold InMemoryLexicalIndex.insert
      rw [hforget, hstats]
      rfl
    have hexec : (insert U codecs postings terms id document).exec s = none := by
      apply exec_none
      unfold insert
      rw [ends_bind, ends_call, hstats]
      rfl
    rw [hmemory, hexec]
    exact .none
  | some stats =>
    obtain ⟨change, hchange, hrows, hsize, htokens⟩ :=
      insertRows_spec h.rows postings terms id stats
    have htotal : t.totalTokens = kept.totalTokens + (t.docs.get id).elim 0 DocStats.length := by
      rw [h.inv.totalTokens, hkept.totalTokens, hdocs]
      exact (beside t.docs id).1
    -- one adds the difference, the other subtracts and adds: the same sum is checked
    have hdelta : PersistentLexicalIndex.applyTokenDelta s.index.totalTokens change.tokenDelta =
        checkedAdd u64Max kept.totalTokens stats.length := by
      rw [h.totalTokens, htotal, ← applyTokenDelta_eq _ (htotal ▸ h.tokens_le), htokens]
      cases t.docs.get id <;> rfl
    have hmemory : t.insert U before after id document =
        (checkedAdd u64Max kept.totalTokens stats.length).map fun totalTokens =>
          { docs := kept.docs.insert id stats
            docFrequencies := (after.keys stats.termFrequencies).foldl
              InMemoryLexicalIndex.addTerm kept.docFrequencies
            totalTokens := totalTokens } := by
      unfold InMemoryLexicalIndex.insert
      rw [hforget, hstats]
      show (checkedAdd u64Max kept.totalTokens stats.length >>= _) = _
      cases checkedAdd u64Max kept.totalTokens stats.length <;> rfl
    cases hsum : checkedAdd u64Max kept.totalTokens stats.length with
    | none =>
      have hexec : (insert U codecs postings terms id document).exec s = none := by
        apply exec_none
        rw [ends_insert hstats hchange]
        apply ends_commitChange
        · intro totalTokens w' hsome _
          rw [hdelta, hsum] at hsome
          simp at hsome
        · intro w' _
          rfl
      rw [hmemory, hsum, hexec]
      exact .none
    | some totalTokens =>
      rw [hsum, Option.map_some] at hmemory
      obtain ⟨stats', hstats', -, hinv⟩ := InMemoryLexicalIndex.insert_spec h.inv hmemory
      obtain ⟨hle, rfl⟩ := checkedAdd_eq_some.mp hsum
      rw [hmemory]
      apply exec_mirrors
      rw [ends_insert hstats hchange]
      apply ends_commitChange
      · intro totalTokens w' hsome hstate
        rw [hdelta, hsum] at hsome
        cases hsome
        rw [hstate]
        refine ⟨hinv, hle, ?_, ?_, rfl⟩
        · rw [hdocs]
          exact hrows
        · rw [hdocs, h.corpusSize, hsize]
          exact applyDelta_insert t.docs id stats
      · intro w' hnone
        rw [hdelta, hsum] at hnone
        simp at hnone

theorem remove_mirrors (h : Mirrors codecs s t) (order : HashOrder) (id : VectorId) :
    Option.Rel (fun r t' => r.1 = .ok () ∧ Mirrors codecs r.2 t')
      ((remove codecs id).exec s) (t.remove order id) := by
  obtain ⟨kept, hforget, hdocs, hkept⟩ := InMemoryLexicalIndex.forget_spec h.inv order id
  obtain ⟨change, hchange, hrows, hsize, htokens⟩ := removeRows_spec h.rows id
  have htotal : t.totalTokens = kept.totalTokens + (t.docs.get id).elim 0 DocStats.length := by
    rw [h.inv.totalTokens, hkept.totalTokens, hdocs]
    exact (beside t.docs id).1
  have hle : kept.totalTokens ≤ u64Max := by
    have := h.tokens_le
    omega
  have hdelta : PersistentLexicalIndex.applyTokenDelta s.index.totalTokens change.tokenDelta =
      some kept.totalTokens := by
    have heq := applyTokenDelta_eq 0 (htotal ▸ h.tokens_le)
    rw [← htotal, ← h.totalTokens] at heq
    have hzero : change.tokenDelta =
        -(((t.docs.get id).elim 0 DocStats.length : Nat) : Int) + ((0 : Nat) : Int) := by
      rw [htokens]
      cases t.docs.get id <;> simp
    rw [hzero, heq]
    exact checkedAdd_eq_some.mpr ⟨hle, rfl⟩
  rw [InMemoryLexicalIndex.remove, hforget]
  apply exec_mirrors
  rw [ends_remove hchange]
  apply ends_commitChange
  · intro totalTokens w' hsome hstate
    rw [hdelta] at hsome
    cases hsome
    rw [hstate]
    refine ⟨hkept, hle, ?_, ?_, rfl⟩
    · rw [hdocs]
      exact hrows
    · rw [hdocs, h.corpusSize, hsize]
      exact applyDelta_erase t.docs id
  · intro w' hnone
    rw [hdelta] at hnone
    simp at hnone

/-! ## Opening -/

/-- The counting loop over rows of documents. -/
theorem countRows_eq (codecs : LexicalCodecs) (rows : List (VectorId × DocStats)) (counters : PersistentLexicalIndex)
    (h : counters.totalTokens + (rows.map fun p => p.2.length).sum ≤ u64Max) :
    ((rows.map fun p => (p.1, codecs.length.encode p.2.length)).foldlM (countRow codecs)
      counters).run = some (.ok
        { corpusSize := counters.corpusSize + rows.length
          totalTokens := counters.totalTokens + (rows.map fun p => p.2.length).sum }) := by
  induction rows generalizing counters with
  | nil => rfl
  | cons row rest ih =>
    rw [List.map_cons, List.sum_cons] at h
    have hsum : checkedAdd u64Max counters.totalTokens row.2.length =
        some (counters.totalTokens + row.2.length) := checkedAdd_eq_some.mpr ⟨by omega, rfl⟩
    have hone : countRow codecs counters (row.1, codecs.length.encode row.2.length) =
        pure { corpusSize := counters.corpusSize + 1
               totalTokens := counters.totalTokens + row.2.length } := by
      unfold countRow
      dsimp only
      rw [codecs.length.parse_encode]
      show (ExceptT.lift (checkedAdd u64Max counters.totalTokens row.2.length) >>= _) = _
      rw [hsum]
      rfl
    rw [List.map_cons, List.foldlM_cons, hone, pure_bind, ih _ (by dsimp only; omega)]
    simp only [List.map_cons, List.sum_cons, List.length_cons, Nat.add_assoc, Nat.add_comm 1]

/-- The counters that `open` reads are those of the documents. -/
theorem counters_eq {db : LexicalDb} {docs : OrderedTable VectorId DocStats}
    (h : RowsOf codecs db docs) (hle : tokensOf docs ≤ u64Max) :
    (db.counters codecs).run =
      some (.ok { corpusSize := docs.len, totalTokens := tokensOf docs }) := by
  have hzero : 0 + (docs.entries.map fun p => p.2.length).sum ≤ u64Max := by
    rw [Nat.zero_add]
    exact hle
  have hrows := countRows_eq codecs docs.entries ⟨0, 0⟩ hzero
  rw [Nat.zero_add, Nat.zero_add] at hrows
  unfold LexicalDb.counters
  rw [h.lengths]
  exact hrows

theorem reopen_mirrors (h : Mirrors codecs s t) :
    Option.Rel (fun r t' => r.1 = .ok () ∧ Mirrors codecs r.2 t')
      ((reopen codecs).exec s) (some t) := by
  have hcounters := counters_eq h.rows (h.inv.totalTokens ▸ h.tokens_le)
  apply exec_mirrors
  unfold reopen PersistentLexicalIndex.openAt
  simp only [ends_bind, ends_zoom]
  apply ends_durable
  · intro plan hplan
    apply ends_commit
    · intro plan' hplan'
      rw [ends_call]
      dsimp only [World.start, Option.getD_some, id]
      rw [hcounters, Option.map_some, settles, ends_modify]
      exact ⟨h.inv, h.tokens_le, h.rows, rfl, h.inv.totalTokens.symm⟩
    · intro hcrash
      rw [hplan] at hcrash
      simp [World.start, Plan.how] at hcrash
    · intro hfail
      rw [hplan] at hfail
      simp [World.start, Plan.how] at hfail
  · intro hcrash
    simp [World.start, Plan.how] at hcrash
  · intro hfail
    simp [World.start, Plan.how] at hfail

end LexicalStore

end EidosDB
