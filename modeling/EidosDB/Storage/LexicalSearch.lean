import EidosDB.Storage.LexicalParity

/-! # Searches of the Persistent Lexical Index

    The term lists are walked query term by query term, and each adds to the
    scores of the documents it holds.  A document is in a list once, so its
    score is the sum, in the order of the query, that the index in memory
    forms for it; a document in no list has no score here and zero there,
    and zero is not kept.  With the writes this makes the two indexes agree
    along every run. -/

namespace EidosDB

open Bytes Effect Fold LexicalDb

namespace LexicalStore

variable {U : Unicode} {codecs : LexicalCodecs} {ops : F64Ops} {s : LexicalStore}
  {t : InMemoryLexicalIndex}

/-! ## One list -/

/-- The admissible documents of a list get their contributions, the other
    scores stay. -/
theorem addContributions_spec (ops : F64Ops) {docs : OrderedTable VectorId DocStats}
    (hrows : RowsOf codecs s.db docs) (isAdmissible : VectorId → Bool) (idf : F64)
    {list : List (VectorId × Nat)} (hnodup : (list.map Prod.fst).Nodup)
    (hstored : ∀ p ∈ list, ∃ stats, docs.get p.1 = some stats)
    (scores : OrderedTable VectorId F64) :
    ∃ scores', list.foldlM (s.addContribution codecs ops isAdmissible idf) scores = .ok scores' ∧
      (∀ id, isAdmissible id = false ∨ id ∉ list.map Prod.fst →
        scores'.get id = scores.get id) ∧
      ∀ id frequency stats, (id, frequency) ∈ list → isAdmissible id = true →
        docs.get id = some stats →
        scores'.get id = some (ops.add ((scores.get id).getD .zero)
          (Bm25.termScore ops frequency stats.length
            (Bm25.averageDocLength ops s.index.totalTokens s.index.corpusSize) idf)) := by
  induction list generalizing scores with
  | nil => exact ⟨scores, rfl, fun _ _ => rfl, by simp⟩
  | cons p rest ih =>
    obtain ⟨hnot, hnodup⟩ := List.nodup_cons.mp hnodup
    obtain ⟨stats, hget⟩ := hstored p List.mem_cons_self
    have hone : ∃ scores₁, s.addContribution codecs ops isAdmissible idf scores p = .ok scores₁ ∧
        (∀ id, isAdmissible id = false ∨ id ≠ p.1 → scores₁.get id = scores.get id) ∧
        (isAdmissible p.1 = true → scores₁.get p.1 = some (ops.add
          ((scores.get p.1).getD .zero) (Bm25.termScore ops p.2 stats.length
            (Bm25.averageDocLength ops s.index.totalTokens s.index.corpusSize) idf))) := by
      unfold addContribution
      cases hadm : isAdmissible p.1 with
      | false => exact ⟨scores, rfl, fun _ _ => rfl, by simp⟩
      | true =>
        rw [hrows.lengths, OrderedTable.get_mapValues, hget]
        dsimp only [Option.map_some]
        rw [codecs.length.parse_encode]
        refine ⟨_, rfl, ?_, fun _ => OrderedTable.get_insert_self _ _ _⟩
        intro id hid
        apply OrderedTable.get_insert_ne
        rintro rfl
        simp [hadm] at hid
    obtain ⟨scores₁, hfirst, hkept₁, hadded₁⟩ := hone
    obtain ⟨scores', hrest, hkept, hadded⟩ :=
      ih hnodup (fun p hp => hstored p (List.mem_cons_of_mem _ hp)) scores₁
    refine ⟨scores', ?_, ?_, ?_⟩
    · rw [List.foldlM_cons, hfirst]
      exact hrest
    · intro id hid
      rw [List.map_cons, List.mem_cons, not_or] at hid
      rw [hkept id (hid.imp_right And.right), hkept₁ id (hid.imp_right And.left)]
    · intro id frequency stats' hmem hadm hget'
      rcases List.mem_cons.mp hmem with rfl | hmem
      · rw [hget] at hget'
        cases hget'
        rw [hkept id (Or.inr hnot)]
        exact hadded₁ hadm
      · have hne : id ≠ p.1 := by
          intro heq
          exact hnot (heq ▸ List.mem_map_of_mem (f := Prod.fst) hmem)
        rw [hadded id frequency stats' hmem hadm hget', hkept₁ id (Or.inr hne)]

/-! ## A query -/

/-- The score of a document after one more query term, if it has one. -/
def touchScore (ops : F64Ops) (t : InMemoryLexicalIndex) (stats : DocStats) (score : Option F64)
    (term : String) : Option F64 :=
  match stats.termFrequencies.get term with
  | none => score
  | some _ => some (t.addTermScore ops stats (score.getD .zero) term)

/-- The scores collected are those of the admissible documents. -/
def ScoresOf (t : InMemoryLexicalIndex) (isAdmissible : VectorId → Bool)
    (scores : OrderedTable VectorId F64) (score : DocStats → Option F64) : Prop :=
  ∀ id, scores.get id = if isAdmissible id then (t.docs.get id).bind score else none

theorem addTerm_spec (ops : F64Ops) (h : Mirrors codecs s t) {isAdmissible : VectorId → Bool}
    {scores : OrderedTable VectorId F64} {score : DocStats → Option F64}
    (hscores : ScoresOf t isAdmissible scores score) (term : String) :
    ∃ scores', s.addTerm codecs ops isAdmissible scores term = .ok scores' ∧
      ScoresOf t isAdmissible scores' fun stats => touchScore ops t stats (score stats) term := by
  obtain ⟨view, hlists, hpostings⟩ := h.rows.postings
  have hcount : (view term).length = (t.docFrequencies.get term).getD 0 := by
    rw [hpostings.length_eq, h.inv.docFrequencies, positive]
    split <;> simp [*]
  have hstored : ∀ p ∈ view term, ∃ stats, t.docs.get p.1 = some stats := by
    intro p hp
    obtain ⟨stats, hget, -⟩ := (hpostings.mem term p.1 p.2).mp hp
    exact ⟨stats, hget⟩
  obtain ⟨scores', hfold, hkept, hadded⟩ := addContributions_spec ops h.rows isAdmissible
    (Bm25.idf ops s.index.corpusSize (view term).length) (hpostings.nodup term) hstored scores
  refine ⟨scores', ?_, ?_⟩
  · unfold addTerm
    rw [hlists term, rowOf]
    cases hview : view term with
    | nil =>
      rw [hview] at hfold
      exact hfold
    | cons p rest =>
      rw [hview] at hfold
      rw [if_neg (by simp)]
      dsimp only
      rw [codecs.postings.parse_encode]
      exact hfold
  · intro id
    cases hadm : isAdmissible id with
    | false => rw [hkept id (Or.inl hadm), hscores id, hadm, if_neg (by simp), if_neg (by simp)]
    | true =>
      rw [if_pos rfl]
      have hbefore : scores.get id = (t.docs.get id).bind score := by
        rw [hscores id, hadm, if_pos rfl]
      -- a document is in the list of the term exactly when it holds it
      have houtside : (∀ frequency, (id, frequency) ∉ view term) →
          scores'.get id = scores.get id := by
        intro hnot
        apply hkept id (Or.inr _)
        rw [List.mem_map]
        rintro ⟨⟨_, frequency⟩, hp, rfl⟩
        exact hnot frequency hp
      cases hget : t.docs.get id with
      | none =>
        rw [houtside, hbefore, hget]
        · rfl
        · intro frequency hp
          obtain ⟨stats, hsome⟩ := hstored _ hp
          rw [hget] at hsome
          simp at hsome
      | some stats =>
        rw [Option.bind_some]
        unfold touchScore
        cases hfrequency : stats.termFrequencies.get term with
        | none =>
          dsimp only
          rw [houtside, hbefore, hget, Option.bind_some]
          intro frequency hp
          obtain ⟨stats', hget', hsome⟩ := (hpostings.mem term id frequency).mp hp
          rw [hget] at hget'
          cases hget'
          rw [hfrequency] at hsome
          simp at hsome
        | some frequency =>
          have hmem := (hpostings.mem term id frequency).mpr ⟨stats, hget, hfrequency⟩
          dsimp only
          rw [hadded id frequency stats hmem hadm hget, hbefore, hget, Option.bind_some,
            InMemoryLexicalIndex.addTermScore, hfrequency, hcount, h.corpusSize, h.totalTokens]

theorem addTerms_spec (ops : F64Ops) (h : Mirrors codecs s t) {isAdmissible : VectorId → Bool}
    {scores : OrderedTable VectorId F64} {score : DocStats → Option F64}
    (hscores : ScoresOf t isAdmissible scores score) (terms : List String) :
    ∃ scores', terms.foldlM (s.addTerm codecs ops isAdmissible) scores = .ok scores' ∧
      ScoresOf t isAdmissible scores' fun stats =>
        terms.foldl (touchScore ops t stats) (score stats) := by
  induction terms generalizing scores score with
  | nil => exact ⟨scores, rfl, hscores⟩
  | cons term rest ih =>
    obtain ⟨scores₁, hone, hscores₁⟩ := addTerm_spec ops h hscores term
    obtain ⟨scores', hrest, hscores'⟩ := ih hscores₁
    refine ⟨scores', ?_, hscores'⟩
    rw [List.foldlM_cons, hone]
    exact hrest

/-- Where there is a score it is the sum of the index in memory. -/
theorem touchScores_getD (ops : F64Ops) (t : InMemoryLexicalIndex) (stats : DocStats) (terms : List String)
    (score : Option F64) :
    (terms.foldl (touchScore ops t stats) score).getD .zero =
      terms.foldl (t.addTermScore ops stats) (score.getD .zero) := by
  induction terms generalizing score with
  | nil => rfl
  | cons term rest ih =>
    rw [List.foldl_cons, List.foldl_cons, ih]
    apply congrArg (rest.foldl (t.addTermScore ops stats))
    unfold touchScore
    cases hterm : stats.termFrequencies.get term with
    | none => rw [InMemoryLexicalIndex.addTermScore, hterm]
    | some _ => rfl

/-- The scores worth keeping are the same: a document that is not touched
    scores zero. -/
theorem score_iff (t : InMemoryLexicalIndex) (stats : DocStats) (terms : List String) (x : F64) :
    (terms.foldl (touchScore ops t stats) none = some x ∧ x.gt .zero = true) ↔
      (t.scoreOf ops terms stats = x ∧ x.gt .zero = true) := by
  have hsum := touchScores_getD ops t stats terms none
  rw [Option.getD_none] at hsum
  unfold InMemoryLexicalIndex.scoreOf
  rw [← hsum]
  cases terms.foldl (touchScore ops t stats) none with
  | some score => simp
  | none =>
    have hzero : F64.zero.gt .zero = false := by decide
    constructor
    · rintro ⟨hnone, -⟩
      simp at hnone
    · rintro ⟨hx, hgt⟩
      rw [← hx, Option.getD_none, hzero] at hgt
      simp at hgt

/-- The entries kept of the two collections are the same. -/
theorem kept_perm {isAdmissible : VectorId → Bool} {scores : OrderedTable VectorId F64}
    {terms : List String}
    (hscores : ScoresOf t isAdmissible scores fun stats =>
      terms.foldl (touchScore ops t stats) none) (order order' : HashOrder) :
    ((order.entries scores).filter fun p => p.2.gt .zero).Perm
      (((order'.entries t.docs).filter fun p => isAdmissible p.1).filterMap fun p =>
        let score := t.scoreOf ops terms p.2
        if score.gt .zero then some (p.1, score) else none) := by
  apply (List.perm_ext_iff_of_nodup ((order.nodup_entries scores).filter _) _).mpr
  · rintro ⟨id, x⟩
    rw [List.mem_filter, order.mem_entries_iff, hscores id, List.mem_filterMap]
    constructor
    · rintro ⟨hscore, hgt⟩
      split at hscore
      · next hadm =>
        obtain ⟨stats, hget, hscore⟩ := Option.bind_eq_some_iff.mp hscore
        obtain ⟨hsum, -⟩ := (score_iff t stats terms x).mp ⟨hscore, hgt⟩
        refine ⟨(id, stats), ?_, ?_⟩
        · rw [List.mem_filter, order'.mem_entries_iff]
          exact ⟨hget, hadm⟩
        · dsimp only at hgt ⊢
          rw [hsum, if_pos hgt]
      · simp at hscore
    · rintro ⟨⟨id', stats⟩, hmem, hsome⟩
      rw [List.mem_filter, order'.mem_entries_iff] at hmem
      dsimp only at hsome
      split at hsome
      · next hgt =>
        rw [Option.some.injEq, Prod.mk.injEq] at hsome
        obtain ⟨rfl, hsum⟩ := hsome
        rw [hsum] at hgt
        obtain ⟨hscore, -⟩ := (score_iff t stats terms x).mpr ⟨hsum, hgt⟩
        rw [if_pos hmem.2, hmem.1, Option.bind_some]
        exact ⟨hscore, hgt⟩
      · simp at hsome
  · have hkeys : ((order'.entries t.docs).map Prod.fst).Nodup := order'.nodup_keys t.docs
    have hdistinct := (List.pairwise_map.mp hkeys).filter fun p => isAdmissible p.1
    apply List.pairwise_filterMap.mpr
    apply hdistinct.imp
    intro p q hne a ha b hb heq
    rw [← heq] at hb
    dsimp only at ha hb
    split at ha
    · split at hb
      · cases ha
        rw [Option.some.injEq, Prod.mk.injEq] at hb
        exact hne hb.1.symm
      · simp at hb
    · simp at ha

/-- Mirrors answer every search alike. -/
theorem searchTextFiltered_eq (h : Mirrors codecs s t) (order order' : HashOrder)
    (query : String) (k : Nat) (isAdmissible : VectorId → Bool) :
    s.searchTextFiltered U codecs ops order query k isAdmissible =
      t.searchTextFiltered U ops order' query k isAdmissible := by
  unfold searchTextFiltered InMemoryLexicalIndex.searchTextFiltered scored
  by_cases hempty : t.docs.len = 0
  · rw [if_pos (h.corpusSize.trans hempty), if_pos hempty]
    exact List.take_nil
  · have hfirst : ScoresOf t isAdmissible .empty fun _ => none := by
      intro id
      rw [OrderedTable.get_empty]
      cases t.docs.get id <;> simp
    obtain ⟨scores, hfold, hscores⟩ := addTerms_spec ops h hfirst (tokenize U query)
    rw [if_neg (by rwa [h.corpusSize]), if_neg hempty, hfold]
    exact ranked_of_perm (kept_perm hscores order order')

/-! ## Runs -/

theorem step_mirrors (h : Mirrors codecs s t) (call : LexicalCall) :
    Option.Rel (fun r t' => r.1 = .ok () ∧ Mirrors codecs r.2 t') (s.step U codecs call)
      (InMemoryLexicalIndex.run U t call.inMemory.toList) := by
  cases call with
  | insert before after postings terms id document =>
    have hrel := insert_mirrors (U := U) h before after postings terms id document
    unfold InMemoryLexicalIndex.run
    simpa [LexicalCall.inMemory, InMemoryLexicalIndex.step, step] using hrel
  | remove order id =>
    have hrel := remove_mirrors h order id
    unfold InMemoryLexicalIndex.run
    simpa [LexicalCall.inMemory, InMemoryLexicalIndex.step, step] using hrel
  | reopen => exact reopen_mirrors h

theorem run_mirrors (h : Mirrors codecs s t) (calls : List LexicalCall) :
    Option.Rel (fun r t' => (∀ answer ∈ r.1, answer = .ok ()) ∧ Mirrors codecs r.2 t')
      (s.run U codecs calls) (t.run U (calls.filterMap LexicalCall.inMemory)) := by
  induction calls generalizing s t with
  | nil => exact .some ⟨by simp, h⟩
  | cons call rest ih =>
    have hmemory : t.run U ((call :: rest).filterMap LexicalCall.inMemory) =
        (InMemoryLexicalIndex.run U t call.inMemory.toList).bind fun t₁ =>
          t₁.run U (rest.filterMap LexicalCall.inMemory) := by
      unfold InMemoryLexicalIndex.run
      cases hcall : call.inMemory with
      | none => simp [hcall]
      | some op => simp [hcall]
    rw [run, hmemory]
    apply rel_bind (step_mirrors h call)
    intro r t₁ _ _ hone
    apply rel_map_left (ih hone.2)
    intro q t' hq
    refine ⟨?_, hq.2⟩
    intro answer hanswer
    rcases List.mem_cons.mp hanswer with rfl | hanswer
    · exact hone.1
    · exact hq.1 answer hanswer

theorem mirrors_fresh (codecs : LexicalCodecs) :
    Mirrors codecs ⟨.fresh, ⟨0, 0⟩⟩ InMemoryLexicalIndex.new where
  inv := InMemoryLexicalIndex.inv_new
  tokens_le := Nat.zero_le _
  rows := rowsOf_fresh codecs
  corpusSize := rfl
  totalTokens := rfl

/-- **The two lexical indexes agree.**  From a store just made, every run of
    inserts, removals and reopenings panics if and only if the run of the
    same inserts and removals in memory does; otherwise every call succeeds,
    the two indexes have the same number of documents, and they answer every
    search alike. -/
theorem run_agrees (U : Unicode) (codecs : LexicalCodecs) :
    (PersistentLexicalIndex.openAt codecs).exec none = some (.ok ⟨0, 0⟩, some .fresh) ∧
    ∀ calls, Option.Rel (fun r t =>
        (∀ answer ∈ r.1, answer = .ok ()) ∧ r.2.len = t.len ∧
        ∀ (ops : F64Ops) (order order' : HashOrder) (query : String) (k : Nat)
          (isAdmissible : VectorId → Bool),
          r.2.searchTextFiltered U codecs ops order query k isAdmissible =
            t.searchTextFiltered U ops order' query k isAdmissible)
      (run U codecs ⟨.fresh, ⟨0, 0⟩⟩ calls)
      (InMemoryLexicalIndex.new.run U (calls.filterMap LexicalCall.inMemory)) := by
  refine ⟨rfl, fun calls => ?_⟩
  apply rel_imp (run_mirrors (mirrors_fresh codecs) calls)
  rintro r t ⟨hanswers, hmirrors⟩
  refine ⟨hanswers, hmirrors.corpusSize, ?_⟩
  intro ops order order' query k isAdmissible
  exact searchTextFiltered_eq hmirrors order order' query k isAdmissible

end LexicalStore

end EidosDB
