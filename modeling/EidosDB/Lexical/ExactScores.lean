import EidosDB.Lexical.Numbers
import EidosDB.Lexical.Statistics

/-! # What a Text Search Finds

    In real arithmetic each query term that a document holds adds a positive
    amount to its score: the logarithm is taken of a number above one, since
    no term has more documents than there are, and the documents have tokens,
    since one of them holds the term.  So the cut at zero loses no document
    that shares a token with the query. -/

namespace EidosDB

/-! ## Counted terms -/

namespace DocStats

/-- The counting loop adds the number of occurrences of each token. -/
theorem get_foldlM_countToken {stats stats' : DocStats} {tokens : List String}
    (h : tokens.foldlM countToken stats = some stats') (term : String) :
    stats'.termFrequencies.get term =
      if term ∈ tokens then some ((stats.termFrequencies.get term).getD 0 + tokens.count term)
      else stats.termFrequencies.get term := by
  induction tokens generalizing stats with
  | nil =>
    cases h
    rw [if_neg List.not_mem_nil]
  | cons token tokens ih =>
    obtain ⟨stats₁, hcount, hrest⟩ := Fold.foldlM_cons_eq_some.mp h
    obtain ⟨frequency, hfreq, hcount⟩ := Option.bind_eq_some_iff.mp hcount
    obtain ⟨length, -, hcount⟩ := Option.bind_eq_some_iff.mp hcount
    obtain ⟨-, rfl⟩ := checkedAdd_eq_some.mp hfreq
    cases hcount
    rw [ih hrest, OrderedTable.get_insert]
    by_cases hterm : term = token
    · subst hterm
      -- the first occurrence is counted here, the others by the rest of the loop
      rw [if_pos rfl, if_pos List.mem_cons_self, List.count_cons_self, Option.getD_some]
      by_cases hmem : term ∈ tokens
      · rw [if_pos hmem]
        congr 1
        omega
      · rw [if_neg hmem, List.count_eq_zero_of_not_mem hmem, Nat.zero_add]
    · have hne : token ≠ term := fun heq => hterm heq.symm
      rw [if_neg hterm, List.count_cons_of_ne hne]
      simp only [List.mem_cons, hterm, false_or]

/-- A document's terms are its tokens, each with a count above zero. -/
theorem get_ofDocument {U : Unicode} {document : Document} {stats : DocStats}
    (h : ofDocument U document = some stats) (term : String) :
    stats.termFrequencies.get term = positive ((tokenize U document.text).count term) := by
  rw [get_foldlM_countToken h, show empty.termFrequencies.get term = none from rfl,
    Option.getD_none, Nat.zero_add, positive]
  by_cases hmem : term ∈ tokenize U document.text
  · rw [if_pos hmem, if_neg (ne_of_gt (List.count_pos_iff.mpr hmem))]
  · rw [if_neg hmem, if_pos (List.count_eq_zero_of_not_mem hmem)]

end DocStats

theorem positive_eq_some {n m : Nat} (h : positive n = some m) : m = n ∧ 0 < n := by
  unfold positive at h
  split at h
  · simp at h
  · cases h
    exact ⟨rfl, by omega⟩

theorem isSome_positive {n : Nat} : (positive n).isSome = true ↔ 0 < n := by
  unfold positive
  split
  · simp [*]
  · simp
    omega

/-! ## Positive contributions -/

namespace Numbers

/-- The logarithm is positive for a term that no more documents hold than
    there are. -/
theorem idf_pos {corpusSize docFreq : Nat} (h : docFreq ≤ corpusSize) :
    0 < (Numbers.exact ℝ).idf Real.log corpusSize docFreq := by
  have hcast : (docFreq : ℝ) ≤ (corpusSize : ℝ) := by exact_mod_cast h
  have hzero : (0 : ℝ) ≤ (docFreq : ℝ) := Nat.cast_nonneg _
  have hquot : 0 < ((corpusSize : ℝ) - (docFreq : ℝ) + 1 / 2) / ((docFreq : ℝ) + 1 / 2) := by
    apply div_pos
    · linarith
    · linarith
  show 0 < Real.log (1 + ((corpusSize : ℝ) - (docFreq : ℝ) + 1 / 2) / ((docFreq : ℝ) + 1 / 2))
  exact Real.log_pos (by linarith)

theorem termScore_pos {frequency length : Nat} {average idf : ℝ} (hfreq : 0 < frequency)
    (haverage : 0 < average) (hidf : 0 < idf) :
    0 < (Numbers.exact ℝ).termScore frequency length average idf := by
  have hf : (0 : ℝ) < (frequency : ℝ) := by exact_mod_cast hfreq
  have hlen : (0 : ℝ) ≤ 3 / 4 * (length : ℝ) / average :=
    div_nonneg (mul_nonneg (by norm_num) (Nat.cast_nonneg _)) (le_of_lt haverage)
  have hne : (Numbers.exact ℝ).eq average (Numbers.exact ℝ).zero = false :=
    decide_eq_false (ne_of_gt haverage)
  unfold termScore
  rw [hne, if_neg Bool.false_ne_true]
  show 0 < idf * ((frequency : ℝ) * (6 / 5 + 1)) /
    ((frequency : ℝ) + 6 / 5 * (1 - 3 / 4 + 3 / 4 * (length : ℝ) / average))
  apply div_pos
  · positivity
  · nlinarith

variable {index : InMemoryLexicalIndex} {id : VectorId} {stats : DocStats}

/-- No term has more documents than there are. -/
theorem docFreq_le (h : index.Inv) (term : String) :
    (index.docFrequencies.get term).getD 0 ≤ index.docs.len := by
  have hle : documentsWith index.docs term ≤ index.docs.len := List.countP_le_length
  rw [h.docFrequencies, positive]
  split
  · exact Nat.zero_le _
  · exact hle

/-- The average length is positive when a document has a token. -/
theorem averageDocLength_pos (h : index.Inv) (hget : index.docs.get id = some stats)
    (hlen : 0 < stats.length) :
    0 < (Numbers.exact ℝ).averageDocLength index.totalTokens index.docs.len := by
  have htotal : 0 < index.totalTokens := by
    have hsplit := tokensOf_erase hget
    rw [h.totalTokens]
    omega
  have hdocs : 0 < index.docs.len :=
    List.length_pos_of_mem ((index.docs.mem_entries_iff id stats).mpr hget)
  have htotal' : (0 : ℝ) < (index.totalTokens : ℝ) := by exact_mod_cast htotal
  have hdocs' : (0 : ℝ) < (index.docs.len : ℝ) := by exact_mod_cast hdocs
  show (0 : ℝ) < (index.totalTokens : ℝ) / (index.docs.len : ℝ)
  exact div_pos htotal' hdocs'

theorem contribution_pos (h : index.Inv) (hget : index.docs.get id = some stats) {term : String}
    {frequency : Nat} (hfreq : stats.termFrequencies.get term = some frequency)
    (hpos : 0 < frequency) :
    0 < (Numbers.exact ℝ).contribution Real.log index stats term frequency := by
  have hlen : 0 < stats.length := by
    have hle := (h.lengths id stats hget).frequency_le term
    rw [hfreq, Option.getD_some] at hle
    omega
  exact termScore_pos hpos (averageDocLength_pos h hget hlen) (idf_pos (docFreq_le h term))

/-! ## Scores -/

/-- What a query term adds. -/
noncomputable def added (index : InMemoryLexicalIndex) (stats : DocStats) (term : String) : ℝ :=
  ((stats.termFrequencies.get term).map
    ((Numbers.exact ℝ).contribution Real.log index stats term)).getD 0

/-- A score is the sum of what the query terms add. -/
theorem scoreOf_eq_sum (index : InMemoryLexicalIndex) (terms : List String) (stats : DocStats) :
    (Numbers.exact ℝ).scoreOf Real.log index terms stats = (terms.map (added index stats)).sum := by
  have hadd : ∀ (score : ℝ) (term : String),
      (Numbers.exact ℝ).addTermScore Real.log index stats score term =
        score + added index stats term := by
    intro score term
    unfold addTermScore added
    cases stats.termFrequencies.get term with
    | none => exact (add_zero score).symm
    | some frequency => rfl
  unfold scoreOf
  rw [List.sum_eq_foldl, List.foldl_map]
  exact congrArg (fun step => terms.foldl step 0) (funext fun score => funext (hadd score))

/-- A document scores above zero exactly when it holds a query term. -/
theorem scoreOf_pos_iff (h : index.Inv) (hget : index.docs.get id = some stats)
    (hcounts : ∀ term frequency, stats.termFrequencies.get term = some frequency → 0 < frequency)
    (terms : List String) :
    0 < (Numbers.exact ℝ).scoreOf Real.log index terms stats ↔
      ∃ term ∈ terms, (stats.termFrequencies.get term).isSome = true := by
  have hadded : ∀ term, (stats.termFrequencies.get term).isSome = true →
      0 < added index stats term := by
    intro term hsome
    obtain ⟨frequency, hfreq⟩ := Option.isSome_iff_exists.mp hsome
    rw [added, hfreq]
    exact contribution_pos h hget hfreq (hcounts term frequency hfreq)
  have hnone : ∀ term, ¬ (stats.termFrequencies.get term).isSome = true →
      added index stats term = 0 := by
    intro term hnot
    rw [added, Option.not_isSome_iff_eq_none.mp hnot]
    rfl
  rw [scoreOf_eq_sum]
  constructor
  · intro hpos
    by_contra hno
    push Not at hno
    have hzero : (terms.map (added index stats)).sum = 0 := by
      apply List.sum_eq_zero
      intro x hx
      obtain ⟨term, hterm, rfl⟩ := List.mem_map.mp hx
      exact hnone term (hno term hterm)
    exact absurd hzero (ne_of_gt hpos)
  · rintro ⟨term, hterm, hsome⟩
    have hle : added index stats term ≤ (terms.map (added index stats)).sum := by
      apply List.single_le_sum
      · intro x hx
        obtain ⟨other, -, rfl⟩ := List.mem_map.mp hx
        by_cases hother : (stats.termFrequencies.get other).isSome = true
        · exact le_of_lt (hadded other hother)
        · exact le_of_eq (hnone other hother).symm
      · exact List.mem_map_of_mem hterm
    exact lt_of_lt_of_le (hadded term hsome) hle

/-- What a search with room for every document finds. -/
theorem mem_searchTextFiltered {R : Type} (N : Numbers R) (ln : R → R) (U : Unicode)
    (order : HashOrder) {k : Nat} (hk : index.docs.len ≤ k) (query : String)
    (isAdmissible : VectorId → Bool) (p : VectorId × R) :
    p ∈ N.searchTextFiltered ln U order index query k isAdmissible ↔
      isAdmissible p.1 = true ∧ ∃ stats, index.docs.get p.1 = some stats ∧
        N.gt p.2 N.zero = true ∧ p.2 = N.scoreOf ln index (tokenize U query) stats := by
  obtain ⟨id, score⟩ := p
  unfold searchTextFiltered
  split
  next hempty =>
    have hnone : index.docs.get id = none := by
      cases hget : index.docs.get id with
      | none => rfl
      | some stats =>
        have hmem := (index.docs.mem_entries_iff id stats).mpr hget
        rw [List.length_eq_zero_iff.mp hempty] at hmem
        exact absurd hmem List.not_mem_nil
    simp [hnone]
  next =>
    rw [List.take_of_length_le, mem_sortBy, List.mem_filterMap]
    · constructor
      · rintro ⟨⟨id', stats⟩, hmem, hsome⟩
        obtain ⟨hentry, hadm⟩ := List.mem_filter.mp hmem
        dsimp only at hsome
        split at hsome
        · next hgt =>
          cases hsome
          exact ⟨hadm, stats, (order.mem_entries_iff _).mp hentry, hgt, rfl⟩
        · simp at hsome
      · rintro ⟨hadm, stats, hget, hgt, rfl⟩
        refine ⟨(id, stats), List.mem_filter.mpr ⟨(order.mem_entries_iff _).mpr hget, hadm⟩, ?_⟩
        exact if_pos hgt
    · -- there are no more hits than documents
      rw [length_sortBy]
      apply le_trans (List.length_filterMap_le _ _)
      apply le_trans (List.length_filter_le _ _)
      rw [(order.perm index.docs).length_eq]
      exact hk

theorem nodup_searchTextFiltered {R : Type} (N : Numbers R) (ln : R → R) (U : Unicode)
    (order : HashOrder) (query : String) (k : Nat) (isAdmissible : VectorId → Bool) :
    ((N.searchTextFiltered ln U order index query k isAdmissible).map Prod.fst).Nodup := by
  unfold searchTextFiltered
  split
  · exact List.nodup_nil
  · rw [List.map_take]
    apply List.Nodup.sublist (List.take_sublist _ _)
    rw [((sortBy_perm _ _).map Prod.fst).nodup_iff]
    -- a hit has the id of its entry
    apply List.pairwise_map.mpr
    have hkeys := List.pairwise_map.mp (order.nodup_keys index.docs)
    apply List.Pairwise.filterMap _ _ (hkeys.filter fun p => isAdmissible p.1)
    intro a b hne a' ha b' hb
    have hid : ∀ e : VectorId × DocStats, ∀ p : VectorId × R, (if N.gt
        (N.scoreOf ln index (tokenize U query) e.2) N.zero = true then
          some (e.1, N.scoreOf ln index (tokenize U query) e.2) else none) = some p → p.1 = e.1 := by
      intro e p hp
      split at hp
      · cases hp
        rfl
      · simp at hp
    rw [hid a a' ha, hid b b' hb]
    exact hne

/-! ## Reachable indexes -/

/-- **Text search is complete and positive.**  In real arithmetic, in every
    state a run reaches, a search with room for all documents finds exactly
    the admissible ones that share a token with the query, each once and with
    a score above zero. -/
theorem searchTextFiltered_complete {U : Unicode} {ops : List InMemoryLexicalIndex.Op}
    (hrun : InMemoryLexicalIndex.new.run U ops = some index) {k : Nat} (hk : index.docs.len ≤ k)
    (order : HashOrder) (query : String) (isAdmissible : VectorId → Bool) :
    (((Numbers.exact ℝ).searchTextFiltered Real.log U order index query k isAdmissible).map
      Prod.fst).Nodup ∧
    (∀ p ∈ (Numbers.exact ℝ).searchTextFiltered Real.log U order index query k isAdmissible,
      0 < p.2) ∧
    ∀ id, id ∈ ((Numbers.exact ℝ).searchTextFiltered Real.log U order index query k
        isAdmissible).map Prod.fst ↔
      isAdmissible id = true ∧ ∃ document, InMemoryLexicalIndex.documents ops id = some document ∧
        ∃ token ∈ tokenize U document.text, token ∈ tokenize U query := by
  have hholds : index.Holds U (InMemoryLexicalIndex.documents ops) :=
    (InMemoryLexicalIndex.holds_new U).run hrun
  refine ⟨nodup_searchTextFiltered _ _ U order query k isAdmissible, ?_, ?_⟩
  · intro p hp
    obtain ⟨-, stats, -, hgt, -⟩ := (mem_searchTextFiltered _ _ U order hk query _ p).mp hp
    exact of_decide_eq_true hgt
  · intro id
    -- what is stored under an id, and the terms of its document
    have hpos : ∀ document stats, DocStats.ofDocument U document = some stats →
        index.docs.get id = some stats →
        (0 < (Numbers.exact ℝ).scoreOf Real.log index (tokenize U query) stats ↔
          ∃ token ∈ tokenize U document.text, token ∈ tokenize U query) := by
      intro document stats hstats hget
      have hcounts := DocStats.get_ofDocument hstats
      rw [scoreOf_pos_iff hholds.inv hget fun term frequency hfreq => by
        obtain ⟨heq, hlt⟩ := positive_eq_some ((hcounts term).symm.trans hfreq)
        rwa [heq]]
      simp only [hcounts, isSome_positive, List.count_pos_iff]
      exact exists_congr fun token => And.comm
    have hstored := hholds.stored id
    constructor
    · intro hid
      obtain ⟨p, hp, rfl⟩ := List.mem_map.mp hid
      obtain ⟨hadm, stats, hget, hgt, hscore⟩ :=
        (mem_searchTextFiltered _ _ U order hk query _ p).mp hp
      rw [hget, Option.map_some] at hstored
      obtain ⟨document, hdocument, hstats⟩ := Option.map_eq_some_iff.mp hstored
      refine ⟨hadm, document, hdocument, (hpos document stats hstats hget).mp ?_⟩
      rw [← hscore]
      exact of_decide_eq_true hgt
    · rintro ⟨hadm, document, hdocument, hshared⟩
      rw [hdocument, Option.map_some, eq_comm] at hstored
      obtain ⟨stats, hget, hstats⟩ := Option.map_eq_some_iff.mp hstored
      have hscore := (hpos document stats hstats.symm hget).mpr hshared
      apply List.mem_map.mpr
      refine ⟨(id, _), (mem_searchTextFiltered _ _ U order hk query _ _).mpr
        ⟨hadm, stats, hget, decide_eq_true hscore, rfl⟩, rfl⟩

theorem searchTextFiltered_complete_replacingRun :
    (⟨1⟩ : VectorId) ∈ ((Numbers.exact ℝ).searchTextFiltered Real.log .ascii .descending
      InMemoryLexicalIndex.replacingRunEnd "b" 5 fun _ => true).map Prod.fst := by
  have hrun : InMemoryLexicalIndex.new.run .ascii InMemoryLexicalIndex.replacingRun =
      some InMemoryLexicalIndex.replacingRunEnd := by decide +kernel
  have hlen : InMemoryLexicalIndex.replacingRunEnd.docs.len ≤ 5 := by decide +kernel
  apply ((searchTextFiltered_complete hrun hlen .descending "b" fun _ => true).2.2 ⟨1⟩).mpr
  exact ⟨rfl, InMemoryLexicalIndex.bDocument, by decide +kernel, "b", by decide +kernel,
    by decide +kernel⟩

end Numbers

end EidosDB
