import EidosDB.Lexical.Numbers

/-! # The Order of a Fused Ranking

    Where nothing is rounded, the fused score of an id is the sum of its
    reciprocal ranks (`get_fusedScores`).  It does not depend on the order of
    the rankings, and an id that is ahead of another one wherever that one
    occurs has the greater sum. -/

namespace EidosDB

section Field

variable {R : Type} [Field R]

/-- `1 / (k + rank)`, with ranks from 1; nothing where the id does not
    occur. -/
def reciprocalRank (k : R) (id : VectorId) (ranking : List VectorId) : R :=
  if id ∈ ranking then 1 / (k + ((ranking.idxOf id : R) + 1)) else 0

/-- The sum of the reciprocal ranks. -/
def fusedScore (rankings : List (List VectorId)) (k : R) (id : VectorId) : R :=
  (rankings.map (reciprocalRank k id)).sum

/-- What a place gives to an id. -/
def placeScore (k : R) (id : VectorId) (place : VectorId × Nat) : R :=
  if place.1 = id then 1 / (k + ((place.2 : R) + 1)) else 0

/-- The places of all rankings. -/
def places (rankings : List (List VectorId)) : List (VectorId × Nat) :=
  rankings.flatMap fun ranking => ranking.zipIdx

theorem mem_places_iff {rankings : List (List VectorId)} {id : VectorId} :
    id ∈ (places rankings).map Prod.fst ↔ ∃ ranking ∈ rankings, id ∈ ranking := by
  unfold places
  rw [List.map_flatMap, List.mem_flatMap]
  simp only [List.zipIdx_map_fst]

/-- An id that occurs once in a ranking is given its reciprocal rank. -/
theorem sum_placeScore (k : R) (id : VectorId) {ranking : List VectorId} (h : ranking.Nodup)
    (offset : Nat) : ((ranking.zipIdx offset).map (placeScore k id)).sum =
      if id ∈ ranking then 1 / (k + (((offset + ranking.idxOf id : Nat) : R) + 1)) else 0 := by
  induction ranking generalizing offset with
  | nil => simp
  | cons a ranking ih =>
    obtain ⟨hnot, hrest⟩ := List.nodup_cons.mp h
    rw [List.zipIdx_cons, List.map_cons, List.sum_cons, ih hrest, placeScore]
    by_cases ha : a = id
    · subst ha
      simp [hnot]
    · have hne : ¬ id = a := fun heq => ha heq.symm
      simp only [ha, hne, if_false, zero_add, List.mem_cons, false_or,
        List.idxOf_cons_ne ranking ha]
      rw [show offset + 1 + ranking.idxOf id = offset + (ranking.idxOf id).succ by omega]

/-- The places add up to the reciprocal ranks. -/
theorem sum_places (rankings : List (List VectorId)) (h : ∀ ranking ∈ rankings, ranking.Nodup)
    (k : R) (id : VectorId) :
    ((places rankings).map (placeScore k id)).sum = fusedScore rankings k id := by
  unfold places fusedScore
  rw [List.flatMap, List.map_flatten, List.sum_flatten, List.map_map, List.map_map]
  congr 1
  apply List.map_congr_left
  intro ranking hmem
  show ((ranking.zipIdx 0).map (placeScore k id)).sum = reciprocalRank k id ranking
  rw [sum_placeScore k id (h ranking hmem) 0, Nat.zero_add]
  rfl

variable [LinearOrder R]

/-! ## The accumulated scores -/

theorem fusedScores_eq (rankings : List (List VectorId)) (k : R) :
    (Numbers.exact R).fusedScores rankings k =
      (places rankings).foldl ((Numbers.exact R).addRank k) .empty := by
  unfold places
  rw [List.foldl_flatMap]
  rfl

/-- Each place adds its score to that of its id. -/
theorem get_addRank (k : R) (scores : OrderedTable VectorId R) (place : VectorId × Nat)
    (id : VectorId) : ((Numbers.exact R).addRank k scores place).get id =
      if place.1 = id then some ((scores.get id).getD 0 + placeScore k id place)
      else scores.get id := by
  unfold Numbers.addRank
  rw [OrderedTable.get_insert]
  by_cases hid : place.1 = id
  · subst hid
    simp [Numbers.exact, placeScore]
  · rw [if_neg (fun heq => hid heq.symm), if_neg hid]

/-- The ids that occur get the sum of their places on top of what they had. -/
theorem get_foldl_addRank (k : R) (l : List (VectorId × Nat)) (scores : OrderedTable VectorId R)
    (id : VectorId) : (l.foldl ((Numbers.exact R).addRank k) scores).get id =
      if id ∈ l.map Prod.fst then some ((scores.get id).getD 0 + (l.map (placeScore k id)).sum)
      else scores.get id := by
  induction l generalizing scores with
  | nil => simp
  | cons place l ih =>
    rw [List.foldl_cons, ih, get_addRank, List.map_cons, List.map_cons, List.sum_cons]
    by_cases hid : place.1 = id
    · subst hid
      by_cases hmem : place.1 ∈ l.map Prod.fst
      · simp [hmem, add_assoc]
      · have hzero : (l.map (placeScore k place.1)).sum = 0 := by
          apply List.sum_eq_zero
          intro x hx
          obtain ⟨q, hq, rfl⟩ := List.mem_map.mp hx
          exact if_neg fun heq => hmem (by rw [← heq]; exact List.mem_map_of_mem hq)
        simp [hmem, hzero]
    · have hne : ¬ id = place.1 := fun heq => hid heq.symm
      have hplace : placeScore k id place = 0 := if_neg hid
      simp only [hid, hplace, if_false, zero_add, List.mem_cons, hne, false_or]

/-- The table holds the sums of the ids that occur. -/
theorem get_fusedScores (rankings : List (List VectorId))
    (h : ∀ ranking ∈ rankings, ranking.Nodup) (k : R) (id : VectorId) :
    ((Numbers.exact R).fusedScores rankings k).get id =
      if ∃ ranking ∈ rankings, id ∈ ranking then some (fusedScore rankings k id) else none := by
  rw [fusedScores_eq, get_foldl_addRank, OrderedTable.get_empty, Option.getD_none, zero_add,
    sum_places rankings h]
  exact if_congr mem_places_iff rfl rfl

/-- The order of the rankings does not show. -/
theorem fusedScores_perm {rankings rankings' : List (List VectorId)}
    (h : ∀ ranking ∈ rankings, ranking.Nodup) (hperm : rankings.Perm rankings') (k : R) :
    (Numbers.exact R).fusedScores rankings' k = (Numbers.exact R).fusedScores rankings k := by
  apply OrderedTable.ext_get
  intro id
  have hsum : fusedScore rankings' k id = fusedScore rankings k id :=
    ((hperm.map (reciprocalRank k id)).sum_eq).symm
  rw [get_fusedScores rankings' (fun r hr => h r (hperm.mem_iff.mpr hr)), get_fusedScores rankings h,
    hsum]
  exact if_congr (by simp only [hperm.mem_iff]) rfl rfl

/-! ## The list -/

/-- The fused list is ranked, and holds the ids that occur with their sums. -/
theorem mem_fuseRrf (order : HashOrder) (rankings : List (List VectorId))
    (h : ∀ ranking ∈ rankings, ranking.Nodup) (k : R) (p : VectorId × R) :
    p ∈ (Numbers.exact R).fuseRrf order rankings k ↔
      (∃ ranking ∈ rankings, p.1 ∈ ranking) ∧ p.2 = fusedScore rankings k p.1 := by
  obtain ⟨id, score⟩ := p
  unfold Numbers.fuseRrf
  rw [mem_sortBy, order.mem_entries_iff, get_fusedScores rankings h]
  by_cases hid : ∃ ranking ∈ rankings, id ∈ ranking
  · rw [if_pos hid, Option.some.injEq, eq_comm]
    exact ⟨fun heq => ⟨hid, heq⟩, And.right⟩
  · rw [if_neg hid]
    exact iff_of_false (by simp) fun hboth => hid hboth.1

theorem fuseRrf_sorted (order : HashOrder) (rankings : List (List VectorId)) (k : R) :
    ((Numbers.exact R).fuseRrf order rankings k).Pairwise fun a b => exactRank a < exactRank b :=
  sortBy_strict_of_key exactRank exactRank_injective (fun _ _ => before_rankCmp)
    (order.nodup_entries _)

theorem nodup_fuseRrf (order : HashOrder) (rankings : List (List VectorId)) (k : R) :
    (((Numbers.exact R).fuseRrf order rankings k).map Prod.fst).Nodup :=
  ((sortBy_perm _ _).map Prod.fst).nodup_iff.mpr (order.nodup_keys _)

/-- Of two ids in the list, the one with the greater sum comes first. -/
theorem sublist_fuseRrf (order : HashOrder) {rankings : List (List VectorId)}
    (h : ∀ ranking ∈ rankings, ranking.Nodup) {k : R} {a b : VectorId}
    (ha : ∃ ranking ∈ rankings, a ∈ ranking) (hb : ∃ ranking ∈ rankings, b ∈ ranking)
    (hlt : fusedScore rankings k b < fusedScore rankings k a) :
    [a, b].Sublist (((Numbers.exact R).fuseRrf order rankings k).map Prod.fst) := by
  have hpair : [(a, fusedScore rankings k a), (b, fusedScore rankings k b)].Sublist
      ((Numbers.exact R).fuseRrf order rankings k) := by
    apply sublist_pair_of_pairwise (fuseRrf_sorted order rankings k)
    · exact (mem_fuseRrf order rankings h k _).mpr ⟨ha, rfl⟩
    · exact (mem_fuseRrf order rankings h k _).mpr ⟨hb, rfl⟩
    · intro heq
      rw [Prod.mk.injEq] at heq
      exact absurd heq.2 (ne_of_gt hlt)
    · rw [exactRank_lt]
      rintro (hgt | ⟨heq, -⟩)
      · exact lt_asymm hlt hgt
      · exact absurd heq (ne_of_lt hlt)
  exact hpair.map Prod.fst

/-! ## Dominance -/

variable [IsStrictOrderedRing R]

/-- Ahead in a ranking, a greater reciprocal rank. -/
theorem reciprocalRank_lt {k : R} (hk : 0 < k) {a b : VectorId} {ranking : List VectorId}
    (hb : b ∈ ranking) (ha : a ∈ ranking) (hlt : ranking.idxOf a < ranking.idxOf b) :
    reciprocalRank k b ranking < reciprocalRank k a ranking := by
  have hcast : (ranking.idxOf a : R) < (ranking.idxOf b : R) := by exact_mod_cast hlt
  have hpos : (0 : R) ≤ (ranking.idxOf a : R) := Nat.cast_nonneg _
  unfold reciprocalRank
  rw [if_pos ha, if_pos hb]
  apply one_div_lt_one_div_of_lt
  · linarith
  · linarith

theorem reciprocalRank_nonneg {k : R} (hk : 0 < k) (id : VectorId) (ranking : List VectorId) :
    0 ≤ reciprocalRank k id ranking := by
  have hpos : (0 : R) ≤ (ranking.idxOf id : R) := Nat.cast_nonneg _
  unfold reciprocalRank
  split
  · exact one_div_nonneg.mpr (by linarith)
  · exact le_rfl

/-- An id that is ahead of another one in every ranking where that one
    occurs has the greater sum. -/
theorem fusedScore_lt {k : R} (hk : 0 < k) {rankings : List (List VectorId)} {a b : VectorId}
    (hb : ∃ ranking ∈ rankings, b ∈ ranking)
    (hahead : ∀ ranking ∈ rankings, b ∈ ranking →
      a ∈ ranking ∧ ranking.idxOf a < ranking.idxOf b) :
    fusedScore rankings k b < fusedScore rankings k a := by
  unfold fusedScore
  apply List.sum_lt_sum
  · intro ranking hmem
    by_cases hin : b ∈ ranking
    · obtain ⟨ha, hlt⟩ := hahead ranking hmem hin
      exact le_of_lt (reciprocalRank_lt hk hin ha hlt)
    · rw [reciprocalRank, if_neg hin]
      exact reciprocalRank_nonneg hk a ranking
  · obtain ⟨ranking, hmem, hin⟩ := hb
    obtain ⟨ha, hlt⟩ := hahead ranking hmem hin
    exact ⟨ranking, hmem, reciprocalRank_lt hk hin ha hlt⟩

end Field

/-- **Fusion respects dominance.**  In exact arithmetic the fused list holds
    every id of some ranking once, with the sum of its reciprocal ranks,
    ranked by descending score and then by ascending id; an id that is ahead
    of another one wherever that one occurs comes before it; and rankings in
    another order give the same list. -/
theorem fuseRrf_dominance (order : HashOrder) (rankings : List (List VectorId))
    (h : ∀ ranking ∈ rankings, ranking.Nodup) {k : ℚ} (hk : 0 < k) :
    (((Numbers.exact ℚ).fuseRrf order rankings k).map Prod.fst).Nodup ∧
    (∀ id, id ∈ ((Numbers.exact ℚ).fuseRrf order rankings k).map Prod.fst ↔
      ∃ ranking ∈ rankings, id ∈ ranking) ∧
    (∀ p ∈ (Numbers.exact ℚ).fuseRrf order rankings k, p.2 = fusedScore rankings k p.1) ∧
    ((Numbers.exact ℚ).fuseRrf order rankings k).Pairwise
      (fun a b => b.2 < a.2 ∨ (a.2 = b.2 ∧ a.1 < b.1)) ∧
    (∀ a b, (∃ ranking ∈ rankings, b ∈ ranking) →
      (∀ ranking ∈ rankings, b ∈ ranking → a ∈ ranking ∧ ranking.idxOf a < ranking.idxOf b) →
      [a, b].Sublist (((Numbers.exact ℚ).fuseRrf order rankings k).map Prod.fst)) ∧
    ∀ (order' : HashOrder) (rankings' : List (List VectorId)), rankings.Perm rankings' →
      (Numbers.exact ℚ).fuseRrf order' rankings' k =
        (Numbers.exact ℚ).fuseRrf order rankings k := by
  refine ⟨nodup_fuseRrf order rankings k, ?_, ?_, ?_, ?_, ?_⟩
  · intro id
    rw [List.mem_map]
    constructor
    · rintro ⟨p, hp, rfl⟩
      exact ((mem_fuseRrf order rankings h k p).mp hp).1
    · intro hid
      exact ⟨(id, fusedScore rankings k id), (mem_fuseRrf order rankings h k _).mpr ⟨hid, rfl⟩, rfl⟩
  · intro p hp
    exact ((mem_fuseRrf order rankings h k p).mp hp).2
  · exact (fuseRrf_sorted order rankings k).imp exactRank_lt.mp
  · intro a b hb hahead
    obtain ⟨ranking, hmem, hin⟩ := hb
    have ha : ∃ ranking ∈ rankings, a ∈ ranking := ⟨ranking, hmem, (hahead ranking hmem hin).1⟩
    exact sublist_fuseRrf order h ha ⟨ranking, hmem, hin⟩
      (fusedScore_lt hk ⟨ranking, hmem, hin⟩ hahead)
  · intro order' rankings' hperm
    unfold Numbers.fuseRrf
    rw [fusedScores_perm h hperm]
    exact sortBy_eq_of_key exactRank exactRank_injective (fun _ _ => before_rankCmp)
      ((order'.perm _).trans (order.perm _).symm)

/-- A dense ranking and a lexical one that agree on which comes first. -/
theorem fuseRrf_dominance_two : [(⟨1⟩ : VectorId), ⟨3⟩].Sublist
    (((Numbers.exact ℚ).fuseRrf .ascending [[⟨1⟩, ⟨2⟩, ⟨3⟩], [⟨1⟩, ⟨3⟩]] 60).map Prod.fst) :=
  (fuseRrf_dominance .ascending [[⟨1⟩, ⟨2⟩, ⟨3⟩], [⟨1⟩, ⟨3⟩]] (by decide) (by norm_num)).2.2.2.2.1
    ⟨1⟩ ⟨3⟩ (by decide) (by decide)

end EidosDB
