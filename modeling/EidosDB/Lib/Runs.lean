import Mathlib

/-! # Maximal Runs

    The maximal runs of a list are its longest blocks of consecutive
    elements that satisfy a predicate, in order.  `IsRuns` says what they
    are, `runs` computes them; the two are the same (`isRuns_iff`). -/

variable {α : Type} (p : α → Bool)

/-- The list cut into its maximal runs: elements between runs are skipped, a
    run is not empty and goes on until an element that is not in it. -/
inductive IsRuns : List α → List (List α) → Prop
  | nil : IsRuns [] []
  | skip {a : α} {l : List α} {rs : List (List α)} :
      p a = false → IsRuns l rs → IsRuns (a :: l) rs
  | run {r l : List α} {rs : List (List α)} :
      r ≠ [] → (∀ a ∈ r, p a = true) → (∀ a, l.head? = some a → p a = false) →
      IsRuns l rs → IsRuns (r ++ l) (r :: rs)

/-- The maximal runs. -/
def runs : List α → List (List α)
  | [] => []
  | a :: l =>
    if p a then (a :: l.takeWhile p) :: runs (l.dropWhile p)
    else runs l
termination_by l => l.length
decreasing_by
  · exact Nat.lt_succ_of_le (List.dropWhile_suffix p).length_le
  · exact Nat.lt_succ_self _

variable {p}

@[simp] theorem runs_nil : runs p [] = [] := by rw [runs]

theorem runs_cons_pos {a : α} {l : List α} (h : p a = true) :
    runs p (a :: l) = (a :: l.takeWhile p) :: runs p (l.dropWhile p) := by
  rw [runs, if_pos h]

theorem runs_cons_neg {a : α} {l : List α} (h : p a = false) :
    runs p (a :: l) = runs p l := by
  rw [runs, if_neg (by simp [h])]

/-- The first run is at the beginning of the list, if the list begins with
    one. -/
theorem runs_eq (l : List α) : runs p l =
    (if (l.takeWhile p).isEmpty then [] else [l.takeWhile p]) ++ runs p (l.dropWhile p) := by
  cases l with
  | nil => simp
  | cons a l =>
    cases h : p a with
    | true => rw [runs_cons_pos h, List.takeWhile_cons_of_pos h, List.dropWhile_cons_of_pos h]; rfl
    | false =>
      have hneg : ¬ p a = true := by simp [h]
      rw [List.takeWhile_cons_of_neg hneg, List.dropWhile_cons_of_neg hneg]
      rfl

/-- A list of elements of one run is that run. -/
theorem runs_of_all {l : List α} (hne : l ≠ []) (hall : ∀ a ∈ l, p a = true) : runs p l = [l] := by
  have htake : l.takeWhile p = l := List.takeWhile_eq_self_iff.mpr hall
  have hdrop : l.dropWhile p = [] := List.dropWhile_eq_nil_iff.mpr hall
  have hempty : ¬ l.isEmpty = true := by simpa using hne
  rw [runs_eq, htake, hdrop, if_neg hempty, runs_nil, List.append_nil]

/-! ## What the runs are made of -/

theorem ne_nil_of_mem_runs {l r : List α} (h : r ∈ runs p l) : r ≠ [] := by
  induction l using runs.induct p with
  | case1 => simp at h
  | case2 a l ha ih =>
    rw [runs_cons_pos ha, List.mem_cons] at h
    rcases h with rfl | h
    · exact List.cons_ne_nil _ _
    · exact ih h
  | case3 a l ha ih =>
    rw [runs_cons_neg (by simpa using ha)] at h
    exact ih h

theorem flatten_runs (l : List α) : (runs p l).flatten = l.filter p := by
  induction l using runs.induct p with
  | case1 => simp
  | case2 a l ha ih =>
    have htake : (l.takeWhile p).filter p = l.takeWhile p :=
      List.filter_eq_self.mpr fun b hb => List.mem_takeWhile_imp hb
    rw [runs_cons_pos ha, List.flatten_cons, ih, List.filter_cons_of_pos ha, List.cons_append]
    conv => rhs; rw [← List.takeWhile_append_dropWhile (p := p) (l := l), List.filter_append, htake]
  | case3 a l ha ih =>
    have hneg : p a = false := by simpa using ha
    rw [runs_cons_neg hneg, ih, List.filter_cons_of_neg ha]

/-- An element is in some run when it satisfies the predicate. -/
theorem exists_mem_runs_iff {l : List α} {a : α} :
    (∃ r ∈ runs p l, a ∈ r) ↔ a ∈ l ∧ p a = true := by
  rw [← List.mem_flatten, flatten_runs, List.mem_filter]

/-! ## The runs of a list in two parts -/

theorem takeWhile_separator {a b : List α} {c : α} (hc : p c = false) :
    (a ++ c :: b).takeWhile p = a.takeWhile p := by
  induction a with
  | nil => simp [hc]
  | cons x a ih => cases hx : p x <;> simp [hx, ih]

theorem dropWhile_separator {a b : List α} {c : α} (hc : p c = false) :
    (a ++ c :: b).dropWhile p = a.dropWhile p ++ c :: b := by
  induction a with
  | nil => simp [hc]
  | cons x a ih => cases hx : p x <;> simp [hx, ih]

/-- No run goes past an element that is in none. -/
theorem runs_separator (a b : List α) {c : α} (hc : p c = false) :
    runs p (a ++ c :: b) = runs p a ++ runs p b := by
  induction a using runs.induct p with
  | case1 => rw [List.nil_append, runs_cons_neg hc, runs_nil, List.nil_append]
  | case2 x a hx ih =>
    rw [List.cons_append, runs_cons_pos hx, takeWhile_separator hc, dropWhile_separator hc, ih,
      runs_cons_pos hx, List.cons_append]
  | case3 x a hx ih =>
    have hneg : p x = false := by simpa using hx
    rw [List.cons_append, runs_cons_neg hneg, ih, runs_cons_neg hneg]

/-! ## The specification -/

theorem isRuns_runs (l : List α) : IsRuns p l (runs p l) := by
  induction l using runs.induct p with
  | case1 =>
    rw [runs_nil]
    exact .nil
  | case2 a l ha ih =>
    have hall : ∀ b ∈ a :: l.takeWhile p, p b = true := by
      intro b hb
      rcases List.mem_cons.mp hb with rfl | hb
      · exact ha
      · exact List.mem_takeWhile_imp hb
    have hstop : ∀ b, (l.dropWhile p).head? = some b → p b = false := by
      intro b hb
      have hnot := List.head?_dropWhile_not p l
      rw [hb] at hnot
      simpa using hnot
    have hrun := IsRuns.run (List.cons_ne_nil _ _) hall hstop ih
    rw [List.cons_append, List.takeWhile_append_dropWhile] at hrun
    rw [runs_cons_pos ha]
    exact hrun
  | case3 a l ha ih =>
    have hneg : p a = false := by simpa using ha
    rw [runs_cons_neg hneg]
    exact .skip hneg ih

/-- A run is cut off where it ends. -/
theorem runs_append_run {r l : List α} (hne : r ≠ []) (hall : ∀ a ∈ r, p a = true)
    (hstop : ∀ a, l.head? = some a → p a = false) : runs p (r ++ l) = r :: runs p l := by
  cases l with
  | nil => rw [List.append_nil, runs_of_all hne hall, runs_nil]
  | cons a l =>
    have ha : p a = false := hstop a rfl
    rw [runs_separator r l ha, runs_of_all hne hall, runs_cons_neg ha]
    rfl

/-- A list has one cut into maximal runs. -/
theorem isRuns_iff {l : List α} {rs : List (List α)} : IsRuns p l rs ↔ runs p l = rs := by
  constructor
  · intro h
    induction h with
    | nil => exact runs_nil
    | skip ha _ ih => rw [runs_cons_neg ha, ih]
    | run hne hall hstop _ ih => rw [runs_append_run hne hall hstop, ih]
  · rintro rfl
    exact isRuns_runs l
