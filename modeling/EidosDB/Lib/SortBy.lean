import Mathlib

/-! # Stable Sorting by a Comparator

    `sortBy cmp` is the stable sort of a list for a comparator with values in
    `Ordering`.  For a comparator whose `isLE` is a linear order, a sorted
    list is determined by its elements, and a sorted list whose elements all
    occur in another one is a sublist of it. -/

variable {α : Type}

/-- `a` may stand before `b`. -/
def Before (cmp : α → α → Ordering) (a b : α) : Prop := (cmp a b).isLE = true

instance (cmp : α → α → Ordering) : DecidableRel (Before cmp) :=
  fun a b => inferInstanceAs (Decidable ((cmp a b).isLE = true))

/-- Stable sort: elements that compare equal keep their order. -/
def sortBy (cmp : α → α → Ordering) (l : List α) : List α := l.insertionSort (Before cmp)

theorem sortBy_perm (cmp : α → α → Ordering) (l : List α) : (sortBy cmp l).Perm l :=
  List.perm_insertionSort _ l

@[simp] theorem mem_sortBy {cmp : α → α → Ordering} {l : List α} {a : α} :
    a ∈ sortBy cmp l ↔ a ∈ l :=
  (sortBy_perm cmp l).mem_iff

@[simp] theorem length_sortBy (cmp : α → α → Ordering) (l : List α) :
    (sortBy cmp l).length = l.length :=
  (sortBy_perm cmp l).length_eq

theorem sortBy_of_sorted (cmp : α → α → Ordering) {l : List α}
    (h : l.Pairwise (Before cmp)) : sortBy cmp l = l :=
  List.Pairwise.insertionSort_eq h

/-- Of two elements of an ordered list, one that may not stand behind the
    other stands before it. -/
theorem sublist_pair_of_pairwise {r : α → α → Prop} {l : List α} (h : l.Pairwise r) {a b : α}
    (ha : a ∈ l) (hb : b ∈ l) (hne : a ≠ b) (hnot : ¬ r b a) : [a, b].Sublist l := by
  obtain ⟨front, back, rfl⟩ := List.append_of_mem ha
  rw [List.pairwise_append] at h
  rcases List.mem_append.mp hb with hfront | hback
  · exact absurd (h.2.2 b hfront a List.mem_cons_self) hnot
  · rcases List.mem_cons.mp hback with rfl | hback
    · exact absurd rfl hne
    · exact (List.Sublist.cons_cons a (List.singleton_sublist.mpr hback)).trans
        (List.sublist_append_right front _)

section order

variable (cmp : α → α → Ordering) [Std.Total (Before cmp)] [IsTrans α (Before cmp)]

theorem sortBy_sorted (l : List α) : (sortBy cmp l).Pairwise (Before cmp) :=
  List.pairwise_insertionSort _ l

variable [Std.Antisymm (Before cmp)]

/-- Lists with the same elements sort to the same list. -/
theorem sortBy_eq_of_perm {l₁ l₂ : List α} (h : l₁.Perm l₂) : sortBy cmp l₁ = sortBy cmp l₂ := by
  apply @List.Perm.eq_of_pairwise _ (Before cmp)
  · intro a b _ _ hab hba
    exact Std.Antisymm.antisymm a b hab hba
  · exact sortBy_sorted cmp l₁
  · exact sortBy_sorted cmp l₂
  · exact (sortBy_perm cmp l₁).trans (h.trans (sortBy_perm cmp l₂).symm)

/-- A part of the sort is the sort of the part. -/
theorem filter_sortBy (p : α → Bool) (l : List α) :
    (sortBy cmp l).filter p = sortBy cmp (l.filter p) := by
  have hsorted : ((sortBy cmp l).filter p).Pairwise (Before cmp) := (sortBy_sorted cmp l).filter p
  rw [← sortBy_of_sorted cmp hsorted]
  exact sortBy_eq_of_perm cmp ((sortBy_perm cmp l).filter p)

/-- A sorted list without repetition is a sublist of the sort of any list that
    holds its elements. -/
theorem sublist_sortBy {l₁ l₂ : List α} (hsorted : l₁.Pairwise (Before cmp))
    (hnodup : l₁.Nodup) (hsub : ∀ a ∈ l₁, a ∈ l₂) : l₁.Sublist (sortBy cmp l₂) := by
  apply List.sublist_of_subperm_of_pairwise (r := Before cmp)
  · exact List.subperm_of_subset hnodup (fun a ha => mem_sortBy.mpr (hsub a ha))
  · exact hsorted
  · exact sortBy_sorted cmp l₂

end order

section key

variable {κ : Type} [LinearOrder κ] (key : α → κ)

/-- The comparator of a sort by key. -/
def byKey (a b : α) : Ordering := compare (key a) (key b)

theorem before_byKey {a b : α} : Before (byKey key) a b ↔ key a ≤ key b := by
  rw [Before, byKey, Ordering.isLE_iff_ne_gt]
  exact compare_le_iff_le

instance : Std.Total (Before (byKey key)) where
  total a b := by
    rw [before_byKey, before_byKey]
    exact le_total _ _

instance : IsTrans α (Before (byKey key)) where
  trans a b c hab hbc := by
    rw [before_byKey] at hab hbc ⊢
    exact le_trans hab hbc

/-- A list in strictly increasing key order is the sort of every reordering of
    it. -/
theorem sortBy_byKey_of_perm {l₁ l₂ : List α} (h : l₁.Perm l₂)
    (hsorted : l₂.Pairwise (fun a b => key a < key b)) : sortBy (byKey key) l₁ = l₂ := by
  have hkeys : (l₂.map key).Nodup := List.pairwise_map.mpr (hsorted.imp fun hab => ne_of_lt hab)
  apply @List.Perm.eq_of_pairwise _ (Before (byKey key))
  · intro a b ha hb hab hba
    rw [before_byKey] at hab hba
    have ha₂ : a ∈ l₂ := h.mem_iff.mp (mem_sortBy.mp ha)
    exact List.inj_on_of_nodup_map hkeys ha₂ hb (le_antisymm hab hba)
  · exact sortBy_sorted (byKey key) l₁
  · apply hsorted.imp
    intro a b hab
    exact (before_byKey key).mpr (le_of_lt hab)
  · exact (sortBy_perm (byKey key) l₁).trans h

/-- Elements with distinct keys are sorted strictly by a comparator that
    follows the key. -/
theorem sortBy_strict_of_key {cmp : α → α → Ordering} (hinj : Function.Injective key)
    (hcmp : ∀ a b, Before cmp a b ↔ key a ≤ key b) {l : List α} (hnodup : l.Nodup) :
    (sortBy cmp l).Pairwise fun a b => key a < key b := by
  have htotal : Std.Total (Before cmp) := ⟨fun a b => by rw [hcmp, hcmp]; exact le_total _ _⟩
  have htrans : IsTrans α (Before cmp) :=
    ⟨fun a b c hab hbc => by rw [hcmp] at hab hbc ⊢; exact le_trans hab hbc⟩
  have hdistinct : (sortBy cmp l).Pairwise (· ≠ ·) := (sortBy_perm cmp l).nodup_iff.mpr hnodup
  apply (hdistinct.and (sortBy_sorted cmp l)).imp
  rintro a b ⟨hne, hab⟩
  exact lt_of_le_of_ne ((hcmp a b).mp hab) fun heq => hne (hinj heq)

/-- A comparator that follows a key without repetition sorts lists of the same
    elements to the same list. -/
theorem sortBy_eq_of_key {cmp : α → α → Ordering} (hinj : Function.Injective key)
    (hcmp : ∀ a b, Before cmp a b ↔ key a ≤ key b) {l₁ l₂ : List α} (h : l₁.Perm l₂) :
    sortBy cmp l₁ = sortBy cmp l₂ := by
  have htotal : Std.Total (Before cmp) := by
    constructor
    intro a b
    rw [hcmp, hcmp]
    exact le_total _ _
  have htrans : IsTrans α (Before cmp) := by
    constructor
    intro a b c hab hbc
    rw [hcmp] at hab hbc ⊢
    exact le_trans hab hbc
  have hantisymm : Std.Antisymm (Before cmp) := by
    constructor
    intro a b hab hba
    rw [hcmp] at hab hba
    exact hinj (le_antisymm hab hba)
  exact sortBy_eq_of_perm cmp h

end key
