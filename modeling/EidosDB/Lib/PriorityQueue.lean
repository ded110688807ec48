import Mathlib

/-! # Priority Queues

    What a caller may rely on in a binary heap: `pop` removes an element that
    no other one exceeds.  Which of several equal elements comes first, and
    the order in which the elements are listed, are left open, so that a
    result proved for every `PriorityQueue` holds for any implementation. -/

/-- A max-queue for the order `le`. -/
structure PriorityQueue (α : Type) (le : α → α → Bool) where
  Heap : Type
  empty : Heap
  push : Heap → α → Heap
  pop : Heap → Option (α × Heap)
  /-- All elements, in the implementation's order. -/
  toList : Heap → List α
  toList_empty : toList empty = []
  toList_push : ∀ h a, (toList (push h a)).Perm (a :: toList h)
  pop_eq_none : ∀ h, pop h = none → toList h = []
  pop_perm : ∀ h a h', pop h = some (a, h') → (toList h).Perm (a :: toList h')
  pop_max : ∀ h a h', pop h = some (a, h') → ∀ b ∈ toList h, le b a = true

namespace PriorityQueue

variable {α : Type} {le : α → α → Bool} (Q : PriorityQueue α le)

def peek (h : Q.Heap) : Option α := (Q.pop h).map Prod.fst

def len (h : Q.Heap) : Nat := (Q.toList h).length

@[simp] theorem len_empty : Q.len Q.empty = 0 := by
  simp [len, Q.toList_empty]

@[simp] theorem len_push (h : Q.Heap) (a : α) : Q.len (Q.push h a) = Q.len h + 1 := by
  simpa [len] using (Q.toList_push h a).length_eq

theorem mem_push {h : Q.Heap} {a b : α} :
    b ∈ Q.toList (Q.push h a) ↔ b = a ∨ b ∈ Q.toList h := by
  rw [(Q.toList_push h a).mem_iff, List.mem_cons]

theorem mem_pop {h h' : Q.Heap} {a : α} (hp : Q.pop h = some (a, h')) {b : α} :
    b ∈ Q.toList h ↔ b = a ∨ b ∈ Q.toList h' := by
  rw [(Q.pop_perm h a h' hp).mem_iff, List.mem_cons]

theorem len_pop {h h' : Q.Heap} {a : α} (hp : Q.pop h = some (a, h')) :
    Q.len h = Q.len h' + 1 := by
  simpa [len] using (Q.pop_perm h a h' hp).length_eq

theorem peek_eq_none {h : Q.Heap} (hp : Q.peek h = none) : Q.toList h = [] :=
  Q.pop_eq_none h (by simpa [peek] using hp)

theorem peek_eq_some {h : Q.Heap} {a : α} (hp : Q.peek h = some a) :
    ∃ h', Q.pop h = some (a, h') := by
  obtain ⟨⟨a', h'⟩, hpop, ha⟩ := Option.map_eq_some_iff.mp hp
  exact ⟨h', by rw [hpop, ← ha]⟩

/-! ## The list implementation -/

/-- Remove the first of the greatest elements. -/
def popList (le : α → α → Bool) : List α → Option (α × List α)
  | [] => none
  | a :: rest =>
      match popList le rest with
      | none => some (a, [])
      | some (b, rest') => if le b a then some (a, rest) else some (b, a :: rest')

theorem popList_perm (le : α → α → Bool) (l : List α) (a : α) (l' : List α)
    (h : popList le l = some (a, l')) : l.Perm (a :: l') := by
  induction l generalizing a l' with
  | nil => simp [popList] at h
  | cons x rest ih =>
    unfold popList at h
    cases hr : popList le rest with
    | none =>
      cases rest with
      | nil =>
        simp only [hr, Option.some.injEq, Prod.mk.injEq] at h
        rw [← h.1, ← h.2]
      | cons y ys =>
        unfold popList at hr
        split at hr
        · simp at hr
        · split at hr <;> simp at hr
    | some r =>
      obtain ⟨b, rest'⟩ := r
      simp only [hr] at h
      split at h
      · simp only [Option.some.injEq, Prod.mk.injEq] at h
        rw [← h.1, ← h.2]
      · simp only [Option.some.injEq, Prod.mk.injEq] at h
        rw [← h.1, ← h.2]
        exact ((ih b rest' hr).cons x).trans (List.Perm.swap b x rest')

theorem popList_eq_none (le : α → α → Bool) (l : List α) (h : popList le l = none) : l = [] := by
  cases l with
  | nil => rfl
  | cons a rest =>
    unfold popList at h
    split at h
    · simp at h
    · split at h <;> simp at h

theorem popList_max {le : α → α → Bool} (total : ∀ a b, le a b = true ∨ le b a = true)
    (trans : ∀ a b c, le a b = true → le b c = true → le a c = true)
    (l : List α) (a : α) (l' : List α) (h : popList le l = some (a, l')) :
    ∀ b ∈ l, le b a = true := by
  have refl : ∀ a, le a a = true := fun a => (total a a).elim id id
  induction l generalizing a l' with
  | nil => simp
  | cons x rest ih =>
    unfold popList at h
    cases hr : popList le rest with
    | none =>
      simp only [hr, Option.some.injEq, Prod.mk.injEq] at h
      rw [popList_eq_none le rest hr, ← h.1]
      intro b hb
      rw [List.mem_singleton.mp hb]
      exact refl x
    | some r =>
      obtain ⟨m, rest'⟩ := r
      have hmax := ih m rest' hr
      simp only [hr] at h
      split at h
      · next hmx =>
        simp only [Option.some.injEq, Prod.mk.injEq] at h
        rw [← h.1]
        intro b hb
        rcases List.mem_cons.mp hb with rfl | hb
        · exact refl b
        · exact trans b m x (hmax b hb) hmx
      · next hmx =>
        simp only [Option.some.injEq, Prod.mk.injEq] at h
        rw [← h.1]
        intro b hb
        rcases List.mem_cons.mp hb with rfl | hb
        · exact (total b m).resolve_right hmx
        · exact hmax b hb

/-- A queue kept as the list of its elements in order of insertion. -/
def ofList (le : α → α → Bool) (total : ∀ a b, le a b = true ∨ le b a = true)
    (trans : ∀ a b c, le a b = true → le b c = true → le a c = true) :
    PriorityQueue α le where
  Heap := List α
  empty := []
  push l a := l ++ [a]
  pop := popList le
  toList l := l
  toList_empty := rfl
  toList_push l a := List.perm_append_singleton a l
  pop_eq_none := popList_eq_none le
  pop_perm := popList_perm le
  pop_max := popList_max total trans

end PriorityQueue
