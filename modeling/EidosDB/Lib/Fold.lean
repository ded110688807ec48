import Mathlib

/-! # Folds That May Fail

    A loop over a list whose body may give up is `List.foldlM` in `Option`.
    The rules take its first step off and carry an invariant through it; and
    two computations that give up together are related step by step. -/

namespace Fold

variable {α σ : Type*} {f : σ → α → Option σ}

theorem foldlM_cons_eq_some {a : α} {l : List α} {s s' : σ} :
    (a :: l).foldlM f s = some s' ↔ ∃ s₁, f s a = some s₁ ∧ l.foldlM f s₁ = some s' := by
  rw [List.foldlM_cons]
  exact Option.bind_eq_some_iff

/-- What holds at the start and is kept by each step that succeeds holds at
    the end. -/
theorem foldlM_induct {motive : σ → Prop} {l : List α} {s s' : σ}
    (hstep : ∀ s, ∀ a ∈ l, ∀ s', motive s → f s a = some s' → motive s') (h : motive s)
    (hrun : l.foldlM f s = some s') : motive s' := by
  induction l generalizing s with
  | nil =>
    cases hrun
    exact h
  | cons a l ih =>
    obtain ⟨s₁, hone, hrest⟩ := foldlM_cons_eq_some.mp hrun
    have h₁ := hstep s a List.mem_cons_self s₁ h hone
    exact ih (fun s a ha => hstep s a (List.mem_cons_of_mem _ ha)) h₁ hrest

/-! ## Related computations

    `Option.Rel r` relates two computations that both give up or end in
    values that `r` relates. -/

section Rel

variable {β γ δ : Type*} {r : α → β → Prop} {x : Option α} {y : Option β}

theorem rel_imp {r' : α → β → Prop} (hr : Option.Rel r x y) (h : ∀ a b, r a b → r' a b) :
    Option.Rel r' x y := by
  cases hr with
  | some hab => exact .some (h _ _ hab)
  | none => exact .none

theorem rel_bind {r' : γ → δ → Prop} {f : α → Option γ} {g : β → Option δ}
    (hr : Option.Rel r x y)
    (h : ∀ a b, x = some a → y = some b → r a b → Option.Rel r' (f a) (g b)) :
    Option.Rel r' (x.bind f) (y.bind g) := by
  cases hr with
  | some hab => exact h _ _ rfl rfl hab
  | none => exact .none

theorem rel_map {r' : γ → δ → Prop} {f : α → γ} {g : β → δ} (hr : Option.Rel r x y)
    (h : ∀ a b, r a b → r' (f a) (g b)) : Option.Rel r' (x.map f) (y.map g) := by
  cases hr with
  | some hab => exact .some (h _ _ hab)
  | none => exact .none

theorem rel_map_left {r' : γ → β → Prop} {f : α → γ} (hr : Option.Rel r x y)
    (h : ∀ a b, r a b → r' (f a) b) : Option.Rel r' (x.map f) y := by
  cases hr with
  | some hab => exact .some (h _ _ hab)
  | none => exact .none

end Rel

end Fold
