import Mathlib

/-! # Interruptible Effects

    A state monad for programs that make durable steps one at a time and may
    be cut short between any two of them.  The caller hands every run a
    `Plan`: either the run is undisturbed, or its durable step number `n`
    does not happen and the run ends there, by a crash of the process or by
    an error returned to the program.

    A program is written once; "a crash at any point" is a quantifier over
    plans.  Steps of one kind, commits, are counted, so that a run's history
    can be told from its final world. -/

namespace Effect

universe u

/-- How an interrupted run ends. -/
inductive Stop where
  /-- The process dies: nothing after the step runs. -/
  | crash
  /-- The step reports an error and changes nothing. -/
  | fail
  deriving DecidableEq, Repr

/-- What will interrupt a run. -/
inductive Plan where
  | none
  /-- `after` durable steps take effect, the next one does not. -/
  | stop (after : Nat) (how : Stop)
  deriving DecidableEq, Repr

/-- How the plan's interruption, if it has one, ends the run. -/
def Plan.how : Plan → Option Stop
  | .none => Option.none
  | .stop _ how => some how

/-- How a run ended. -/
inductive Outcome (ε α : Type) where
  | ok (value : α)
  | err (error : ε)
  | crashed
  | panicked
  deriving DecidableEq, Repr

/-- The state a program works on, what is left of the plan, and how many
    commits took effect so far. -/
structure World (σ : Type) where
  state : σ
  plan : Plan
  commits : Nat

/-- A fresh world for one call. -/
def World.start {σ : Type} (state : σ) (plan : Plan) : World σ :=
  { state := state, plan := plan, commits := 0 }

end Effect

/-- An interruptible program over the state `σ`. -/
def Effect (ε σ α : Type) : Type := Effect.World σ → Effect.Outcome ε α × Effect.World σ

namespace Effect

variable {ε ε' σ τ α β : Type}

protected def pure (a : α) : Effect ε σ α := fun w => (.ok a, w)

protected def bind (m : Effect ε σ α) (f : α → Effect ε σ β) : Effect ε σ β := fun w =>
  match m w with
  | (.ok a, w') => f a w'
  | (.err e, w') => (.err e, w')
  | (.crashed, w') => (.crashed, w')
  | (.panicked, w') => (.panicked, w')

instance : Monad (Effect ε σ) where
  pure := Effect.pure
  bind := Effect.bind

/-! ## Primitives -/

def get : Effect ε σ σ := fun w => (.ok w.state, w)

/-- A change of the process's own memory: never interrupted, not durable. -/
def modify (f : σ → σ) : Effect ε σ Unit := fun w => (.ok (), { w with state := f w.state })

def throw (e : ε) : Effect ε σ α := fun w => (.err e, w)

def panic : Effect ε σ α := fun w => (.panicked, w)

def liftExcept : Except ε α → Effect ε σ α
  | .ok a => Effect.pure a
  | .error e => throw e

/-- A function of the state that answers, leaves a new state, and may panic. -/
def call (f : σ → Option (Except ε α × σ)) : Effect ε σ α := fun w =>
  match f w.state with
  | some (.ok a, s) => (.ok a, { w with state := s })
  | some (.error e, s) => (.err e, { w with state := s })
  | none => (.panicked, w)

/-- One durable step.  A failing step reports `e`. -/
def durable (e : ε) (f : σ → σ) : Effect ε σ Unit := fun w =>
  match w.plan with
  | .none => (.ok (), { w with state := f w.state })
  | .stop 0 .crash => (.crashed, w)
  | .stop 0 .fail => (.err e, { w with plan := .none })
  | .stop (n + 1) how => (.ok (), { w with state := f w.state, plan := .stop n how })

/-- A durable step that is a commit. -/
def commit (e : ε) (f : σ → σ) : Effect ε σ Unit := fun w =>
  match durable e f w with
  | (.ok (), w') => (.ok (), { w' with commits := w'.commits + 1 })
  | r => r

/-- Run a program on a part of the state. -/
def zoom (read : τ → σ) (write : σ → τ → τ) (m : Effect ε σ α) : Effect ε τ α := fun w =>
  let r := m { state := read w.state, plan := w.plan, commits := w.commits }
  (r.1, { state := write r.2.state w.state, plan := r.2.plan, commits := r.2.commits })

def mapErr (f : ε → ε') (m : Effect ε σ α) : Effect ε' σ α := fun w =>
  match m w with
  | (.ok a, w') => (.ok a, w')
  | (.err e, w') => (.err (f e), w')
  | (.crashed, w') => (.crashed, w')
  | (.panicked, w') => (.panicked, w')

/-- Run a program and hand its error to the caller. -/
def attempt (m : Effect ε σ α) : Effect ε' σ (Except ε α) := fun w =>
  match m w with
  | (.ok a, w') => (.ok (.ok a), w')
  | (.err e, w') => (.ok (.error e), w')
  | (.crashed, w') => (.crashed, w')
  | (.panicked, w') => (.panicked, w')

/-- Run a program that has a variable of its own beside the state, and return
    the variable's last value. -/
def withVar (init : τ) (m : Effect ε (σ × τ) Unit) : Effect ε σ τ := fun w =>
  match m { state := (w.state, init), plan := w.plan, commits := w.commits } with
  | (.ok (), w') => (.ok w'.state.2, ⟨w'.state.1, w'.plan, w'.commits⟩)
  | (.err e, w') => (.err e, ⟨w'.state.1, w'.plan, w'.commits⟩)
  | (.crashed, w') => (.crashed, ⟨w'.state.1, w'.plan, w'.commits⟩)
  | (.panicked, w') => (.panicked, ⟨w'.state.1, w'.plan, w'.commits⟩)

/-- What an undisturbed run answers and the state it leaves; `none` for a
    panic. -/
def exec (m : Effect ε σ α) (s : σ) : Option (Except ε α × σ) :=
  match m (.start s .none) with
  | (.ok a, w) => some (.ok a, w.state)
  | (.err e, w) => some (.error e, w.state)
  | (.crashed, _) => none
  | (.panicked, _) => none

/-! ## Running -/

@[simp] theorem pure_apply (a : α) (w : World σ) :
    (Pure.pure a : Effect ε σ α) w = (.ok a, w) := rfl

theorem bind_apply (m : Effect ε σ α) (f : α → Effect ε σ β) (w : World σ) :
    (m >>= f) w = match m w with
      | (.ok a, w') => f a w'
      | (.err e, w') => (.err e, w')
      | (.crashed, w') => (.crashed, w')
      | (.panicked, w') => (.panicked, w') := rfl

@[simp] theorem get_apply (w : World σ) : (get : Effect ε σ σ) w = (.ok w.state, w) := rfl

@[simp] theorem modify_apply (f : σ → σ) (w : World σ) :
    (modify f : Effect ε σ Unit) w = (.ok (), { w with state := f w.state }) := rfl

@[simp] theorem throw_apply (e : ε) (w : World σ) :
    (throw e : Effect ε σ α) w = (.err e, w) := rfl

@[simp] theorem panic_apply (w : World σ) : (panic : Effect ε σ α) w = (.panicked, w) := rfl

@[simp] theorem liftExcept_ok (a : α) : (liftExcept (.ok a) : Effect ε σ α) = Pure.pure a := rfl

@[simp] theorem liftExcept_error (e : ε) :
    (liftExcept (.error e) : Effect ε σ α) = throw e := rfl

theorem bind_bind {γ : Type} (m : Effect ε σ α) (f : α → Effect ε σ β) (g : β → Effect ε σ γ) :
    (m >>= f) >>= g = m >>= fun a => f a >>= g := by
  funext w
  rw [bind_apply, bind_apply, bind_apply]
  cases m w with
  | mk o w₁ => cases o <;> rfl

/-! ## Runs that end with a value -/

theorem ok_of_bind {m : Effect ε σ α} {f : α → Effect ε σ β} {w w' : World σ} {b : β}
    (h : (m >>= f) w = (.ok b, w')) : ∃ a w₁, m w = (.ok a, w₁) ∧ f a w₁ = (.ok b, w') := by
  rw [bind_apply] at h
  cases hm : m w with
  | mk o w₁ =>
    rw [hm] at h
    cases o with
    | ok a => exact ⟨a, w₁, rfl, h⟩
    | err e => cases h
    | crashed => cases h
    | panicked => cases h

theorem ok_of_liftExcept {r : Except ε α} {w w' : World σ} {a : α}
    (h : liftExcept r w = (.ok a, w')) : r = .ok a ∧ w = w' := by
  cases r with
  | ok a' =>
    cases h
    exact ⟨rfl, rfl⟩
  | error e => cases h

theorem ok_of_zoom {read : τ → σ} {write : σ → τ → τ} {m : Effect ε σ α} {w w' : World τ} {a : α}
    (h : zoom read write m w = (.ok a, w')) :
    ∃ w₁, m ⟨read w.state, w.plan, w.commits⟩ = (.ok a, w₁) ∧
      w' = ⟨write w₁.state w.state, w₁.plan, w₁.commits⟩ := by
  unfold zoom at h
  generalize m ⟨read w.state, w.plan, w.commits⟩ = r at h ⊢
  obtain ⟨o, w₁⟩ := r
  cases h
  exact ⟨w₁, rfl, rfl⟩

/-! ## Postconditions

    A run ends with a value or halts.  `ends m Q E w` says that the run of
    `m` from `w` either ends with a value and a world in `Q`, or halts with
    the reason and the world in `E`.  The rules below compute it along the
    program text. -/

/-- How a run ends that has no value. -/
inductive Halt (ε : Type) where
  | err (error : ε)
  | crashed
  | panicked
  deriving DecidableEq, Repr

def ends (m : Effect ε σ α) (Q : α → World σ → Prop) (E : Halt ε → World σ → Prop)
    (w : World σ) : Prop :=
  match m w with
  | (.ok a, w') => Q a w'
  | (.err e, w') => E (.err e) w'
  | (.crashed, w') => E .crashed w'
  | (.panicked, w') => E .panicked w'

section Rules

variable {Q : α → World σ → Prop} {E : Halt ε → World σ → Prop} {w : World σ}

@[simp] theorem ends_pure (a : α) : ends (Pure.pure a : Effect ε σ α) Q E w ↔ Q a w := Iff.rfl

@[simp] theorem ends_bind {m : Effect ε σ β} {f : β → Effect ε σ α} :
    ends (m >>= f) Q E w ↔ ends m (fun b w' => ends (f b) Q E w') E w := by
  unfold ends
  rw [bind_apply]
  cases hm : m w with
  | mk o w' => cases o <;> rfl

@[simp] theorem ends_get {Q : σ → World σ → Prop} :
    ends (get : Effect ε σ σ) Q E w ↔ Q w.state w := Iff.rfl

@[simp] theorem ends_modify {Q : Unit → World σ → Prop} (f : σ → σ) :
    ends (modify f : Effect ε σ Unit) Q E w ↔ Q () { w with state := f w.state } := Iff.rfl

@[simp] theorem ends_throw (e : ε) : ends (throw e : Effect ε σ α) Q E w ↔ E (.err e) w := Iff.rfl

@[simp] theorem ends_panic : ends (panic : Effect ε σ α) Q E w ↔ E .panicked w := Iff.rfl

theorem ends_mono {m : Effect ε σ α} {Q' : α → World σ → Prop} {E' : Halt ε → World σ → Prop}
    (h : ends m Q E w) (hQ : ∀ a w', Q a w' → Q' a w') (hE : ∀ r w', E r w' → E' r w') :
    ends m Q' E' w := by
  unfold ends at h ⊢
  cases hm : m w with
  | mk o w' =>
    rw [hm] at h
    cases o with
    | ok a => exact hQ a w' h
    | err e => exact hE _ w' h
    | crashed => exact hE _ w' h
    | panicked => exact hE _ w' h

/-- The postconditions at the result of a call. -/
def settles (Q : α → World σ → Prop) (E : Halt ε → World σ → Prop) (w : World σ) :
    Option (Except ε α × σ) → Prop
  | some (.ok a, s) => Q a { w with state := s }
  | some (.error e, s) => E (.err e) { w with state := s }
  | none => E .panicked w

@[simp] theorem ends_call {f : σ → Option (Except ε α × σ)} :
    ends (call f) Q E w ↔ settles Q E w (f w.state) := by
  unfold ends call settles
  cases f w.state with
  | none => rfl
  | some r =>
    obtain ⟨result, s⟩ := r
    cases result <;> rfl

/-- A durable step takes effect, or halts the run as planned with the state
    as it was. -/
theorem ends_durable {Q : Unit → World σ → Prop} {e : ε} {f : σ → σ}
    (hQ : ∀ plan, plan.how = w.plan.how → Q () ⟨f w.state, plan, w.commits⟩)
    (hcrash : w.plan.how = some .crash → ∀ plan, E .crashed ⟨w.state, plan, w.commits⟩)
    (hfail : w.plan.how = some .fail → ∀ plan, E (.err e) ⟨w.state, plan, w.commits⟩) :
    ends (durable e f) Q E w := by
  obtain ⟨s, plan, c⟩ := w
  match plan with
  | .none => exact hQ .none rfl
  | .stop 0 .crash => exact hcrash rfl (.stop 0 .crash)
  | .stop 0 .fail => exact hfail rfl .none
  | .stop (n + 1) how => exact hQ (.stop n how) rfl

/-- A commit takes effect and is counted, or halts the run as planned with the
    state as it was. -/
theorem ends_commit {Q : Unit → World σ → Prop} {e : ε} {f : σ → σ}
    (hQ : ∀ plan, plan.how = w.plan.how → Q () ⟨f w.state, plan, w.commits + 1⟩)
    (hcrash : w.plan.how = some .crash → ∀ plan, E .crashed ⟨w.state, plan, w.commits⟩)
    (hfail : w.plan.how = some .fail → ∀ plan, E (.err e) ⟨w.state, plan, w.commits⟩) :
    ends (commit e f) Q E w := by
  obtain ⟨s, plan, c⟩ := w
  match plan with
  | .none => exact hQ .none rfl
  | .stop 0 .crash => exact hcrash rfl (.stop 0 .crash)
  | .stop 0 .fail => exact hfail rfl .none
  | .stop (n + 1) how => exact hQ (.stop n how) rfl

/-- A program on a part of the state, seen from the whole. -/
@[simp] theorem ends_zoom {read : τ → σ} {write : σ → τ → τ} {m : Effect ε σ α}
    {Q : α → World τ → Prop} {E : Halt ε → World τ → Prop} {w : World τ} :
    ends (zoom read write m) Q E w ↔
      ends m (fun a w' => Q a ⟨write w'.state w.state, w'.plan, w'.commits⟩)
        (fun r w' => E r ⟨write w'.state w.state, w'.plan, w'.commits⟩)
        ⟨read w.state, w.plan, w.commits⟩ := by
  unfold ends zoom
  cases hm : m ⟨read w.state, w.plan, w.commits⟩ with
  | mk o w' => cases o <;> simp

@[simp] theorem ends_withVar {init : τ} {m : Effect ε (σ × τ) Unit} {Q : τ → World σ → Prop} :
    ends (withVar init m) Q E w ↔
      ends m (fun _ w' => Q w'.state.2 ⟨w'.state.1, w'.plan, w'.commits⟩)
        (fun r w' => E r ⟨w'.state.1, w'.plan, w'.commits⟩)
        ⟨(w.state, init), w.plan, w.commits⟩ := by
  unfold ends withVar
  cases hm : m ⟨(w.state, init), w.plan, w.commits⟩ with
  | mk o w' => cases o <;> simp

def Halt.map (f : ε → ε') : Halt ε → Halt ε'
  | .err e => .err (f e)
  | .crashed => .crashed
  | .panicked => .panicked

@[simp] theorem ends_mapErr {f : ε → ε'} {m : Effect ε σ α} {E : Halt ε' → World σ → Prop} :
    ends (mapErr f m) Q E w ↔ ends m Q (fun r w' => E (r.map f) w') w := by
  unfold ends mapErr
  cases hm : m w with
  | mk o w' => cases o <;> rfl

/-- The postconditions at a halt that the caller looks at. -/
def Halt.attempted (Q : Except ε α → World σ → Prop) (E : Halt ε' → World σ → Prop) :
    Halt ε → World σ → Prop
  | .err e => Q (.error e)
  | .crashed => E .crashed
  | .panicked => E .panicked

@[simp] theorem ends_attempt {m : Effect ε σ α} {Q : Except ε α → World σ → Prop}
    {E : Halt ε' → World σ → Prop} :
    ends (attempt m) Q E w ↔ ends m (fun a => Q (.ok a)) (Halt.attempted Q E) w := by
  unfold ends attempt
  cases hm : m w with
  | mk o w' => cases o <;> rfl

/-- The result of a run that halted. -/
def Halt.result (s : σ) : Halt ε → Option (Except ε α × σ)
  | .err e => some (.error e, s)
  | .crashed => none
  | .panicked => none

/-- The result of an undisturbed run, from its postconditions. -/
theorem exec_cases {m : Effect ε σ α} {s : σ} (h : ends m Q E (.start s .none)) :
    (∃ a w', m.exec s = some (.ok a, w'.state) ∧ Q a w') ∨
    ∃ r w', m.exec s = Halt.result w'.state r ∧ E r w' := by
  unfold ends at h
  unfold exec
  cases hm : m (.start s .none) with
  | mk o w' =>
    rw [hm] at h
    cases o with
    | ok a => exact Or.inl ⟨a, w', rfl, h⟩
    | err e => exact Or.inr ⟨.err e, w', rfl, h⟩
    | crashed => exact Or.inr ⟨.crashed, w', rfl, h⟩
    | panicked => exact Or.inr ⟨.panicked, w', rfl, h⟩

/-- An undisturbed run that cannot halt. -/
theorem exec_ok {m : Effect ε σ α} {s : σ} (h : ends m Q (fun _ _ => False) (.start s .none)) :
    ∃ a w', m.exec s = some (.ok a, w'.state) ∧ Q a w' := by
  rcases exec_cases h with hok | ⟨_, _, -, hfalse⟩
  · exact hok
  · exact hfalse.elim

end Rules

/-! ## Invariants

    A program all of whose steps keep an invariant keeps it wherever it
    ends. -/

/-- The run of `m` from a state in `P` ends in one, whatever interrupts it. -/
def Keeps (P : σ → Prop) (m : Effect ε σ α) : Prop := ∀ w, P w.state → P (m w).2.state

section Keeps

variable {P : σ → Prop} {m : Effect ε σ α}

theorem keeps_pure (a : α) : Keeps P (Pure.pure a : Effect ε σ α) := fun _ h => h

theorem keeps_throw (e : ε) : Keeps P (throw e : Effect ε σ α) := fun _ h => h

theorem keeps_liftExcept (r : Except ε α) : Keeps P (liftExcept r : Effect ε σ α) := by
  cases r with
  | ok a => exact keeps_pure a
  | error e => exact keeps_throw e

theorem keeps_bind {f : α → Effect ε σ β} (hm : Keeps P m) (hf : ∀ a, Keeps P (f a)) :
    Keeps P (m >>= f) := by
  intro w h
  have h₁ := hm w h
  rw [bind_apply]
  generalize m w = r at h₁
  obtain ⟨o, w'⟩ := r
  cases o with
  | ok a => exact hf a w' h₁
  | err e => exact h₁
  | crashed => exact h₁
  | panicked => exact h₁

/-- What a program does with a checked value. -/
theorem keeps_check {r : Except ε α} {f : α → Effect ε σ β} (hf : ∀ a, r = .ok a → Keeps P (f a)) :
    Keeps P (liftExcept r >>= f) := by
  cases r with
  | ok a => exact hf a rfl
  | error e => exact fun _ h => h

/-- What a program does with the state it reads. -/
theorem keeps_get {f : σ → Effect ε σ β} (hf : ∀ s, P s → Keeps P (f s)) :
    Keeps P (get >>= f) := fun w h => hf w.state h w h

theorem keeps_modify {f : σ → σ} (hf : ∀ s, P s → P (f s)) :
    Keeps P (modify f : Effect ε σ Unit) := fun w h => hf w.state h

/-- A durable step takes effect or leaves the state alone. -/
theorem state_durable (e : ε) (f : σ → σ) (w : World σ) :
    (durable e f w).2.state = w.state ∨ (durable e f w).2.state = f w.state := by
  obtain ⟨s, plan, c⟩ := w
  match plan with
  | .none => exact Or.inr rfl
  | .stop 0 .crash => exact Or.inl rfl
  | .stop 0 .fail => exact Or.inl rfl
  | .stop (n + 1) how => exact Or.inr rfl

theorem keeps_durable {e : ε} {f : σ → σ} (hf : ∀ s, P s → P (f s)) : Keeps P (durable e f) := by
  intro w h
  rcases state_durable e f w with heq | heq
  · rwa [heq]
  · rw [heq]
    exact hf w.state h

theorem keeps_commit {e : ε} {f : σ → σ} (hf : ∀ s, P s → P (f s)) : Keeps P (commit e f) := by
  intro w h
  obtain ⟨s, plan, c⟩ := w
  match plan with
  | .none => exact hf s h
  | .stop 0 .crash => exact h
  | .stop 0 .fail => exact h
  | .stop (n + 1) how => exact hf s h

/-- A program on a part of the state keeps what it keeps of that part. -/
theorem keeps_zoom {P : τ → Prop} {read : τ → σ} {write : σ → τ → τ}
    (hm : ∀ t, P t → Keeps (fun s => P (write s t)) m) (hread : ∀ t, P t → P (write (read t) t)) :
    Keeps P (zoom read write m) :=
  fun w h => hm w.state h ⟨read w.state, w.plan, w.commits⟩ (hread w.state h)

theorem keeps_mapErr {f : ε → ε'} (hm : Keeps P m) : Keeps P (mapErr f m) := by
  intro w h
  have h₁ := hm w h
  unfold mapErr
  generalize m w = r at h₁
  obtain ⟨o, w'⟩ := r
  cases o <;> exact h₁

theorem keeps_attempt (hm : Keeps P m) : Keeps P (attempt m : Effect ε' σ (Except ε α)) := by
  intro w h
  have h₁ := hm w h
  unfold attempt
  generalize m w = r at h₁
  obtain ⟨o, w'⟩ := r
  cases o <;> exact h₁

theorem keeps_withVar {init : τ} {m : Effect ε (σ × τ) Unit}
    (hm : Keeps (fun p => P p.1) m) : Keeps P (withVar init m) := by
  intro w h
  have h₁ := hm ⟨(w.state, init), w.plan, w.commits⟩ h
  unfold withVar
  generalize m ⟨(w.state, init), w.plan, w.commits⟩ = r at h₁
  obtain ⟨o, w'⟩ := r
  cases o <;> exact h₁

/-- What is kept holds wherever the run ends. -/
theorem ends_of_keeps {w : World σ} (hm : Keeps P m) (h : P w.state) :
    ends m (fun _ w' => P w'.state) (fun _ w' => P w'.state) w := by
  have h₁ := hm w h
  unfold ends
  generalize m w = r at h₁
  obtain ⟨o, w'⟩ := r
  cases o <;> exact h₁

end Keeps

end Effect
