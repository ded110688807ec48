import EidosDB.Lib.Effect

/-! # Transactions

    A transaction works on a copy of its own and hands it over at its end.
    Any of its steps may fail, and then nothing of it is left: so of a run
    that is cut short nothing needs to be said but that it did not panic.
    `Yields m s Q` says just that of a run from `s`, and that it is in `Q`
    when it ends with a value. -/

namespace Effect

variable {ε σ τ α β : Type}

/-! ## Programs -/

/-- A step that may fail and changes nothing. -/
def fallible (e : ε) : Effect ε σ Unit := durable e id

/-- Such steps one after another. -/
def fallibles (e : ε) : Nat → Effect ε σ Unit
  | 0 => Pure.pure ()
  | n + 1 => do
    fallible e
    fallibles e n

/-- Run a program on a copy that starts as `init`, and return what it leaves. -/
def transaction (init : τ) (body : Effect ε τ Unit) : Effect ε σ τ :=
  withVar init (zoom Prod.snd (fun copy s => (s.1, copy)) body)

section Steps

variable {e : ε} {g : σ → σ} {f : Unit → Effect ε σ α} {Q : α → World σ → Prop}
  {E : Halt ε → World σ → Prop} {w : World σ}

/-- A durable step goes on, or cuts an interrupted run short with the state as
    it was. -/
theorem ends_durable_bind
    (hQ : ∀ plan, plan.how = w.plan.how → ends (f ()) Q E ⟨g w.state, plan, w.commits⟩)
    (hE : ∀ r plan, w.plan.how ≠ none → r ≠ .panicked → E r ⟨w.state, plan, w.commits⟩) :
    ends (durable e g >>= f) Q E w := by
  rw [ends_bind]
  apply ends_durable
  · exact hQ
  · intro hcrash plan
    exact hE .crashed plan (by rw [hcrash]; exact nofun) nofun
  · intro hfail plan
    exact hE (.err e) plan (by rw [hfail]; exact nofun) nofun

theorem ends_commit_bind
    (hQ : ∀ plan, plan.how = w.plan.how → ends (f ()) Q E ⟨g w.state, plan, w.commits + 1⟩)
    (hE : ∀ r plan, w.plan.how ≠ none → r ≠ .panicked → E r ⟨w.state, plan, w.commits⟩) :
    ends (commit e g >>= f) Q E w := by
  rw [ends_bind]
  apply ends_commit
  · exact hQ
  · intro hcrash plan
    exact hE .crashed plan (by rw [hcrash]; exact nofun) nofun
  · intro hfail plan
    exact hE (.err e) plan (by rw [hfail]; exact nofun) nofun

/-- So does a step that may fail. -/
theorem ends_fallible
    (hQ : ∀ plan, plan.how = w.plan.how → ends (f ()) Q E ⟨w.state, plan, w.commits⟩)
    (hE : ∀ r plan, w.plan.how ≠ none → r ≠ .panicked → E r ⟨w.state, plan, w.commits⟩) :
    ends (fallible e >>= f) Q E w :=
  ends_durable_bind hQ hE

theorem ends_fallibles (n : Nat)
    (hQ : ∀ plan, plan.how = w.plan.how → ends (f ()) Q E ⟨w.state, plan, w.commits⟩)
    (hE : ∀ r plan, w.plan.how ≠ none → r ≠ .panicked → E r ⟨w.state, plan, w.commits⟩) :
    ends (fallibles e n >>= f) Q E w := by
  induction n generalizing w with
  | zero => exact hQ w.plan rfl
  | succ n ih =>
    rw [fallibles, bind_bind]
    apply ends_fallible
    · intro plan hplan
      apply ih
      · exact fun plan' hplan' => hQ plan' (hplan'.trans hplan)
      · exact fun r plan' hne => hE r plan' (hplan ▸ hne)
    · exact hE

end Steps

/-! ## What a run yields -/

/-- A run from `s`, cut short or not, does not panic, and a value and the
    state it ends with are in `Q`. -/
def Yields (m : Effect ε σ α) (s : σ) (Q : α → σ → Prop) : Prop :=
  ∀ w, w.state = s → ends m (fun a w' => Q a w'.state) (fun r _ => r ≠ .panicked) w

section Rules

variable {m : Effect ε σ α} {s : σ} {Q Q' : α → σ → Prop}

theorem yields_pure {a : α} (h : Q a s) : Yields (Pure.pure a : Effect ε σ α) s Q := by
  rintro w rfl
  exact h

theorem yields_mono (h : Yields m s Q) (hQ : ∀ a s', Q a s' → Q' a s') : Yields m s Q' :=
  fun w hw => ends_mono (h w hw) (fun a w' hq => hQ a w'.state hq) fun _ _ hr => hr

theorem yields_bind {f : α → Effect ε σ β} {R : β → σ → Prop} (h : Yields m s Q)
    (hf : ∀ a s', Q a s' → Yields (f a) s' R) : Yields (m >>= f) s R := by
  intro w hw
  rw [ends_bind]
  exact ends_mono (h w hw) (fun a w' hq => hf a w'.state hq w' rfl) fun _ _ hr => hr

/-- What a program does with the state it reads. -/
theorem yields_get {f : σ → Effect ε σ α} (h : Yields (f s) s Q) : Yields (get >>= f) s Q := by
  rintro w rfl
  exact h w rfl

theorem yields_modify {f : σ → σ} {Q : Unit → σ → Prop} (h : Q () (f s)) :
    Yields (modify f : Effect ε σ Unit) s Q := by
  rintro w rfl
  exact h

/-- What a program does after a change of the state. -/
theorem yields_next {g : σ → σ} {f : Unit → Effect ε σ α} (h : Yields (f ()) (g s) Q) :
    Yields (modify g >>= f) s Q := by
  rintro w rfl
  exact h _ rfl

/-- What a program does after a step that may fail. -/
theorem yields_fallible {e : ε} {f : Unit → Effect ε σ α} (h : Yields (f ()) s Q) :
    Yields (fallible e >>= f) s Q := by
  rintro w rfl
  apply ends_fallible
  · intro plan _
    exact h _ rfl
  · intro r plan _ hr
    exact hr

theorem yields_fallibles {e : ε} {f : Unit → Effect ε σ α} (n : Nat) (h : Yields (f ()) s Q) :
    Yields (fallibles e n >>= f) s Q := by
  rintro w rfl
  apply ends_fallibles
  · intro plan _
    exact h _ rfl
  · intro r plan _ hr
    exact hr

/-- A loop each of whose steps does what a checked step on a part of the state
    does, and leaves the rest, does what the checked loop does. -/
theorem yields_forM {ε' κ : Type} (view : σ → τ) (rest : σ → κ) {f : α → Effect ε σ Unit}
    {g : τ → α → Except ε' τ} {l : List α}
    (h : ∀ a ∈ l, ∀ s, Yields (f a) s fun _ s' => g (view s) a = .ok (view s') ∧ rest s' = rest s) :
    Yields (l.forM f) s fun _ s' => l.foldlM g (view s) = .ok (view s') ∧ rest s' = rest s := by
  induction l generalizing s with
  | nil => exact yields_pure ⟨rfl, rfl⟩
  | cons a l ih =>
    show Yields (f a >>= fun _ => l.forM f) s _
    apply yields_bind (h a List.mem_cons_self s)
    rintro _ s₁ ⟨hone, hrest⟩
    apply yields_mono (ih fun b hb => h b (List.mem_cons_of_mem _ hb))
    rintro _ s' ⟨htail, hrest'⟩
    refine ⟨?_, hrest'.trans hrest⟩
    rw [List.foldlM_cons, hone]
    exact htail

end Rules

/-- A transaction that fails leaves nothing; one that ends hands over what
    its body yields. -/
theorem ends_transaction {init : τ} {body : Effect ε τ Unit} {R : Unit → τ → Prop}
    {Q : τ → World σ → Prop} {E : Halt ε → World σ → Prop} {w : World σ}
    (h : Yields body init R)
    (hQ : ∀ copy plan commits, R () copy → Q copy ⟨w.state, plan, commits⟩)
    (hE : ∀ r plan commits, r ≠ .panicked → E r ⟨w.state, plan, commits⟩) :
    ends (transaction init body) Q E w := by
  unfold transaction
  rw [ends_withVar, ends_zoom]
  exact ends_mono (h _ rfl) (fun _ w' hr => hQ w'.state w'.plan w'.commits hr)
    fun r w' hr => hE r w'.plan w'.commits hr

end Effect
