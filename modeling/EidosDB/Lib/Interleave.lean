import EidosDB.Lib.Triples

/-! # Interleaved Parties

    A party runs a program cut into atomic steps: its control state says
    which step is next.  A step may fail on its way; a crash of the process
    is not a step.  Two parties on one shared state take turns in any order.
    A guard restricts when a party moves, so that a statement about the runs
    all of whose steps meet a condition is one about guarded runs. -/

namespace Effect

variable {ε σ κ ν : Type}

/-- A run of `m` from `s` that ends with a value leaves the value and the state
    in `Q`; one that halts leaves the state in `E`. -/
def Leaves {α : Type} (m : Effect ε σ α) (s : σ) (Q : α → σ → Prop) (E : σ → Prop) : Prop :=
  ∀ w, w.state = s → ends m (fun a w' => Q a w'.state) (fun _ w' => E w'.state) w

/-- A program in steps.  `halted` is where a step that halts leaves the
    control; there is no place for a crash. -/
structure Party (ε σ κ : Type) where
  step : κ → Effect ε σ κ
  halted : Halt ε → Option κ

theorem pure_next {α β : Type} (a : α) (f : α → Effect ε σ β) : Pure.pure a >>= f = f a := rfl

/-- What the caller of a call that halted sees; there is no caller after a
    crash. -/
def Halt.outcome {α : Type} : Halt ε → Option (Outcome ε α)
  | .err e => some (.err e)
  | .crashed => none
  | .panicked => some .panicked

/-- A call that halted did not come to a value. -/
theorem Halt.outcome_ne_ok {α : Type} {r : Halt ε} {o : Outcome ε α} (h : r.outcome = some o)
    (a : α) : o ≠ .ok a := by
  cases r <;> cases h <;> simp

namespace Party

variable (p : Party ε σ κ)

/-- One step under the plan. -/
def advance (plan : Plan) (k : κ) (s : σ) : Option (κ × σ) :=
  match p.step k (.start s plan) with
  | (.ok k', w) => some (k', w.state)
  | (.err e, w) => (p.halted (.err e)).map fun k' => (k', w.state)
  | (.crashed, w) => (p.halted .crashed).map fun k' => (k', w.state)
  | (.panicked, w) => (p.halted .panicked).map fun k' => (k', w.state)

/-- A step, whatever interrupts it. -/
def Moves (k : κ) (s : σ) (k' : κ) (s' : σ) : Prop :=
  ∃ plan, p.advance plan k s = some (k', s')

variable {p}

/-- Where a step can lead, from its postconditions. -/
theorem moves_cases {k k' : κ} {s s' : σ} (h : p.Moves k s k' s')
    {Q : κ → World σ → Prop} {E : Halt ε → World σ → Prop}
    (hends : ∀ plan, ends (p.step k) Q E (.start s plan)) :
    (∃ w, Q k' w ∧ w.state = s') ∨ ∃ r w, p.halted r = some k' ∧ E r w ∧ w.state = s' := by
  obtain ⟨plan, hmove⟩ := h
  have hend := hends plan
  unfold advance at hmove
  unfold ends at hend
  have hhalt : ∀ {r : Halt ε} {w : World σ}, E r w →
      ((p.halted r).map fun k' => (k', w.state)) = some (k', s') →
      ∃ r w, p.halted r = some k' ∧ E r w ∧ w.state = s' := by
    intro r w hE hmap
    obtain ⟨c, hc, heq⟩ := Option.map_eq_some_iff.mp hmap
    cases heq
    exact ⟨r, w, hc, hE, rfl⟩
  cases hrun : p.step k (.start s plan) with
  | mk o w =>
    rw [hrun] at hmove hend
    cases o with
    | ok c =>
      cases hmove
      exact Or.inl ⟨w, hend, rfl⟩
    | err e => exact Or.inr (hhalt hend hmove)
    | crashed => exact Or.inr (hhalt hend hmove)
    | panicked => exact Or.inr (hhalt hend hmove)

/-- Where a step leads that is a program with a value. -/
theorem moves_bind {α : Type} {m : Effect ε σ α} {f : α → κ} {k k' : κ} {s s' : σ}
    (hstep : p.step k = do let a ← m; pure (f a)) (h : p.Moves k s k' s')
    {Q : α → σ → Prop} {E : σ → Prop} (hleaves : Leaves m s Q E) :
    (∃ a, k' = f a ∧ Q a s') ∨ ((∃ r, p.halted r = some k') ∧ E s') := by
  have hrun : ∀ plan, ends (p.step k) (fun k' w => ∃ a, k' = f a ∧ Q a w.state)
      (fun _ w => E w.state) (.start s plan) := by
    intro plan
    rw [hstep, ends_bind]
    exact ends_mono (hleaves (.start s plan) rfl) (fun a _ hq => ⟨a, rfl, hq⟩) fun _ _ h => h
  rcases moves_cases h hrun with ⟨w, hq, rfl⟩ | ⟨r, w, hr, he, rfl⟩
  · exact Or.inl hq
  · exact Or.inr ⟨⟨r, hr⟩, he⟩

/-- An undisturbed step. -/
theorem moves_of_finishes {α : Type} {m : Effect ε σ α} {f : α → κ} {k : κ} {s : σ}
    (hstep : p.step k = do let a ← m; pure (f a)) {Q : α → σ → Prop} (h : Finishes m s Q) :
    ∃ a s', p.Moves k s (f a) s' ∧ Q a s' := by
  obtain ⟨a, s', c, hrun, hq⟩ := h 0
  refine ⟨a, s', ⟨.none, ?_⟩, hq⟩
  unfold advance World.start
  rw [hstep, bind_apply, hrun]
  rfl

/-- An undisturbed step that fails. -/
theorem moves_of_fails {k : κ} {s : σ} {R : σ → Prop} (h : Fails (p.step k) s R) :
    ∃ e s', (∀ k', p.halted (.err e) = some k' → p.Moves k s k' s') ∧ R s' := by
  obtain ⟨e, s', c, hrun, hr⟩ := h 0
  refine ⟨e, s', fun k' hk' => ⟨.none, ?_⟩, hr⟩
  unfold advance World.start
  rw [hrun]
  dsimp only
  rw [hk', Option.map_some]

end Party

/-! ## Two parties -/

/-- One party moves, when its guard lets it. -/
inductive Interleaved (left : Party ε σ κ) (right : Party ε σ ν)
    (mayLeft mayRight : κ → ν → σ → Prop) : κ × ν × σ → κ × ν × σ → Prop
  | left {a a' : κ} {b : ν} {s s' : σ} : mayLeft a b s → left.Moves a s a' s' →
      Interleaved left right mayLeft mayRight (a, b, s) (a', b, s')
  | right {a : κ} {b b' : ν} {s s' : σ} : mayRight a b s → right.Moves b s b' s' →
      Interleaved left right mayLeft mayRight (a, b, s) (a, b', s')

/-- A party that is never held back. -/
def Anytime (_ : κ) (_ : ν) (_ : σ) : Prop := True

section invariant

variable {left : Party ε σ κ} {right : Party ε σ ν} {mayLeft mayRight : κ → ν → σ → Prop}
  {I : κ → ν → σ → Prop}

/-- What both parties keep holds after every run. -/
theorem invariant_of_interleaved
    (hleft : ∀ a b s a' s', I a b s → mayLeft a b s → left.Moves a s a' s' → I a' b s')
    (hright : ∀ a b s b' s', I a b s → mayRight a b s → right.Moves b s b' s' → I a b' s')
    {a a' : κ} {b b' : ν} {s s' : σ} (h : I a b s)
    (hrun : Relation.ReflTransGen (Interleaved left right mayLeft mayRight) (a, b, s) (a', b', s')) :
    I a' b' s' := by
  have hall : ∀ x, Relation.ReflTransGen (Interleaved left right mayLeft mayRight) (a, b, s) x →
      I x.1 x.2.1 x.2.2 := by
    intro x hx
    induction hx with
    | refl => exact h
    | tail _ hstep ih =>
      cases hstep with
      | left hmay hmove => exact hleft _ _ _ _ _ ih hmay hmove
      | right hmay hmove => exact hright _ _ _ _ _ ih hmay hmove
  exact hall _ hrun

end invariant

end Effect
