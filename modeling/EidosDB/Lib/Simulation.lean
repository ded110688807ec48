import EidosDB.Lib.Triples

/-! # Simulation of Effects

    An implementation may be interrupted, and may give up with an error it is
    excused for: a full disk, a step that fails.  The specification works on a
    state of its own that nothing interrupts.  The implementation simulates it
    if a run from related states comes to the value of the specification, in
    related states again, or panics where the specification does, or halts
    with an excuse.

    The relation before and the relation after are two parameters, so that a
    program can establish what the next one needs.  What is excused may depend
    on how the run is to be interrupted: an undisturbed run has fewer
    excuses. -/

namespace Effect

variable {ε ε' δ δ' σ τ σ' τ' α β : Type}

/-! ## Specifications -/

/-- The specification `m'` ends undisturbed with the value `a` in the state
    `t'`. -/
def Answers (m' : Effect δ τ α) (t : τ) (a : α) (t' : τ) : Prop :=
  m' (.start t .none) = (.ok a, .start t' .none)

theorem answers_pure (a : α) (t : τ) : Answers (Pure.pure a : Effect δ τ α) t a t := rfl

theorem answers_bind {m' : Effect δ τ α} {f' : α → Effect δ τ β} {t t₁ t' : τ} {a : α} {b : β}
    (h : Answers m' t a t₁) (hf : Answers (f' a) t₁ b t') : Answers (m' >>= f') t b t' := by
  unfold Answers at h ⊢
  rw [bind_apply, h]
  exact hf

theorem answers_mapErr {f : δ → δ'} {m' : Effect δ τ α} {t t' : τ} {a : α}
    (h : Answers m' t a t') : Answers (mapErr f m') t a t' := by
  unfold Answers mapErr at *
  rw [h]

theorem answers_zoom {read : τ' → τ} {write : τ → τ' → τ'} {m' : Effect δ τ α} {t : τ'} {t₁ : τ}
    {a : α} (h : Answers m' (read t) a t₁) : Answers (zoom read write m') t a (write t₁ t) := by
  unfold Answers at h ⊢
  unfold zoom
  have h : m' ⟨read t, .none, 0⟩ = (.ok a, ⟨t₁, .none, 0⟩) := h
  dsimp only [World.start]
  rw [h]

theorem answers_call {f : τ → Option (Except δ α × τ)} {t t' : τ} {a : α}
    (h : f t = some (.ok a, t')) : Answers (call f) t a t' := by
  unfold Answers call
  dsimp only [World.start]
  rw [h]

/-- The specification `m'` panics. -/
def Panics (m' : Effect δ τ α) (t : τ) : Prop := (m' (.start t .none)).1 = .panicked

theorem panics_bind {m' : Effect δ τ α} {f' : α → Effect δ τ β} {t : τ} (h : Panics m' t) :
    Panics (m' >>= f') t := by
  unfold Panics at h ⊢
  rw [bind_apply]
  generalize m' (.start t .none) = r at h ⊢
  obtain ⟨o, w'⟩ := r
  rw [show o = .panicked from h]

theorem panics_then {m' : Effect δ τ α} {f' : α → Effect δ τ β} {t t₁ : τ} {a : α}
    (h : Answers m' t a t₁) (hf : Panics (f' a) t₁) : Panics (m' >>= f') t := by
  unfold Answers at h
  unfold Panics at hf ⊢
  rw [bind_apply, h]
  exact hf

theorem panics_mapErr {f : δ → δ'} {m' : Effect δ τ α} {t : τ} (h : Panics m' t) :
    Panics (mapErr f m') t := by
  unfold Panics mapErr at *
  generalize m' (.start t .none) = r at h ⊢
  obtain ⟨o, w'⟩ := r
  rw [show o = .panicked from h]

theorem panics_zoom {read : τ' → τ} {write : τ → τ' → τ'} {m' : Effect δ τ α} {t : τ'}
    (h : Panics m' (read t)) : Panics (zoom read write m') t := h

theorem panics_call {f : τ → Option (Except δ α × τ)} {t : τ} (h : f t = none) :
    Panics (call f) t := by
  unfold Panics call
  dsimp only [World.start]
  rw [h]

/-- What the specification answers, its undisturbed run answers. -/
theorem Answers.exec {m' : Effect δ τ α} {t t' : τ} {a : α} (h : Answers m' t a t') :
    m'.exec t = some (.ok a, t') := by
  unfold Effect.exec
  unfold Answers at h
  rw [h]
  rfl

/-! ## Simulation -/

/-- The implementation `m` simulates the specification `m'` from states that
    `R` relates: it comes to its value, in states that `R'` relates, panics
    where it panics, or halts in a way that is excused. -/
def Simulates (Excused : Option Stop → Halt ε → Prop) (R : σ → τ → Prop) (m : Effect ε σ α)
    (m' : Effect δ τ α) (R' : α → σ → τ → Prop) : Prop :=
  ∀ w t, R w.state t →
    ends m
      (fun a w' => w'.plan.how = w.plan.how ∧ ∃ t', Answers m' t a t' ∧ R' a w'.state t')
      (fun r _ => Excused w.plan.how r ∨ (r = .panicked ∧ Panics m' t)) w

section Rules

variable {Excused : Option Stop → Halt ε → Prop} {R : σ → τ → Prop} {m : Effect ε σ α}
  {m' : Effect δ τ α} {R' : α → σ → τ → Prop}

theorem simulates_pure {a : α} (h : ∀ s t, R s t → R' a s t) :
    Simulates Excused R (Pure.pure a : Effect ε σ α) (Pure.pure a : Effect δ τ α) R' :=
  fun w t hr => ⟨rfl, t, answers_pure a t, h w.state t hr⟩

/-- A weaker relation after, a stronger one before. -/
theorem simulates_mono {S : σ → τ → Prop} {S' : α → σ → τ → Prop}
    (h : Simulates Excused R m m' R') (hR : ∀ s t, S s t → R s t)
    (hR' : ∀ a s t, R' a s t → S' a s t) : Simulates Excused S m m' S' := by
  intro w t hs
  apply ends_mono (h w t (hR _ _ hs))
  · rintro a w' ⟨hhow, t', hanswers, hr'⟩
    exact ⟨hhow, t', hanswers, hR' a _ _ hr'⟩
  · exact fun _ _ he => he

theorem simulates_bind {f : α → Effect ε σ β} {f' : α → Effect δ τ β} {S : β → σ → τ → Prop}
    (R' : α → σ → τ → Prop) (h : Simulates Excused R m m' R')
    (hf : ∀ a, Simulates Excused (R' a) (f a) (f' a) S) :
    Simulates Excused R (m >>= f) (m' >>= f') S := by
  intro w t hr
  rw [ends_bind]
  apply ends_mono (h w t hr)
  · rintro a w₁ ⟨hhow, t₁, hanswers, hr'⟩
    apply ends_mono (hf a w₁ t₁ hr')
    · rintro b w' ⟨hhow', t', hrest, hs⟩
      exact ⟨hhow'.trans hhow, t', answers_bind hanswers hrest, hs⟩
    · rintro r w' (hexcused | ⟨hr, hpanics⟩)
      · rw [hhow] at hexcused
        exact Or.inl hexcused
      · exact Or.inr ⟨hr, panics_then hanswers hpanics⟩
  · rintro r w' (hexcused | ⟨hr, hpanics⟩)
    · exact Or.inl hexcused
    · exact Or.inr ⟨hr, panics_bind hpanics⟩

/-- Both programs read their states. -/
theorem simulates_get {f : σ → Effect ε σ α} {f' : τ → Effect δ τ α}
    (h : ∀ s t, R s t → Simulates Excused (fun s' t' => s' = s ∧ t' = t) (f s) (f' t) R') :
    Simulates Excused R (get >>= f) (get >>= f') R' := by
  intro w t hr
  rw [ends_bind, ends_get]
  exact h w.state t hr w t ⟨rfl, rfl⟩

/-- Both programs look at a value that is the same on both sides. -/
theorem simulates_liftExcept {x : Except ε α} {x' : Except δ α} {a : α} (hx : x = .ok a)
    (hx' : x' = .ok a) (h : ∀ s t, R s t → R' a s t) :
    Simulates Excused R (liftExcept x) (liftExcept x') R' := by
  subst hx
  subst hx'
  exact simulates_pure h

theorem simulates_mapErr {Excused' : Option Stop → Halt ε' → Prop} {f : ε → ε'} {f' : δ → δ'}
    (h : Simulates Excused R m m' R') (he : ∀ how r, Excused how r → Excused' how (r.map f)) :
    Simulates Excused' R (mapErr f m) (mapErr f' m') R' := by
  intro w t hr
  rw [ends_mapErr]
  apply ends_mono (h w t hr)
  · rintro a w' ⟨hhow, t', hanswers, hr'⟩
    exact ⟨hhow, t', answers_mapErr hanswers, hr'⟩
  · rintro r w' (hexcused | ⟨rfl, hpanics⟩)
    · exact Or.inl (he _ _ hexcused)
    · exact Or.inr ⟨rfl, panics_mapErr hpanics⟩

/-- Programs on parts of the two states. -/
theorem simulates_zoom {read : σ' → σ} {write : σ → σ' → σ'} {read' : τ' → τ}
    {write' : τ → τ' → τ'} {S : σ' → τ' → Prop} {S' : α → σ' → τ' → Prop}
    (h : ∀ s t, S s t → Simulates Excused (fun s₁ t₁ => s₁ = read s ∧ t₁ = read' t) m m'
      fun a s₁ t₁ => S' a (write s₁ s) (write' t₁ t)) :
    Simulates Excused S (zoom read write m) (zoom read' write' m') S' := by
  intro w t hs
  rw [ends_zoom]
  apply ends_mono (h w.state t hs ⟨read w.state, w.plan, w.commits⟩ (read' t) ⟨rfl, rfl⟩)
  · rintro a w' ⟨hhow, t₁, hanswers, hs'⟩
    exact ⟨hhow, write' t₁ t, answers_zoom hanswers, hs'⟩
  · rintro r w' (hexcused | ⟨hr, hpanics⟩)
    · exact Or.inl hexcused
    · exact Or.inr ⟨hr, panics_zoom hpanics⟩

/-- Only the specification works on a part of its state. -/
theorem simulates_zoom_spec {read' : τ' → τ} {write' : τ → τ' → τ'} {S : σ → τ' → Prop}
    {S' : α → σ → τ' → Prop}
    (h : ∀ s t, S s t → Simulates Excused (fun s₁ t₁ => s₁ = s ∧ t₁ = read' t) m m'
      fun a s₁ t₁ => S' a s₁ (write' t₁ t)) :
    Simulates Excused S m (zoom read' write' m') S' := by
  intro w t hs
  apply ends_mono (h w.state t hs w (read' t) ⟨rfl, rfl⟩)
  · rintro a w' ⟨hhow, t₁, hanswers, hs'⟩
    exact ⟨hhow, write' t₁ t, answers_zoom hanswers, hs'⟩
  · rintro r w' (hexcused | ⟨hr, hpanics⟩)
    · exact Or.inl hexcused
    · exact Or.inr ⟨hr, panics_zoom hpanics⟩

/-- A specification that is a function of its state. -/
theorem simulates_call {f : τ → Option (Except δ α × τ)}
    (h : ∀ w t, R w.state t →
      ends m
        (fun a w' => w'.plan.how = w.plan.how ∧ ∃ t', f t = some (.ok a, t') ∧ R' a w'.state t')
        (fun r _ => Excused w.plan.how r ∨ (r = .panicked ∧ f t = none)) w) :
    Simulates Excused R m (call f) R' := by
  intro w t hr
  apply ends_mono (h w t hr)
  · rintro a w' ⟨hhow, t', hf, hr'⟩
    exact ⟨hhow, t', answers_call hf, hr'⟩
  · rintro r w' (hexcused | ⟨hr, hf⟩)
    · exact Or.inl hexcused
    · exact Or.inr ⟨hr, panics_call hf⟩

end Rules

/-! ## Undisturbed runs -/

/-- How an undisturbed run may end beside that of its specification. -/
inductive Follows (Excused : ε → Prop) (Q : σ → τ → Prop) :
    Outcome ε α × σ → Outcome ε' α × τ → Prop where
  | ok {a : α} {s : σ} {t : τ} (related : Q s t) : Follows Excused Q (.ok a, s) (.ok a, t)
  | panicked {s : σ} {t : τ} : Follows Excused Q (.panicked, s) (.panicked, t)
  | excused {e : ε} {s : σ} {r : Outcome ε' α × τ} (excuse : Excused e) :
      Follows Excused Q (.err e, s) r

namespace Follows

variable {Excused : ε → Prop} {Q : σ → τ → Prop} {o : Outcome ε α}
  {o' : Outcome ε' α} {s : σ} {t : τ}

theorem map_state {Q' : σ' → τ' → Prop} {f : σ → σ'} {g : τ → τ'}
    (h : Follows Excused Q (o, s) (o', t)) (hQ : ∀ s t, Q s t → Q' (f s) (g t)) :
    Follows Excused Q' (o, f s) (o', g t) := by
  cases h with
  | ok related => exact .ok (hQ s t related)
  | panicked => exact .panicked
  | excused excuse => exact .excused excuse

theorem mapErr {Excused' : δ → Prop} {f : ε → δ} {f' : ε' → δ'}
    (h : Follows Excused Q (o, s) (o', t)) (he : ∀ e, Excused e → Excused' (f e)) :
    Follows Excused' Q (o.mapErr f, s) (o'.mapErr f', t) := by
  cases h with
  | ok related => exact .ok related
  | panicked => exact .panicked
  | excused excuse => exact .excused (he _ excuse)

/-- What is known of the specification's state is used for the relation. -/
theorem mono_of {r : Outcome ε α × σ} {r' : Outcome ε' α × τ} {C : τ → Prop}
    {Q' : σ → τ → Prop} (h : Follows Excused Q r r') (hC : C r'.2)
    (hQ : ∀ s t, Q s t → C t → Q' s t) : Follows Excused Q' r r' := by
  cases h with
  | ok related => exact .ok (hQ _ _ related hC)
  | panicked => exact .panicked
  | excused excuse => exact .excused excuse

end Follows

/-- The undisturbed run of a simulation. -/
theorem Simulates.follows {Ex : Option Stop → Halt ε → Prop}
    {Excused : ε → Prop} {R R' : σ → τ → Prop} {m : Effect ε σ α} {m' : Effect δ τ α}
    (h : Simulates Ex R m m' fun _ => R')
    (hex : ∀ r, Ex none r → ∃ e, r = .err e ∧ Excused e) {c : σ} {c' : τ} (hr : R c c') :
    Follows Excused R' ((m (.start c .none)).1, (m (.start c .none)).2.state)
      ((m' (.start c' .none)).1, (m' (.start c' .none)).2.state) := by
  have hends := h (.start c .none) c' hr
  have hhalt : ∀ r : Halt ε, (Ex none r ∨ (r = .panicked ∧ Panics m' c')) →
      (∃ e, r = .err e ∧ Excused e) ∨ (r = .panicked ∧ Panics m' c') := by
    rintro r (hexcused | hpanic)
    · exact Or.inl (hex r hexcused)
    · exact Or.inr hpanic
  unfold ends at hends
  generalize m (.start c .none) = r at hends ⊢
  obtain ⟨o, w'⟩ := r
  cases o with
  | ok a =>
    obtain ⟨-, t', hanswers, hr'⟩ := hends
    unfold Answers at hanswers
    rw [hanswers]
    exact .ok hr'
  | err e =>
    rcases hhalt _ hends with ⟨e', he, hexcused⟩ | ⟨he, -⟩
    · cases he
      exact .excused hexcused
    · cases he
  | crashed =>
    rcases hhalt _ hends with ⟨e', he, -⟩ | ⟨he, -⟩ <;> cases he
  | panicked =>
    rcases hhalt _ hends with ⟨e', he, -⟩ | ⟨-, hpanics⟩
    · cases he
    · unfold Panics at hpanics
      generalize m' (.start c' .none) = r' at hpanics ⊢
      obtain ⟨o', w''⟩ := r'
      rw [show o' = .panicked from hpanics]
      exact .panicked

/-! ## Steady programs

    A run that is not interrupted should be the undisturbed run, also when it
    is one that could have been.  It is for programs that do not look at their
    own errors.  What is known of undisturbed runs then holds of all runs that
    are not interrupted. -/

/-- How a run may halt: by the interruption that was to come, or as the
    undisturbed run does. -/
def SteadyHalt (m : Effect ε σ α) (w : World σ) (c : Nat) : Halt ε → Prop
  | .err e => w.plan.how = some .fail ∨ (m ⟨w.state, .none, c⟩).1 = .err e
  | .crashed => w.plan.how = some .crash
  | .panicked => (m ⟨w.state, .none, c⟩).1 = .panicked

/-- A run that is not interrupted is the undisturbed run. -/
def Steady (m : Effect ε σ α) : Prop :=
  ∀ w c, ends m
    (fun a w' => w'.plan.how = w.plan.how ∧
      ∃ c', m ⟨w.state, .none, c⟩ = (.ok a, ⟨w'.state, .none, c'⟩))
    (fun r _ => SteadyHalt m w c r) w

section Steady

variable {m : Effect ε σ α}

theorem steady_pure (a : α) : Steady (Pure.pure a : Effect ε σ α) := fun _ c => ⟨rfl, c, rfl⟩

theorem steady_throw (e : ε) : Steady (throw e : Effect ε σ α) := fun _ _ => Or.inr rfl

theorem steady_liftExcept (x : Except ε α) : Steady (liftExcept x : Effect ε σ α) := by
  cases x with
  | ok a => exact steady_pure a
  | error e => exact steady_throw e

theorem steady_bind {f : α → Effect ε σ β} (hm : Steady m) (hf : ∀ a, Steady (f a)) :
    Steady (m >>= f) := by
  intro w c
  rw [ends_bind]
  apply ends_mono (hm w c)
  · rintro a w₁ ⟨hhow, c₁, hone⟩
    have hrun : (m >>= f) ⟨w.state, .none, c⟩ = f a ⟨w₁.state, .none, c₁⟩ := by
      rw [bind_apply, hone]
    apply ends_mono (hf a w₁ c₁)
    · rintro b w' ⟨hhow', c', hrest⟩
      exact ⟨hhow'.trans hhow, c', hrun.trans hrest⟩
    · intro r w' hhalt
      cases r with
      | err e =>
        rcases hhalt with hfail | herr
        · exact Or.inl (hhow ▸ hfail)
        · exact Or.inr (hrun ▸ herr)
      | crashed => exact hhow.symm.trans hhalt
      | panicked => exact (congrArg Prod.fst hrun).trans hhalt
  · intro r w' hhalt
    -- the second program is not reached
    have hstop : ∀ o, (m ⟨w.state, .none, c⟩).1 = o → (∀ a, o ≠ .ok a) →
        ((m >>= f) ⟨w.state, .none, c⟩).1 = match o with
          | .err e => .err e
          | .crashed => .crashed
          | _ => .panicked := by
      intro o ho hne
      rw [bind_apply]
      generalize m ⟨w.state, .none, c⟩ = r at ho ⊢
      obtain ⟨o', w''⟩ := r
      subst ho
      cases o' with
      | ok a => exact absurd rfl (hne a)
      | err e => rfl
      | crashed => rfl
      | panicked => rfl
    cases r with
    | err e =>
      rcases hhalt with hfail | herr
      · exact Or.inl hfail
      · exact Or.inr (hstop _ herr fun a h => nomatch h)
    | crashed => exact hhalt
    | panicked => exact hstop _ hhalt fun a h => nomatch h

theorem steady_get {f : σ → Effect ε σ α} (hf : ∀ s, Steady (f s)) : Steady (get >>= f) := by
  intro w c
  rw [ends_bind, ends_get]
  apply ends_mono (hf w.state w c)
  · exact fun _ _ h => h
  · intro r w' hhalt
    cases r with
    | err e => exact hhalt
    | crashed => exact hhalt
    | panicked => exact hhalt

theorem steady_call (f : σ → Option (Except ε α × σ)) : Steady (call f) := by
  intro w c
  rw [ends_call]
  cases hf : f w.state with
  | none =>
    show (call f ⟨w.state, .none, c⟩).1 = .panicked
    simp only [call, hf]
  | some r =>
    obtain ⟨result, s⟩ := r
    cases result with
    | ok a => exact ⟨rfl, c, by simp only [call, hf]⟩
    | error e => exact Or.inr (by simp only [call, hf])

theorem steady_commit (e : ε) (f : σ → σ) : Steady (commit e f) := by
  intro w c
  apply ends_commit
  · exact fun plan hplan => ⟨hplan, c + 1, rfl⟩
  · exact fun hcrash _ => hcrash
  · exact fun hfail _ => Or.inl hfail

/-- What the undisturbed run answers, every run that comes to a value has
    come to. -/
theorem Steady.ends (hm : Steady m) (w : World σ) :
    Effect.ends m
      (fun a w' => w'.plan.how = w.plan.how ∧ m.exec w.state = some (.ok a, w'.state))
      (fun r _ => SteadyHalt m w 0 r) w := by
  apply ends_mono (hm w 0)
  · rintro a w' ⟨hhow, c', hone⟩
    refine ⟨hhow, ?_⟩
    unfold Effect.exec World.start
    rw [hone]
  · exact fun _ _ h => h

/-- A steady program whose undisturbed runs follow a function on the states of
    the specification. -/
theorem Steady.simulates {Excused : Option Stop → Halt ε → Prop} {R : σ → τ → Prop}
    {R' : σ → τ → Prop} {m : Effect ε σ Unit} {f : τ → Option τ} (hm : Steady m)
    (hfail : ∀ e, Excused (some .fail) (.err e)) (hcrash : Excused (some .crash) .crashed)
    (h : ∀ s t, R s t → Option.Rel (fun r t' => r.1 = .ok () ∧ R' r.2 t') (m.exec s) (f t)) :
    Simulates Excused R m (call fun t => (f t).map fun t' => ((.ok () : Except δ Unit), t'))
      fun _ => R' := by
  apply simulates_call
  intro w t hr
  have hrel := h w.state t hr
  apply ends_mono (hm.ends w)
  · rintro a w' ⟨hhow, hexec⟩
    rw [hexec] at hrel
    generalize f t = y at hrel ⊢
    cases hrel with
    | some hrel => exact ⟨hhow, _, rfl, hrel.2⟩
  · intro r w' hhalt
    unfold Effect.exec World.start at hrel
    generalize hrun : m ⟨w.state, .none, 0⟩ = one at hrel
    obtain ⟨o, w₁⟩ := one
    cases r with
    | err e =>
      rcases hhalt with hplan | herr
      · exact Or.inl (hplan ▸ hfail e)
      · -- the undisturbed run reports no error
        rw [hrun] at herr
        subst herr
        generalize f t = y at hrel
        cases hrel with
        | some hrel => cases hrel.1
    | crashed => exact Or.inl ((show w.plan.how = _ from hhalt) ▸ hcrash)
    | panicked =>
      have hpanic : (m ⟨w.state, .none, 0⟩).1 = .panicked := hhalt
      rw [hrun] at hpanic
      subst hpanic
      generalize f t = y at hrel ⊢
      cases hrel with
      | none => exact Or.inr ⟨rfl, rfl⟩

end Steady

end Effect
