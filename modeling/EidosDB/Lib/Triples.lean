import EidosDB.Lib.Trace

/-! # Triples

    `Leads P m R` is about runs that come to a value: from a state in `P`,
    whatever interrupts the run, the value and the state it ends with are in
    `R`.  `Finishes m s Q` is about the undisturbed run: it comes to a value.
    `Fails m s R` is about the undisturbed run that ends with an error.  The
    rules of all three follow the program text. -/

namespace Effect

variable {ε ε' σ τ α β : Type}

/-- Two facts about the end of one run. -/
theorem ends_and {m : Effect ε σ α} {Q Q' : α → World σ → Prop} {E E' : Halt ε → World σ → Prop}
    {w : World σ} (h : ends m Q E w) (h' : ends m Q' E' w) :
    ends m (fun a w' => Q a w' ∧ Q' a w') (fun r w' => E r w' ∧ E' r w') w := by
  unfold ends at h h' ⊢
  generalize m w = r at h h' ⊢
  obtain ⟨o, w'⟩ := r
  cases o <;> exact ⟨h, h'⟩

/-! ## Runs that come to a value -/

def Leads (P : σ → Prop) (m : Effect ε σ α) (R : α → σ → Prop) : Prop :=
  ∀ w, P w.state → ends m (fun a w' => R a w'.state) (fun _ _ => True) w

section Leads

variable {P : σ → Prop} {m : Effect ε σ α} {R : α → σ → Prop}

theorem leads_pure {a : α} (h : ∀ s, P s → R a s) : Leads P (Pure.pure a : Effect ε σ α) R :=
  fun w hw => h w.state hw

theorem leads_throw (e : ε) : Leads P (throw e : Effect ε σ α) R := fun _ _ => trivial

theorem leads_mono {P' : σ → Prop} {R' : α → σ → Prop} (h : Leads P m R)
    (hP : ∀ s, P' s → P s) (hR : ∀ a s, R a s → R' a s) : Leads P' m R' :=
  fun w hw => ends_mono (h w (hP _ hw)) (fun a w' => hR a w'.state) fun _ _ _ => trivial

theorem leads_bind {f : α → Effect ε σ β} {T : β → σ → Prop} (R : α → σ → Prop) (h : Leads P m R)
    (hf : ∀ a, Leads (R a) (f a) T) : Leads P (m >>= f) T := by
  intro w hw
  rw [ends_bind]
  exact ends_mono (h w hw) (fun a w' hr => hf a w' hr) fun _ _ _ => trivial

/-- What a program does with the state it reads. -/
theorem leads_get {f : σ → Effect ε σ α} (h : ∀ s, P s → Leads (fun s' => s' = s) (f s) R) :
    Leads P (get >>= f) R :=
  fun w hw => h w.state hw w rfl

theorem leads_liftExcept {r : Except ε α} (h : ∀ a s, r = .ok a → P s → R a s) :
    Leads P (liftExcept r) R := by
  cases r with
  | ok a => exact leads_pure fun s => h a s rfl
  | error e => exact leads_throw e

theorem leads_modify {f : σ → σ} {R : Unit → σ → Prop} (h : ∀ s, P s → R () (f s)) :
    Leads P (modify f : Effect ε σ Unit) R :=
  fun w hw => h w.state hw

theorem leads_durable {e : ε} {f : σ → σ} {R : Unit → σ → Prop} (h : ∀ s, P s → R () (f s)) :
    Leads P (durable e f) R := by
  intro w hw
  apply ends_durable
  · exact fun _ _ => h w.state hw
  · exact fun _ _ => trivial
  · exact fun _ _ => trivial

theorem leads_commit {e : ε} {f : σ → σ} {R : Unit → σ → Prop} (h : ∀ s, P s → R () (f s)) :
    Leads P (commit e f) R := by
  intro w hw
  apply ends_commit
  · exact fun _ _ => h w.state hw
  · exact fun _ _ => trivial
  · exact fun _ _ => trivial

/-- A call that reads the state and leaves it. -/
theorem leads_call {f : σ → Option (Except ε α)} (h : ∀ a s, P s → R a s) :
    Leads P (call fun s => (f s).map fun r => (r, s)) R := by
  intro w hw
  rw [ends_call]
  cases f w.state with
  | none => trivial
  | some r =>
    cases r with
    | ok a => exact h a w.state hw
    | error e => trivial

theorem leads_mapErr {f : ε → ε'} (h : Leads P m R) : Leads P (mapErr f m) R := by
  intro w hw
  rw [ends_mapErr]
  exact h w hw

theorem leads_zoom {P : τ → Prop} {R : α → τ → Prop} {read : τ → σ} {write : σ → τ → τ}
    (h : ∀ t, P t → Leads (fun s => s = read t) m fun a s => R a (write s t)) :
    Leads P (zoom read write m) R := by
  intro w hw
  rw [ends_zoom]
  exact h w.state hw ⟨read w.state, w.plan, w.commits⟩ rfl

/-- Nothing is asked of the end. -/
theorem leads_any (m : Effect ε σ α) : Leads P m fun _ _ => True :=
  fun _ _ => ends_mono (ends_of_keeps (P := fun _ => True) (fun _ _ => trivial) trivial)
    (fun _ _ h => h) fun _ _ h => h

theorem leads_of_keeps (h : Keeps P m) : Leads P m fun _ => P :=
  fun _ hw => ends_mono (ends_of_keeps h hw) (fun _ _ hp => hp) fun _ _ _ => trivial

end Leads

/-! ## Undisturbed runs -/

/-- The undisturbed run from `s` ends with a value, and it and the state are in
    `Q`. -/
def Finishes (m : Effect ε σ α) (s : σ) (Q : α → σ → Prop) : Prop :=
  ∀ c, ∃ a s' c', m ⟨s, .none, c⟩ = (.ok a, ⟨s', .none, c'⟩) ∧ Q a s'

section Rules

variable {m : Effect ε σ α} {s : σ} {Q : α → σ → Prop}

theorem finishes_pure {a : α} (h : Q a s) : Finishes (Pure.pure a : Effect ε σ α) s Q :=
  fun c => ⟨a, s, c, rfl, h⟩

theorem finishes_mono {Q' : α → σ → Prop} (h : Finishes m s Q) (hQ : ∀ a s', Q a s' → Q' a s') :
    Finishes m s Q' := by
  intro c
  obtain ⟨a, s', c', hrun, hq⟩ := h c
  exact ⟨a, s', c', hrun, hQ a s' hq⟩

theorem finishes_bind {f : α → Effect ε σ β} {R : β → σ → Prop} (Q : α → σ → Prop)
    (h : Finishes m s Q)
    (hf : ∀ a s', Q a s' → Finishes (f a) s' R) : Finishes (m >>= f) s R := by
  intro c
  obtain ⟨a, s', c', hrun, hq⟩ := h c
  obtain ⟨b, s'', c'', hrun', hr⟩ := hf a s' hq c'
  refine ⟨b, s'', c'', ?_, hr⟩
  rw [bind_apply, hrun]
  exact hrun'

/-- What a program does with the state it reads. -/
theorem finishes_get {f : σ → Effect ε σ α} (h : Finishes (f s) s Q) :
    Finishes (get >>= f) s Q := h

theorem finishes_modify {f : σ → σ} {Q : Unit → σ → Prop} (h : Q () (f s)) :
    Finishes (modify f : Effect ε σ Unit) s Q :=
  fun c => ⟨(), f s, c, rfl, h⟩

theorem finishes_durable {e : ε} {f : σ → σ} {Q : Unit → σ → Prop} (h : Q () (f s)) :
    Finishes (durable e f) s Q :=
  fun c => ⟨(), f s, c, rfl, h⟩

theorem finishes_commit {e : ε} {f : σ → σ} {Q : Unit → σ → Prop} (h : Q () (f s)) :
    Finishes (commit e f) s Q :=
  fun c => ⟨(), f s, c + 1, rfl, h⟩

theorem finishes_liftExcept {r : Except ε α} {a : α} (hr : r = .ok a) (h : Q a s) :
    Finishes (liftExcept r) s Q := by
  rw [hr]
  exact finishes_pure h

theorem finishes_call {f : σ → Option (Except ε α × σ)} {a : α} {s' : σ}
    (hf : f s = some (.ok a, s')) (h : Q a s') : Finishes (call f) s Q := by
  intro c
  refine ⟨a, s', c, ?_, h⟩
  unfold call
  dsimp only
  rw [hf]

theorem finishes_mapErr {f : ε → ε'} (h : Finishes m s Q) : Finishes (mapErr f m) s Q := by
  intro c
  obtain ⟨a, s', c', hrun, hq⟩ := h c
  refine ⟨a, s', c', ?_, hq⟩
  unfold mapErr
  rw [hrun]

theorem finishes_attempt {Q : Except ε α → σ → Prop}
    (h : Finishes m s fun a => Q (.ok a)) : Finishes (attempt m : Effect ε' σ (Except ε α)) s Q := by
  intro c
  obtain ⟨a, s', c', hrun, hq⟩ := h c
  refine ⟨.ok a, s', c', ?_, hq⟩
  unfold attempt
  rw [hrun]

theorem finishes_zoom {read : τ → σ} {write : σ → τ → τ} {t : τ} {Q : α → τ → Prop}
    (h : Finishes m (read t) fun a s' => Q a (write s' t)) : Finishes (zoom read write m) t Q := by
  intro c
  obtain ⟨a, s', c', hrun, hq⟩ := h c
  refine ⟨a, write s' t, c', ?_, hq⟩
  unfold zoom
  rw [hrun]

/-- Only an interruption keeps the run from a value. -/
theorem finishes_of_ends
    (h : ∀ c, ends m (fun a w' => w'.plan.how = none ∧ Q a w'.state) (fun _ _ => False)
      ⟨s, .none, c⟩) : Finishes m s Q := by
  intro c
  have hrun := h c
  unfold ends at hrun
  cases hm : m ⟨s, .none, c⟩ with
  | mk o w' =>
    rw [hm] at hrun
    cases o with
    | ok a =>
      obtain ⟨hplan, hq⟩ := hrun
      obtain ⟨s', plan, c'⟩ := w'
      cases plan with
      | none => exact ⟨a, s', c', rfl, hq⟩
      | stop n how => cases hplan
    | err e => exact hrun.elim
    | crashed => exact hrun.elim
    | panicked => exact hrun.elim

theorem finishes_of_traces {marks : List (Mark ε σ)} {a : α} {s' : σ}
    (h : Traces m s marks (.ok a) s') (hQ : Q a s') : Finishes m s Q := by
  intro c
  have hrun := h .none c
  cases hm : m ⟨s, .none, c⟩ with
  | mk o w' =>
    rw [hm] at hrun
    simp only [cut, Prod.mk.injEq] at hrun
    obtain ⟨rfl, rfl, hplan⟩ := hrun
    refine ⟨a, w'.state, w'.commits, ?_, hQ⟩
    rw [← hplan]

/-- What holds of every run that comes to a value holds of the undisturbed
    one. -/
theorem Finishes.leads {R : α → σ → Prop} (h : Finishes m s Q)
    (hleads : Leads (fun t => t = s) m R) : Finishes m s fun a s' => Q a s' ∧ R a s' := by
  intro c
  obtain ⟨a, s', c', hrun, hq⟩ := h c
  have hend := hleads ⟨s, .none, c⟩ rfl
  unfold ends at hend
  rw [hrun] at hend
  exact ⟨a, s', c', hrun, hq, hend⟩

/-- What the undisturbed run answers. -/
theorem Finishes.exec_ok (h : Finishes m s Q) : ∃ a s', m.exec s = some (.ok a, s') ∧ Q a s' := by
  obtain ⟨a, s', c', hrun, hq⟩ := h 0
  refine ⟨a, s', ?_, hq⟩
  unfold exec World.start
  rw [hrun]

end Rules

/-! ## Undisturbed failures -/

/-- The error of an undisturbed run that can only end with it. -/
theorem exec_error_of_ends {m : Effect ε σ α} {s t : σ} {e : ε}
    (h : ends m (fun _ _ => False) (fun r w' => r = .err e ∧ w'.state = t) (.start s .none)) :
    m.exec s = some (.error e, t) := by
  unfold ends at h
  unfold exec
  generalize m (.start s .none) = r at h ⊢
  obtain ⟨o, w'⟩ := r
  cases o with
  | ok a => exact h.elim
  | err e' =>
    obtain ⟨he, rfl⟩ := h
    cases he
    rfl
  | crashed => cases h.1
  | panicked => cases h.1

/-- The undisturbed run from `s` ends with an error, and leaves a state in
    `R`. -/
def Fails (m : Effect ε σ α) (s : σ) (R : σ → Prop) : Prop :=
  ∀ c, ∃ e s' c', m ⟨s, .none, c⟩ = (.err e, ⟨s', .none, c'⟩) ∧ R s'

section Fails

variable {m : Effect ε σ α} {s : σ} {R : σ → Prop}

theorem fails_throw {e : ε} (h : R s) : Fails (throw e : Effect ε σ α) s R :=
  fun c => ⟨e, s, c, rfl, h⟩

theorem fails_mono {R' : σ → Prop} (h : Fails m s R) (hR : ∀ s', R s' → R' s') :
    Fails m s R' := by
  intro c
  obtain ⟨e, s', c', hrun, hr⟩ := h c
  exact ⟨e, s', c', hrun, hR s' hr⟩

/-- The first program fails. -/
theorem fails_bind {f : α → Effect ε σ β} (h : Fails m s R) : Fails (m >>= f) s R := by
  intro c
  obtain ⟨e, s', c', hrun, hr⟩ := h c
  refine ⟨e, s', c', ?_, hr⟩
  rw [bind_apply, hrun]

/-- The first program comes to a value, with which the second one fails. -/
theorem fails_then {f : α → Effect ε σ β} (Q : α → σ → Prop) (h : Finishes m s Q)
    (hf : ∀ a s', Q a s' → Fails (f a) s' R) : Fails (m >>= f) s R := by
  intro c
  obtain ⟨a, s', c', hrun, hq⟩ := h c
  obtain ⟨e, s'', c'', hrun', hr⟩ := hf a s' hq c'
  refine ⟨e, s'', c'', ?_, hr⟩
  rw [bind_apply, hrun]
  exact hrun'

theorem fails_get {f : σ → Effect ε σ α} (h : Fails (f s) s R) : Fails (get >>= f) s R := h

theorem fails_mapErr {f : ε → ε'} (h : Fails m s R) : Fails (mapErr f m) s R := by
  intro c
  obtain ⟨e, s', c', hrun, hr⟩ := h c
  refine ⟨f e, s', c', ?_, hr⟩
  unfold mapErr
  rw [hrun]

theorem fails_zoom {read : τ → σ} {write : σ → τ → τ} {t : τ} {R : τ → Prop}
    (h : Fails m (read t) fun s' => R (write s' t)) : Fails (zoom read write m) t R := by
  intro c
  obtain ⟨e, s', c', hrun, hr⟩ := h c
  refine ⟨e, write s' t, c', ?_, hr⟩
  unfold zoom
  rw [hrun]

/-- What the undisturbed run answers. -/
theorem Fails.exec_error (h : Fails m s R) : ∃ e s', m.exec s = some (.error e, s') ∧ R s' := by
  obtain ⟨e, s', c', hrun, hr⟩ := h 0
  refine ⟨e, s', ?_, hr⟩
  unfold exec World.start
  rw [hrun]

end Fails

end Effect
