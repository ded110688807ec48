import EidosDB.Lib.Effect

/-! # Traces of Durable Steps

    An undisturbed run of a program comes to a list of durable steps.  The
    run with any other plan is determined by that list: it is cut at the step
    the plan names, in the state the undisturbed run has there, or the list
    is too short and it is the undisturbed run.  The rules compute the list
    along the program text. -/

namespace Effect

variable {ε ε' σ τ α β : Type}

/-- A durable step that a run comes to: the state before it, and what it
    reports if it fails. -/
structure Mark (ε σ : Type) where
  state : σ
  error : ε

namespace Mark

/-- The mark as the caller of a program on a part of the state sees it. -/
def zoom (write : σ → τ → τ) (s : τ) (mark : Mark ε σ) : Mark ε τ :=
  { state := write mark.state s, error := mark.error }

@[simp] theorem zoom_state (write : σ → τ → τ) (s : τ) (mark : Mark ε σ) :
    (mark.zoom write s).state = write mark.state s := rfl

end Mark

/-- How a step that is stopped ends the run. -/
def Stop.outcome (how : Stop) (e : ε) : Outcome ε α :=
  match how with
  | .crash => .crashed
  | .fail => .err e

/-- What is then left of the plan. -/
def Stop.left : Stop → Plan
  | .crash => .stop 0 .crash
  | .fail => .none

/-- The run that the marks and the end of the undisturbed run give for a
    plan: outcome, state and what is left of the plan. -/
def cut (marks : List (Mark ε σ)) (o : Outcome ε α) (s : σ) : Plan → Outcome ε α × σ × Plan
  | .none => (o, s, .none)
  | .stop n how =>
      match marks[n]? with
      | some mark => (how.outcome mark.error, mark.state, how.left)
      | none => (o, s, .stop (n - marks.length) how)

/-- The undisturbed run of `m` from `s` comes to `marks` and ends with `o` in
    `s'`. -/
def Traces (m : Effect ε σ α) (s : σ) (marks : List (Mark ε σ)) (o : Outcome ε α) (s' : σ) :
    Prop :=
  ∀ plan c, ((m ⟨s, plan, c⟩).1, (m ⟨s, plan, c⟩).2.state, (m ⟨s, plan, c⟩).2.plan) =
    cut marks o s' plan

/-! ## Rules -/

section Rules

variable {m : Effect ε σ α} {s s₁ s' : σ} {marks marks₁ marks₂ : List (Mark ε σ)} {a : α} {e : ε}
  {o : Outcome ε α}

theorem cut_nil (o : Outcome ε α) (s : σ) (plan : Plan) :
    cut ([] : List (Mark ε σ)) o s plan = (o, s, plan) := by
  cases plan <;> rfl

/-- A program without durable steps. -/
theorem traces_of_eq (h : ∀ plan c, m ⟨s, plan, c⟩ = (o, ⟨s', plan, c⟩)) :
    Traces m s [] o s' := by
  intro plan c
  rw [h, cut_nil]

theorem traces_pure (a : α) (s : σ) : Traces (Pure.pure a : Effect ε σ α) s [] (.ok a) s :=
  traces_of_eq fun _ _ => rfl

theorem traces_get (s : σ) : Traces (get : Effect ε σ σ) s [] (.ok s) s :=
  traces_of_eq fun _ _ => rfl

theorem traces_modify (f : σ → σ) (s : σ) :
    Traces (modify f : Effect ε σ Unit) s [] (.ok ()) (f s) :=
  traces_of_eq fun _ _ => rfl

theorem traces_throw (e : ε) (s : σ) : Traces (throw e : Effect ε σ α) s [] (.err e) s :=
  traces_of_eq fun _ _ => rfl

theorem traces_durable (e : ε) (f : σ → σ) (s : σ) :
    Traces (durable e f) s [⟨s, e⟩] (.ok ()) (f s) := by
  intro plan c
  cases plan with
  | none => rfl
  | stop n how =>
    cases n with
    | zero => cases how <;> rfl
    | succ n => rfl

theorem traces_commit (e : ε) (f : σ → σ) (s : σ) :
    Traces (commit e f) s [⟨s, e⟩] (.ok ()) (f s) := by
  intro plan c
  cases plan with
  | none => rfl
  | stop n how =>
    cases n with
    | zero => cases how <;> rfl
    | succ n => rfl

theorem traces_bind {f : α → Effect ε σ β} {o : Outcome ε β} (h : Traces m s marks₁ (.ok a) s₁)
    (hf : Traces (f a) s₁ marks₂ o s') : Traces (m >>= f) s (marks₁ ++ marks₂) o s' := by
  intro plan c
  have hm := h plan c
  rw [bind_apply]
  generalize m ⟨s, plan, c⟩ = r at hm
  obtain ⟨o₁, ⟨s₂, plan₂, c₂⟩⟩ := r
  unfold cut at hm ⊢
  cases plan with
  | none =>
    cases hm
    exact hf .none c₂
  | stop n how =>
    dsimp only at hm ⊢
    cases hmark : marks₁[n]? with
    | some mark =>
      have hlt := (List.getElem?_eq_some_iff.mp hmark).1
      rw [List.getElem?_append_left hlt, hmark]
      rw [hmark] at hm
      cases how <;> cases hm <;> rfl
    | none =>
      have hle := List.getElem?_eq_none_iff.mp hmark
      rw [List.getElem?_append_right hle]
      rw [hmark] at hm
      cases hm
      have hrest := hf (.stop (n - marks₁.length) how) c₂
      unfold cut at hrest
      rw [List.length_append, Nat.sub_add_eq]
      exact hrest

/-- A cut seen through a map of the states. -/
theorem cut_map (write : σ → τ) (marks : List (Mark ε σ)) (o : Outcome ε α) (s : σ) (plan : Plan) :
    cut (marks.map fun mark => ⟨write mark.state, mark.error⟩) o (write s) plan =
      ((cut marks o s plan).1, write (cut marks o s plan).2.1, (cut marks o s plan).2.2) := by
  cases plan with
  | none => rfl
  | stop n how =>
    unfold cut
    dsimp only
    rw [List.getElem?_map, List.length_map]
    cases marks[n]? with
    | none => rfl
    | some mark => rfl

theorem traces_zoom (read : τ → σ) (write : σ → τ → τ) (t : τ)
    (h : Traces m (read t) marks o s') :
    Traces (zoom read write m) t (marks.map (Mark.zoom write t)) o (write s' t) := by
  intro plan c
  have hcut := cut_map (fun s => write s t) marks o s' plan
  rw [← h plan c] at hcut
  exact hcut.symm

/-- What the errors of a program are called by its caller. -/
def Outcome.mapErr (f : ε → ε') : Outcome ε α → Outcome ε' α
  | .ok a => .ok a
  | .err e => .err (f e)
  | .crashed => .crashed
  | .panicked => .panicked

/-- Programs that run alike from the state have the same trace from it. -/
theorem traces_congr {m' : Effect ε σ α} (hm : ∀ w, w.state = s → m w = m' w)
    (h : Traces m' s marks o s') : Traces m s marks o s' := by
  intro plan c
  rw [hm ⟨s, plan, c⟩ rfl]
  exact h plan c

/-- What comes before the first durable step leaves no mark. -/
theorem traces_next {f : α → Effect ε σ β} {o : Outcome ε β} (h : Traces m s [] (.ok a) s₁)
    (hf : Traces (f a) s₁ marks o s') : Traces (m >>= f) s marks o s' := traces_bind h hf

/-- What follows a program that ends in an error is not run. -/
theorem traces_bind_err {f : α → Effect ε σ β} (h : Traces m s marks (.err e) s') :
    Traces (m >>= f) s marks (.err e) s' := by
  intro plan c
  have hm := h plan c
  rw [bind_apply]
  generalize m ⟨s, plan, c⟩ = r at hm
  obtain ⟨o₁, ⟨s₂, plan₂, c₂⟩⟩ := r
  unfold cut at hm ⊢
  cases plan with
  | none =>
    cases hm
    rfl
  | stop n how =>
    dsimp only at hm ⊢
    cases hmark : marks[n]? with
    | some mark =>
      rw [hmark] at hm
      cases how <;> cases hm <;> rfl
    | none =>
      rw [hmark] at hm
      cases hm
      rfl

theorem traces_withVar {m : Effect ε (σ × τ) Unit} {init v : τ} {marks : List (Mark ε (σ × τ))}
    (h : Traces m (s, init) marks (.ok ()) (s', v)) :
    Traces (withVar init m) s (marks.map fun mark => ⟨mark.state.1, mark.error⟩) (.ok v) s' := by
  intro plan c
  have hm := h plan c
  unfold withVar
  dsimp only
  generalize m ⟨(s, init), plan, c⟩ = r at hm
  obtain ⟨o₁, ⟨s₂, plan₂, c₂⟩⟩ := r
  unfold cut at hm ⊢
  cases plan with
  | none =>
    cases hm
    rfl
  | stop n how =>
    dsimp only at hm ⊢
    rw [List.getElem?_map, List.length_map]
    cases hmark : marks[n]? with
    | some mark =>
      rw [hmark] at hm
      cases how <;> cases hm <;> rfl
    | none =>
      rw [hmark] at hm
      cases hm
      rfl

end Rules

/-! ## Runs -/

section Runs

variable {m : Effect ε σ α} {s s' : σ} {marks : List (Mark ε σ)} {o : Outcome ε α}

/-- A run that is stopped at a mark. -/
theorem Traces.stopped (h : Traces m s marks o s') {n : Nat} {mark : Mark ε σ}
    (hmark : marks[n]? = some mark) (how : Stop) :
    (m (.start s (.stop n how))).1 = how.outcome mark.error ∧
      (m (.start s (.stop n how))).2.state = mark.state := by
  have hrun := h (.stop n how) 0
  unfold cut at hrun
  simp only [hmark] at hrun
  exact ⟨congrArg Prod.fst hrun, congrArg (fun r => r.2.1) hrun⟩

/-- A plan that stops after the last mark does not show. -/
theorem Traces.finished (h : Traces m s marks o s') {n : Nat} (hn : marks.length ≤ n)
    (how : Stop) : (m (.start s (.stop n how))).1 = o ∧
      (m (.start s (.stop n how))).2.state = s' := by
  have hrun := h (.stop n how) 0
  unfold cut at hrun
  simp only [List.getElem?_eq_none_iff.mpr hn] at hrun
  exact ⟨congrArg Prod.fst hrun, congrArg (fun r => r.2.1) hrun⟩

/-- The state a run leaves, wherever it is stopped. -/
theorem Traces.state_stop (h : Traces m s marks o s') (n : Nat) (how : Stop) :
    (m (.start s (.stop n how))).2.state = (marks[n]?).elim s' Mark.state := by
  cases hmark : marks[n]? with
  | some mark => exact (h.stopped hmark how).2
  | none => exact (h.finished (List.getElem?_eq_none_iff.mp hmark) how).2

/-- A program that goes on after a trace, stopped inside it. -/
theorem Traces.bind_stopped {a : α} (h : Traces m s marks (.ok a) s') (f : α → Effect ε σ β)
    {n : Nat} {mark : Mark ε σ} (hmark : marks[n]? = some mark) (how : Stop) :
    ((m >>= f) (.start s (.stop n how))).1 = how.outcome mark.error ∧
      ((m >>= f) (.start s (.stop n how))).2.state = mark.state := by
  obtain ⟨hend, hstate⟩ := h.stopped hmark how
  rw [bind_apply]
  generalize m (.start s (.stop n how)) = r at hend hstate
  obtain ⟨o, w⟩ := r
  cases how <;> cases hend <;> exact ⟨rfl, hstate⟩

/-- A program that goes on after a trace, stopped behind it. -/
theorem Traces.bind_past {a : α} (h : Traces m s marks (.ok a) s') (f : α → Effect ε σ β)
    {n : Nat} (hn : marks.length ≤ n) (how : Stop) :
    ∃ w, w.state = s' ∧ w.plan = .stop (n - marks.length) how ∧
      (m >>= f) (.start s (.stop n how)) = f a w := by
  have hrun := h (.stop n how) 0
  unfold cut at hrun
  simp only [List.getElem?_eq_none_iff.mpr hn, Prod.mk.injEq] at hrun
  obtain ⟨hend, hstate, hplan⟩ := hrun
  refine ⟨(m (.start s (.stop n how))).2, hstate, hplan, ?_⟩
  rw [bind_apply]
  change (m (.start s (.stop n how))).1 = _ at hend
  generalize m (.start s (.stop n how)) = r at hend
  obtain ⟨o, w⟩ := r
  cases hend
  rfl

theorem Traces.undisturbed (h : Traces m s marks o s') :
    (m (.start s .none)).1 = o ∧ (m (.start s .none)).2.state = s' := by
  have hrun := h .none 0
  exact ⟨congrArg Prod.fst hrun, congrArg (fun r => r.2.1) hrun⟩

/-- A program that goes on after a trace and fails: the failure is at a mark, or
    behind the trace. -/
theorem Traces.bind_failed {a : α} (h : Traces m s marks (.ok a) s') {f : α → Effect ε σ β}
    {plan : Plan} {e : ε} {w : World σ} (hrun : (m >>= f) (.start s plan) = (.err e, w)) :
    (∃ n mark, plan = .stop n .fail ∧ marks[n]? = some mark ∧ w.state = mark.state) ∨
      ∃ w₁, w₁.state = s' ∧ f a w₁ = (.err e, w) := by
  cases plan with
  | none =>
    obtain ⟨hend, hstate⟩ := h.undisturbed
    rw [bind_apply] at hrun
    generalize m (.start s .none) = r at hend hstate hrun
    obtain ⟨o, w₁⟩ := r
    cases hend
    exact Or.inr ⟨w₁, hstate, hrun⟩
  | stop n how =>
    cases hmark : marks[n]? with
    | none =>
      obtain ⟨w₁, hw₁, -, hbind⟩ := h.bind_past f (List.getElem?_eq_none_iff.mp hmark) how
      exact Or.inr ⟨w₁, hw₁, hbind.symm.trans hrun⟩
    | some mark =>
      obtain ⟨hend, hstate⟩ := h.bind_stopped f hmark how
      rw [hrun] at hend hstate
      -- a run that crashed reports no error
      cases how with
      | fail => exact Or.inl ⟨n, mark, rfl, hmark, hstate⟩
      | crash => cases hend

theorem Traces.exec_ok {a : α} (h : Traces m s marks (.ok a) s') :
    m.exec s = some (.ok a, s') := by
  obtain ⟨hrun, hstate⟩ := h.undisturbed
  unfold exec
  rw [← hstate]
  generalize m (.start s .none) = r at hrun
  obtain ⟨o, w⟩ := r
  cases hrun
  rfl

theorem Traces.exec_err {e : ε} (h : Traces m s marks (.err e) s') :
    m.exec s = some (.error e, s') := by
  obtain ⟨hrun, hstate⟩ := h.undisturbed
  unfold exec
  rw [← hstate]
  generalize m (.start s .none) = r at hrun
  obtain ⟨o, w⟩ := r
  cases hrun
  rfl

/-- A run crashes exactly at its marks. -/
theorem Traces.crashed_iff (h : Traces m s marks o s') (ho : o ≠ .crashed) (n : Nat) :
    (m (.start s (.stop n .crash))).1 = .crashed ↔ n < marks.length := by
  constructor
  · intro hcrash
    by_contra hle
    rw [(h.finished (not_lt.mp hle) .crash).1] at hcrash
    exact ho hcrash
  · intro hlt
    exact (h.stopped (List.getElem?_eq_getElem hlt) .crash).1

/-- A program whose marks and end are always in `P` keeps `P`. -/
theorem keeps_of_traces {P : σ → Prop} (h : ∀ s, P s → ∃ marks o s', Traces m s marks o s' ∧
    (∀ mark ∈ marks, P mark.state) ∧ P s') : Keeps P m := by
  intro w hw
  obtain ⟨s, plan, c⟩ := w
  obtain ⟨marks, o, s', htrace, hmarks, hlast⟩ := h s hw
  have hstate := congrArg (fun r => r.2.1) (htrace plan c)
  dsimp only at hstate
  rw [hstate]
  cases plan with
  | none => exact hlast
  | stop n how =>
    unfold cut
    dsimp only
    cases hmark : marks[n]? with
    | none => exact hlast
    | some mark => exact hmarks mark (List.mem_of_getElem? hmark)

/-- A run that has used up its plan was stopped by an error, at its mark. -/
theorem Traces.spent (h : Traces m s marks o s') {n : Nat} {how : Stop}
    (hplan : (m (.start s (.stop n how))).2.plan = .none) :
    ∃ mark, marks[n]? = some mark ∧ (m (.start s (.stop n how))).2.state = mark.state := by
  have hrun := h (.stop n how) 0
  unfold cut at hrun
  cases hmark : marks[n]? with
  | some mark => exact ⟨mark, rfl, (h.stopped hmark how).2⟩
  | none =>
    dsimp only at hrun
    rw [hmark] at hrun
    have hleft := congrArg (fun r => r.2.2) hrun
    dsimp only at hleft
    rw [show (m ⟨s, .stop n how, 0⟩).2.plan = .none from hplan] at hleft
    cases hleft

/-- A run that ends with a value was not stopped. -/
theorem Traces.ok_inv (h : Traces m s marks o s') {plan : Plan} {a : α} {w : World σ}
    (hrun : m (.start s plan) = (.ok a, w)) : o = .ok a ∧ w.state = s' := by
  cases plan with
  | none =>
    have hend := h.undisturbed
    rw [hrun] at hend
    exact ⟨hend.1.symm, hend.2⟩
  | stop n how =>
    cases hmark : marks[n]? with
    | some mark =>
      have hend := (h.stopped hmark how).1
      rw [hrun] at hend
      cases how <;> simp [Stop.outcome] at hend
    | none =>
      have hend := h.finished (List.getElem?_eq_none_iff.mp hmark) how
      rw [hrun] at hend
      exact ⟨hend.1.symm, hend.2⟩

/-- A run that ends with a value ends as its trace does. -/
theorem Traces.ends (h : Traces m s marks o s') {w : World σ} (hw : w.state = s) :
    Effect.ends m (fun a w' => o = .ok a ∧ w'.state = s') (fun _ _ => True) w := by
  obtain ⟨_, plan, c⟩ := w
  obtain rfl := hw
  have hrun := h plan c
  unfold Effect.ends
  cases hm : m ⟨_, plan, c⟩ with
  | mk outcome w' =>
    rw [hm] at hrun
    cases outcome with
    | ok a =>
      -- a run that was stopped has no value
      cases plan with
      | none =>
        simp only [cut, Prod.mk.injEq] at hrun
        exact ⟨hrun.1.symm, hrun.2.1⟩
      | stop n how =>
        cases hmark : marks[n]? with
        | some mark =>
          simp only [cut, hmark, Prod.mk.injEq] at hrun
          cases how <;> exact absurd hrun.1 (by simp [Stop.outcome])
        | none =>
          simp only [cut, hmark, Prod.mk.injEq] at hrun
          exact ⟨hrun.1.symm, hrun.2.1⟩
    | err e => trivial
    | crashed => trivial
    | panicked => trivial

end Runs

end Effect
