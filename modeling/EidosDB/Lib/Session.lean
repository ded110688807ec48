import EidosDB.Lib.Effect

/-! # Sessions

    A process opens a file, keeps a handle on it with what it has read there,
    and makes calls that change both.  The handle is gone when the process
    crashes or panics, and the file is what is left of the two.

    An invariant of files, and one of files with a handle on them, that
    opening and every call respect hold after every run (`run_holds`). -/

namespace Effect

universe u

variable {ε δ η τ : Type} {κ : Type u}

/-- A file, and the handle of the process that has it open. -/
structure Session (δ η : Type) where
  file : δ
  handle : Option η

/-- What happens to a file.  Each event has a plan of its own. -/
inductive Access (κ : Type u) where
  | open (plan : Plan)
  | call (op : κ) (plan : Plan)
  /-- The handle is dropped. -/
  | close

/-- How a file is opened, and the calls on an open file. -/
structure Program (ε δ η : Type) (κ : Type u) where
  openFile : Effect ε δ η
  call : κ → Effect ε (δ × η) Unit

namespace Program

variable (P : Program ε δ η κ)

/-! ## Runs -/

/-- The file is opened; a handle there was is dropped before. -/
def openEvent (file : δ) (plan : Plan) : Outcome ε Unit × Session δ η :=
  match P.openFile (.start file plan) with
  | (.ok h, w) => (.ok (), ⟨w.state, some h⟩)
  | (.err e, w) => (.err e, ⟨w.state, none⟩)
  | (.crashed, w) => (.crashed, ⟨w.state, none⟩)
  | (.panicked, w) => (.panicked, ⟨w.state, none⟩)

/-- A call on a file and the handle on it; an error leaves the handle in use. -/
def callEvent (file : δ) (h : η) (op : κ) (plan : Plan) : Outcome ε Unit × Session δ η :=
  match P.call op (.start (file, h) plan) with
  | (.ok (), w) => (.ok (), ⟨w.state.1, some w.state.2⟩)
  | (.err e, w) => (.err e, ⟨w.state.1, some w.state.2⟩)
  | (.crashed, w) => (.crashed, ⟨w.state.1, none⟩)
  | (.panicked, w) => (.panicked, ⟨w.state.1, none⟩)

/-- One event, with its outcome; there is no call without a handle. -/
def step (s : Session δ η) : Access κ → Option (Outcome ε Unit) × Session δ η
  | .open plan => ((P.openEvent s.file plan).1, (P.openEvent s.file plan).2)
  | .call op plan =>
    match s.handle with
    | none => (none, s)
    | some h => ((P.callEvent s.file h op plan).1, (P.callEvent s.file h op plan).2)
  | .close => (none, { s with handle := none })

def run (s : Session δ η) (events : List (Access κ)) : Session δ η :=
  events.foldl (fun s event => (P.step s event).2) s

/-! ## Invariants -/

/-- What opening and the calls respect: `I` of a file, and `C` of a file with
    a handle on it.  A call that halts without a panic changes nothing. -/
structure Respects (I : δ → Prop) (C : δ → η → Prop) : Prop where
  drops : ∀ {file h}, C file h → I file
  opens : ∀ {file} plan, I file →
    ends P.openFile (fun h w => C w.state h) (fun _ w => I w.state) (.start file plan)
  calls : ∀ {file h} op plan, C file h →
    ends (P.call op) (fun _ w => C w.state.1 w.state.2)
      (fun r w => (r ≠ .panicked → w.state = (file, h)) ∧ I w.state.1) (.start (file, h) plan)

/-- The invariants hold of a session. -/
def Holds (I : δ → Prop) (C : δ → η → Prop) (s : Session δ η) : Prop :=
  match s.handle with
  | none => I s.file
  | some h => C s.file h

variable {P} {I : δ → Prop} {C : δ → η → Prop} {s : Session δ η}

theorem Respects.holds_openEvent (hP : P.Respects I C) {file : δ} (h : I file) (plan : Plan) :
    Holds I C (P.openEvent file plan).2 := by
  have hopens := hP.opens plan h
  unfold ends at hopens
  unfold openEvent
  cases hrun : P.openFile (.start file plan) with
  | mk o w =>
    rw [hrun] at hopens
    cases o with
    | ok a => exact hopens
    | err e => exact hopens
    | crashed => exact hopens
    | panicked => exact hopens

theorem Respects.holds_callEvent (hP : P.Respects I C) {file : δ} {h : η} (hheld : C file h)
    (op : κ) (plan : Plan) : Holds I C (P.callEvent file h op plan).2 ∧
      ∀ e, (P.callEvent file h op plan).1 = .err e →
        (P.callEvent file h op plan).2 = ⟨file, some h⟩ := by
  have hcalls := hP.calls op plan hheld
  unfold ends at hcalls
  unfold callEvent
  cases hrun : P.call op (.start (file, h) plan) with
  | mk o w =>
    rw [hrun] at hcalls
    cases o with
    | ok a => exact ⟨hcalls, fun _ he => nomatch he⟩
    | err e =>
      -- the handle goes on being used, on the file it was on
      have hstate : w.state = (file, h) := hcalls.1 nofun
      dsimp only
      rw [hstate]
      exact ⟨hheld, fun _ _ => rfl⟩
    | crashed => exact ⟨hcalls.2, fun _ he => nomatch he⟩
    | panicked => exact ⟨hcalls.2, fun _ he => nomatch he⟩

theorem Respects.holds_file (hP : P.Respects I C) (h : Holds I C s) : I s.file := by
  obtain ⟨file, handle⟩ := s
  cases handle with
  | none => exact h
  | some _ => exact hP.drops h

theorem Respects.holds_step (hP : P.Respects I C) (h : Holds I C s) (event : Access κ) :
    Holds I C (P.step s event).2 := by
  cases event with
  | «open» plan => exact hP.holds_openEvent (hP.holds_file h) plan
  | call op plan =>
    obtain ⟨file, handle⟩ := s
    cases handle with
    | none => exact h
    | some handle => exact (hP.holds_callEvent h op plan).1
  | close =>
    show I s.file
    exact hP.holds_file h

/-- The invariants hold after every run. -/
theorem Respects.run_holds (hP : P.Respects I C) (h : Holds I C s) (events : List (Access κ)) :
    Holds I C (P.run s events) := by
  induction events generalizing s with
  | nil => exact h
  | cons event rest ih => exact ih (hP.holds_step h event)

/-- A call that cannot panic. -/
theorem callEvent_ne_panicked {file : δ} {h : η} {op : κ} {plan : Plan}
    (hends : ends (P.call op) (fun _ _ => True) (fun r _ => r ≠ .panicked)
      (.start (file, h) plan)) : (P.callEvent file h op plan).1 ≠ .panicked := by
  unfold ends at hends
  unfold callEvent
  cases hrun : P.call op (.start (file, h) plan) with
  | mk o w =>
    rw [hrun] at hends
    cases o with
    | ok a => exact nofun
    | err e => exact nofun
    | crashed => exact nofun
    | panicked => exact absurd rfl hends

/-! ## Handles that only repeat the file -/

/-- The handle is the one that opening the file would give, and what fails
    leaves the contents of the file, which `contents` reads. -/
structure NeverDrifts (P : Program ε δ η κ) (contents : δ → τ) (s : Session δ η) : Prop where
  handle : ∀ h, s.handle = some h → P.openFile.exec s.file = some (.ok h, s.file)
  failed_call : ∀ op plan e, (P.step s (.call op plan)).1 = some (.err e) →
    (P.step s (.call op plan)).2 = s
  failed_open : ∀ plan e, (P.step s (.open plan)).1 = some (.err e) →
    contents (P.step s (.open plan)).2.file = contents s.file

/-- An opening that fails leaves of the file what its postcondition says. -/
theorem openEvent_failed {file : δ} {plan : Plan} {Q : δ → Prop} {e : ε}
    (h : ends P.openFile (fun _ _ => True) (fun _ w => Q w.state) (.start file plan))
    (hfailed : (P.openEvent file plan).1 = .err e) : Q (P.openEvent file plan).2.file := by
  unfold ends at h
  unfold openEvent at hfailed ⊢
  cases hrun : P.openFile (.start file plan) with
  | mk o w =>
    rw [hrun] at h hfailed
    cases o with
    | ok a => cases hfailed
    | err e' => exact h
    | crashed => cases hfailed
    | panicked => cases hfailed

theorem Respects.neverDrifts (hP : P.Respects I C) {contents : δ → τ} (hs : Holds I C s)
    (hcounted : ∀ {file h}, C file h → P.openFile.exec file = some (.ok h, file))
    (hopens : ∀ {file} plan, I file → ends P.openFile (fun _ _ => True)
      (fun _ w => contents w.state = contents file) (.start file plan)) :
    P.NeverDrifts contents s := by
  refine ⟨?_, ?_, ?_⟩
  · intro h hh
    obtain ⟨file, handle⟩ := s
    cases hh
    exact hcounted hs
  · intro op plan e hfailed
    obtain ⟨file, handle⟩ := s
    cases handle with
    | none => rfl
    | some h => exact (hP.holds_callEvent hs op plan).2 e (Option.some.inj hfailed)
  · intro plan e hfailed
    exact openEvent_failed (Q := fun file => contents file = contents s.file)
      (hopens plan (hP.holds_file hs)) (Option.some.inj hfailed)

end Program

end Effect
