import EidosDB.Lib.OrderedTable
import Mathlib.Data.List.Perm.Basic
import Mathlib.Logic.Function.Basic

/-! # Objects behind a Shared Map

    Callers look objects up in a map and work on what they have found.  An
    object has a lock of its own, so that the parts of the jobs on it are
    atomic; the lookup is atomic too, but nothing holds the map and the object
    together.  A name may be taken away, or get another object, between the
    lookup and the parts that follow: the job then goes on with an object that
    is no longer in the map.

    Still, all parts and all changes of the map can be put into one order in
    which each sees what a single caller would have seen.  The parts on an
    object that has left the map are put before the change that made it
    leave. -/

namespace SharedObjects

universe u

variable {K T A σ : Type} {J : Type u}

/-! ## The system -/

/-- What may happen next. -/
inductive Action (K T : Type) (J : Type u) (σ : Type) where
  /-- The caller looks the name up. -/
  | call (caller : T) (name : K) (job : J)
  /-- The caller does the next part of its job. -/
  | proceed (caller : T)
  | put (name : K) (object : σ)
  | take (name : K)

/-- A job on the object that was found under the name at `start`. -/
structure Running (K : Type) (J : Type u) where
  name : K
  id : Nat
  job : J
  start : Nat

/-- The map from names to objects, the objects, in the map or not, and the jobs
    under way. -/
structure State (K T : Type) (J : Type u) (σ : Type) [LinearOrder K] where
  ids : OrderedTable K Nat
  objects : OrderedTable Nat σ
  fresh : Nat
  running : T → Option (Running K J)

/-- What happened to a name. -/
inductive What (T : Type) (J : Type u) (A σ : Type) where
  | missing (caller : T) (job : J)
  | part (caller : T) (id : Nat) (job : J) (answer : A)
  | put (object : σ)
  | taken (existed : Bool)

/-- A line of the log.  A part belongs to a call that began at `start`. -/
structure Entry (K T : Type) (J : Type u) (A σ : Type) where
  name : K
  start : Nat
  time : Nat
  what : What T J A σ

/-- A part of a job on the object. -/
def Entry.on (id : Nat) (e : Entry K T J A σ) : Bool :=
  match e.what with
  | .part _ other _ _ => other == id
  | _ => false

variable [LinearOrder K]

namespace State

def empty : State K T J σ :=
  { ids := .empty, objects := .empty, fresh := 0, running := fun _ => none }

/-- What is found under a name. -/
def table (s : State K T J σ) (name : K) : Option σ := (s.ids.get name).bind s.objects.get

def isLive (s : State K T J σ) (id : Nat) : Bool := s.ids.entries.any fun e => e.2 == id

/-- The object was in the map and is not any more. -/
def isOrphan (s : State K T J σ) (id : Nat) : Bool := decide (id < s.fresh) && !s.isLive id

end State

/-- Any line but a part on an orphan. -/
def Entry.counts (s : State K T J σ) (e : Entry K T J A σ) : Bool :=
  match e.what with
  | .part _ id _ _ => !s.isOrphan id
  | _ => true

variable (part : J → σ → A × Option J × σ)

/-! ## One caller -/

/-- What a line of the log says of a map that a single caller has. -/
def Answers (e : Entry K T J A σ) (t t' : K → Option σ) : Prop :=
  match e.what with
  | .missing _ _ => t e.name = none ∧ t' = t
  | .part _ _ job answer => ∃ object, t e.name = some object ∧ (part job object).1 = answer ∧
      t' = Function.update t e.name (some (part job object).2.2)
  | .put object => t' = Function.update t e.name (some object)
  | .taken existed => existed = (t e.name).isSome ∧ t' = Function.update t e.name none

/-- The lines one after the other. -/
def Sequential : List (Entry K T J A σ) → (K → Option σ) → (K → Option σ) → Prop
  | [], t, t' => t' = t
  | e :: rest, t, t' => ∃ t₁, Answers part e t t₁ ∧ Sequential rest t₁ t'

variable {part}

theorem sequential_append {l l' : List (Entry K T J A σ)} {t t₁ t' : K → Option σ}
    (h : Sequential part l t t₁) (h' : Sequential part l' t₁ t') :
    Sequential part (l ++ l') t t' := by
  induction l generalizing t with
  | nil =>
    obtain rfl : t₁ = t := h
    exact h'
  | cons e rest ih =>
    obtain ⟨t₂, hanswers, hrest⟩ := h
    exact ⟨t₂, hanswers, ih hrest⟩

/-! ## The invariant -/

/-- Every object is under one name at most, and jobs know the names of theirs. -/
structure WellFormed (now : Nat) (s : State K T J σ) : Prop where
  injective : ∀ name name' id, s.ids.get name = some id → s.ids.get name' = some id → name = name'
  stored : ∀ name id, s.ids.get name = some id → id < s.fresh ∧ (s.objects.get id).isSome = true
  begun : ∀ caller r, s.running caller = some r → r.id < s.fresh ∧
    (s.objects.get r.id).isSome = true ∧ r.start ≤ now ∧
    ∀ name, s.ids.get name = some r.id → name = r.name

section wellFormed

variable {now : Nat} {s : State K T J σ}

theorem isLive_iff {id : Nat} : s.isLive id = true ↔ ∃ name, s.ids.get name = some id := by
  unfold State.isLive
  rw [List.any_eq_true]
  constructor
  · rintro ⟨⟨name, id'⟩, hmem, heq⟩
    obtain rfl : id' = id := by simpa using heq
    exact ⟨name, (OrderedTable.mem_entries_iff _ _ _).mp hmem⟩
  · rintro ⟨name, hget⟩
    exact ⟨(name, id), (OrderedTable.mem_entries_iff _ _ _).mpr hget, by simp⟩

theorem isOrphan_iff {id : Nat} :
    s.isOrphan id = true ↔ id < s.fresh ∧ ∀ name, s.ids.get name ≠ some id := by
  unfold State.isOrphan
  rw [Bool.and_eq_true, decide_eq_true_eq, Bool.not_eq_true', ← Bool.not_eq_true, isLive_iff]
  simp only [not_exists]

theorem wellFormed_empty : WellFormed 0 (State.empty : State K T J σ) where
  injective _ _ _ h := nomatch h
  stored _ _ h := nomatch h
  begun _ _ h := nomatch h

/-- The objects that are there stay there. -/
theorem isSome_insert {objects : OrderedTable Nat σ} {id id' : Nat} {object : σ}
    (h : (objects.get id).isSome = true) : ((objects.insert id' object).get id).isSome = true := by
  rw [OrderedTable.get_insert]
  split
  · rfl
  · exact h

theorem WellFormed.mono {now' : Nat} (h : WellFormed now s) (hle : now ≤ now') :
    WellFormed now' s where
  injective := h.injective
  stored := h.stored
  begun caller r hr := by
    obtain ⟨hid, hsome, hstart, hname⟩ := h.begun caller r hr
    exact ⟨hid, hsome, hstart.trans hle, hname⟩

section

variable {name : K} {object : σ}

/-- A part on an object in the map changes what is found under its name. -/
theorem table_insert_of_get (h : WellFormed now s) {id : Nat} (hget : s.ids.get name = some id)
    (running : T → Option (Running K J)) :
    ({ s with objects := s.objects.insert id object, running } : State K T J σ).table =
      Function.update s.table name (some object) := by
  funext name'
  show (s.ids.get name').bind (s.objects.insert id object).get = _
  by_cases heq : name' = name
  · subst heq
    rw [Function.update_self, hget]
    exact OrderedTable.get_insert_self _ _ _
  · rw [Function.update_of_ne heq]
    show _ = (s.ids.get name').bind s.objects.get
    cases hget' : s.ids.get name' with
    | none => rfl
    | some id' =>
      have hne : id' ≠ id := by
        rintro rfl
        exact heq (h.injective _ _ _ hget' hget)
      show (s.objects.insert id object).get id' = s.objects.get id'
      exact OrderedTable.get_insert_ne _ _ hne

/-- One on an orphan changes nothing that can be found. -/
theorem table_insert_of_orphan {id : Nat} (horphan : s.isOrphan id = true)
    (running : T → Option (Running K J)) :
    ({ s with objects := s.objects.insert id object, running } : State K T J σ).table =
      s.table := by
  funext name'
  show (s.ids.get name').bind (s.objects.insert id object).get =
    (s.ids.get name').bind s.objects.get
  cases hget : s.ids.get name' with
  | none => rfl
  | some id' =>
    have hne : id' ≠ id := by
      rintro rfl
      exact (isOrphan_iff.mp horphan).2 name' hget
    show (s.objects.insert id object).get id' = s.objects.get id'
    exact OrderedTable.get_insert_ne _ _ hne

/-- A state in which one name has lost its object, which is an orphan now. -/
theorem isOrphan_displaced (h : WellFormed now s) {s₁ : State K T J σ}
    (hfresh : s.fresh ≤ s₁.fresh)
    (hnew : ∀ other, s.fresh ≤ other → other < s₁.fresh → ∃ name', s₁.ids.get name' = some other)
    (hids : ∀ name' other, other < s.fresh →
      (s₁.ids.get name' = some other ↔ name' ≠ name ∧ s.ids.get name' = some other))
    (other : Nat) :
    s₁.isOrphan other = (s.isOrphan other || decide (s.ids.get name = some other)) := by
  rw [Bool.eq_iff_iff, Bool.or_eq_true, isOrphan_iff, isOrphan_iff, decide_eq_true_eq]
  constructor
  · rintro ⟨hlt, hnot⟩
    have hold : other < s.fresh := by
      by_contra hge
      obtain ⟨name', hget⟩ := hnew other (Nat.not_lt.mp hge) hlt
      exact hnot name' hget
    by_cases hget : s.ids.get name = some other
    · exact Or.inr hget
    · refine Or.inl ⟨hold, fun name' hget' => ?_⟩
      have hne : name' ≠ name := fun heq => hget (heq ▸ hget')
      exact hnot name' ((hids name' other hold).mpr ⟨hne, hget'⟩)
  · rintro (⟨hlt, hnot⟩ | hget)
    · exact ⟨hlt.trans_le hfresh, fun name' hget' => hnot name' ((hids _ _ hlt).mp hget').2⟩
    · -- it was under this name, so under no other
      have hlt := (h.stored name other hget).1
      refine ⟨hlt.trans_le hfresh, fun name' hget' => ?_⟩
      obtain ⟨hne, hold⟩ := (hids name' other hlt).mp hget'
      exact hne (h.injective _ _ _ hold hget)

end

end wellFormed

/-! ## The order -/

variable (part) in
/-- The log of what follows a state, put into one order.  Parts on orphans are
    left out: they belong before the state.  A line comes before another only
    if its call had begun when the other was done. -/
structure Linearizes (s : State K T J σ)
    (log : List (Entry K T J A σ)) (t' : K → Option σ) (order : List (Entry K T J A σ)) : Prop where
  perm : order.Perm (log.filter (·.counts s))
  sequential : Sequential part order s.table t'
  realTime : order.Pairwise fun e e' => e.start ≤ e'.time
  inOrder : ∀ id, s.isOrphan id = false → order.filter (·.on id) = log.filter (·.on id)

section linearizes

variable {s s₁ : State K T J σ} {log order : List (Entry K T J A σ)} {t' : K → Option σ}

theorem linearizes_nil (s : State K T J σ) : Linearizes part s [] s.table [] where
  perm := List.Perm.nil
  sequential := rfl
  realTime := List.Pairwise.nil
  inOrder _ _ := rfl

theorem counts_congr (horphan : ∀ id, s₁.isOrphan id = s.isOrphan id)
    (e : Entry K T J A σ) : e.counts s₁ = e.counts s := by
  unfold Entry.counts
  split
  · rw [horphan]
  · rfl

theorem counts_of_on {id : Nat} (hlive : s.isOrphan id = false) {e : Entry K T J A σ}
    (hon : e.on id = true) : e.counts s = true := by
  unfold Entry.on at hon
  unfold Entry.counts
  split at hon
  · next other _ _ _ =>
    obtain rfl : other = id := by simpa using hon
    simp [hlive]
  · cases hon

theorem not_counts_of_on {id : Nat} (horphan : s.isOrphan id = true) {e : Entry K T J A σ}
    (hon : e.on id = true) : e.counts s = false := by
  unfold Entry.on at hon
  unfold Entry.counts
  split at hon
  · next other _ _ _ =>
    obtain rfl : other = id := by simpa using hon
    simp [horphan]
  · cases hon

/-- A step that is not seen. -/
theorem Linearizes.skip (h : Linearizes part s₁ log t' order) (htable : s₁.table = s.table)
    (horphan : ∀ id, s₁.isOrphan id = s.isOrphan id) : Linearizes part s log t' order where
  perm := by
    rw [← List.filter_congr fun e _ => counts_congr horphan e]
    exact h.perm
  sequential := htable ▸ h.sequential
  realTime := h.realTime
  inOrder id hid := h.inOrder id ((horphan id).trans hid)

/-- A part on an orphan. -/
theorem Linearizes.skip_part {e : Entry K T J A σ} (h : Linearizes part s log t' order)
    (hnot : e.counts s = false) : Linearizes part s (e :: log) t' order where
  perm := by
    rw [List.filter_cons_of_neg (by simp [hnot])]
    exact h.perm
  sequential := h.sequential
  realTime := h.realTime
  inOrder id hid := by
    have hother : e.on id = false := by
      by_contra hon
      rw [Bool.not_eq_false] at hon
      rw [counts_of_on hid hon] at hnot
      cases hnot
    rw [List.filter_cons_of_neg (by simp [hother])]
    exact h.inOrder id hid

/-- A line that sees the state it is in. -/
theorem Linearizes.cons {e : Entry K T J A σ} (h : Linearizes part s₁ log t' order)
    (horphan : ∀ id, s₁.isOrphan id = s.isOrphan id) (hcounts : e.counts s = true)
    (hanswers : Answers part e s.table s₁.table) (htime : ∀ e' ∈ log, e.start ≤ e'.time) :
    Linearizes part s (e :: log) t' (e :: order) where
  perm := by
    rw [List.filter_cons_of_pos hcounts,
      ← List.filter_congr fun e' _ => counts_congr horphan e']
    exact h.perm.cons e
  sequential := ⟨s₁.table, hanswers, h.sequential⟩
  realTime := by
    refine List.Pairwise.cons (fun e' he' => ?_) h.realTime
    exact htime e' (List.mem_of_mem_filter (h.perm.mem_iff.mp he'))
  inOrder id hid := by
    rw [List.filter_cons, List.filter_cons, h.inOrder id ((horphan id).trans hid)]

/-- A change of the map after which an object is an orphan.  The parts that
    are still done on it come before the change. -/
theorem Linearizes.displace {e : Entry K T J A σ} {id : Nat} {t₁ : K → Option σ} {now : Nat}
    (h : Linearizes part s₁ log t' order)
    (horphan : ∀ other, s₁.isOrphan other = (s.isOrphan other || decide (other = id)))
    (hlive : s.isOrphan id = false) (hcounts : ∀ s : State K T J σ, e.counts s = true)
    (hon : ∀ other, e.on other = false)
    (hparts : Sequential part (log.filter (·.on id)) s.table t₁)
    (hanswers : Answers part e t₁ s₁.table) (hstart : e.start ≤ now) (htime : e.time = now)
    (hlater : ∀ e' ∈ log, now ≤ e'.time)
    (hbefore : ∀ e' ∈ log, e'.on id = true → e'.start ≤ now) :
    Linearizes part s (e :: log) t' (log.filter (·.on id) ++ e :: order) := by
  have horphan₁ : s₁.isOrphan id = true := by rw [horphan]; simp
  have hmem : ∀ e' ∈ order, e' ∈ log ∧ e'.counts s₁ = true :=
    fun e' he' => List.mem_filter.mp (h.perm.mem_iff.mp he')
  refine ⟨?_, ?_, ?_, ?_⟩
  · -- a line counts before the change if it counts after it or is on the object
    rw [List.filter_cons_of_pos (hcounts s)]
    refine List.perm_middle.trans (List.Perm.cons e ?_)
    have hon' : (log.filter (·.counts s)).filter (·.on id) = log.filter (·.on id) := by
      rw [List.filter_filter]
      refine List.filter_congr fun e' _ => ?_
      by_cases hc : e'.on id = true
      · rw [hc, counts_of_on hlive hc]
        rfl
      · rw [Bool.not_eq_true] at hc
        rw [hc]
        rfl
    have hoff : (log.filter (·.counts s)).filter (fun e' => !e'.on id) =
        log.filter (·.counts s₁) := by
      rw [List.filter_filter]
      refine List.filter_congr fun e' _ => ?_
      unfold Entry.on Entry.counts
      split
      · next _ found _ _ _ =>
        rw [horphan found]
        by_cases heq : found = id <;> simp [heq]
      · rfl
    rw [← hon']
    exact (List.Perm.append_left _ (hoff ▸ h.perm)).trans (List.filter_append_perm _ _)
  · exact sequential_append hparts ⟨s₁.table, hanswers, h.sequential⟩
  · -- their calls had begun when the change was made, and all of the log is later
    refine List.pairwise_append.mpr ⟨?_, ?_, ?_⟩
    · refine List.pairwise_of_forall_mem_list fun x hx y hy => ?_
      obtain ⟨hx, hon⟩ := List.mem_filter.mp hx
      exact (hbefore x hx hon).trans (hlater y (List.mem_of_mem_filter hy))
    · refine List.Pairwise.cons (fun e' he' => ?_) h.realTime
      exact hstart.trans (hlater e' (hmem e' he').1)
    · intro x hx y hy
      obtain ⟨hx, hon⟩ := List.mem_filter.mp hx
      have hx' := hbefore x hx hon
      rcases List.mem_cons.mp hy with rfl | hy
      · rw [htime]
        exact hx'
      · exact hx'.trans (hlater y (hmem y hy).1)
  · intro other hother
    rw [List.filter_append, List.filter_cons_of_neg (by simp [hon other]),
      List.filter_cons_of_neg (by simp [hon other])]
    by_cases heq : other = id
    · subst heq
      have hnone : order.filter (·.on other) = [] := by
        rw [List.filter_eq_nil_iff]
        intro e' he' hon'
        have hcounts' := (hmem e' he').2
        rw [not_counts_of_on horphan₁ hon'] at hcounts'
        cases hcounts'
      rw [hnone, List.append_nil, List.filter_filter]
      exact List.filter_congr fun e' _ => Bool.and_self _
    · have hnone : (log.filter (·.on id)).filter (·.on other) = [] := by
        rw [List.filter_filter, List.filter_eq_nil_iff]
        intro e' _ hboth
        obtain ⟨h₁, h₂⟩ := Bool.and_eq_true_iff.mp hboth
        unfold Entry.on at h₁ h₂
        split at h₁
        · next found _ _ hwhat =>
          rw [hwhat] at h₂
          exact heq ((beq_iff_eq.mp h₁).symm.trans (beq_iff_eq.mp h₂))
        · cases h₁
      rw [hnone, List.nil_append, h.inOrder other (by rw [horphan]; simp [hother, heq])]

end linearizes

/-! ## Runs -/

section runs

variable [DecidableEq T]

section actions

variable (part)

/-- One action at the time `now`.  A caller makes one call at a time. -/
def step (now : Nat) (s : State K T J σ) :
    Action K T J σ → State K T J σ × List (Entry K T J A σ)
  | .call caller name job =>
    if (s.running caller).isSome then (s, [])
    else
      match s.ids.get name with
      | none => (s, [⟨name, now, now, .missing caller job⟩])
      | some id =>
        ({ s with running := Function.update s.running caller (some ⟨name, id, job, now⟩) }, [])
  | .proceed caller =>
    match s.running caller with
    | none => (s, [])
    | some r =>
      match s.objects.get r.id with
      | none => (s, [])
      | some object =>
        let done := part r.job object
        ({ s with
            objects := s.objects.insert r.id done.2.2
            running := Function.update s.running caller (done.2.1.map fun job => { r with job }) },
          [⟨r.name, r.start, now, .part caller r.id r.job done.1⟩])
  | .put name object =>
    ({ s with
        ids := s.ids.insert name s.fresh
        objects := s.objects.insert s.fresh object
        fresh := s.fresh + 1 }, [⟨name, now, now, .put object⟩])
  | .take name =>
    ({ s with ids := s.ids.erase name }, [⟨name, now, now, .taken (s.ids.get name).isSome⟩])

/-- The actions one after the other, and their log. -/
def run : Nat → List (Action K T J σ) → State K T J σ → State K T J σ × List (Entry K T J A σ)
  | _, [], s => (s, [])
  | now, action :: rest, s =>
    let r := step part now s action
    let r' := run (now + 1) rest r.1
    (r'.1, r.2 ++ r'.2)

end actions

variable {now : Nat} {s : State K T J σ}

/-! ### What a step can do -/

section inversion

variable (part now s)

theorem step_call (caller : T) (name : K) (job : J) :
    step part now s (.call caller name job) = (s, []) ∨
    (s.ids.get name = none ∧ step part now s (.call caller name job) =
      (s, [⟨name, now, now, .missing caller job⟩])) ∨
    ∃ id, s.ids.get name = some id ∧ step part now s (.call caller name job) =
      ({ s with running := Function.update s.running caller (some ⟨name, id, job, now⟩) }, []) := by
  unfold step
  dsimp only
  split
  · exact Or.inl rfl
  · split
    · next hget => exact Or.inr (Or.inl ⟨hget, rfl⟩)
    · next id hget => exact Or.inr (Or.inr ⟨id, hget, rfl⟩)

theorem step_proceed (caller : T) :
    step part now s (.proceed caller) = (s, []) ∨
    ∃ r object, s.running caller = some r ∧ s.objects.get r.id = some object ∧
      step part now s (.proceed caller) =
        ({ s with
            objects := s.objects.insert r.id (part r.job object).2.2
            running := Function.update s.running caller
              ((part r.job object).2.1.map fun job => { r with job }) },
          [⟨r.name, r.start, now, .part caller r.id r.job (part r.job object).1⟩]) := by
  unfold step
  dsimp only
  split
  · exact Or.inl rfl
  · next r hr =>
    split
    · exact Or.inl rfl
    · next object hobject => exact Or.inr ⟨r, object, hr, hobject, rfl⟩

theorem step_fresh_le (action : Action K T J σ) : s.fresh ≤ (step part now s action).1.fresh := by
  cases action with
  | call caller name job =>
    rcases step_call part now s caller name job with hstep | ⟨-, hstep⟩ | ⟨id, -, hstep⟩ <;>
      rw [hstep]
  | proceed caller =>
    rcases step_proceed part now s caller with hstep | ⟨r, object, -, -, hstep⟩ <;> rw [hstep]
  | put name object => exact Nat.le_succ s.fresh
  | take name => exact Nat.le_refl s.fresh

/-- The objects that are there stay there. -/
theorem isSome_step {id : Nat} (h : (s.objects.get id).isSome = true) (action : Action K T J σ) :
    ((step part now s action).1.objects.get id).isSome = true := by
  cases action with
  | call caller name job =>
    rcases step_call part now s caller name job with hstep | ⟨-, hstep⟩ | ⟨found, -, hstep⟩ <;>
      rw [hstep] <;> exact h
  | proceed caller =>
    rcases step_proceed part now s caller with hstep | ⟨r, object, -, -, hstep⟩ <;> rw [hstep]
    · exact h
    · exact isSome_insert h
  | put name object => exact isSome_insert h
  | take name => exact h

/-- What is under a name was there before, or has just been put there. -/
theorem ids_of_step {action : Action K T J σ} {name : K} {id : Nat}
    (h : (step part now s action).1.ids.get name = some id) :
    s.ids.get name = some id ∨ ∃ object, action = .put name object ∧ id = s.fresh := by
  cases action with
  | call caller name' job =>
    rcases step_call part now s caller name' job with hstep | ⟨-, hstep⟩ | ⟨found, -, hstep⟩ <;>
      rw [hstep] at h <;> exact Or.inl h
  | proceed caller =>
    rcases step_proceed part now s caller with hstep | ⟨r, object, -, -, hstep⟩ <;>
      rw [hstep] at h <;> exact Or.inl h
  | put name' object =>
    have hget : (s.ids.insert name' s.fresh).get name = some id := h
    rw [OrderedTable.get_insert] at hget
    split at hget
    · next heq => exact Or.inr ⟨object, heq ▸ rfl, (Option.some.inj hget).symm⟩
    · exact Or.inl hget
  | take name' =>
    have hget : (s.ids.erase name').get name = some id := h
    rw [OrderedTable.get_erase] at hget
    split at hget
    · cases hget
    · exact Or.inl hget

/-- A job was there before, has just begun, or is what is left of one. -/
theorem running_of_step {action : Action K T J σ} {caller : T} {r : Running K J}
    (h : (step part now s action).1.running caller = some r) :
    s.running caller = some r ∨
    (∃ name job id, action = .call caller name job ∧ s.ids.get name = some id ∧
      r = ⟨name, id, job, now⟩) ∨
    ∃ r₀ object job, s.running caller = some r₀ ∧ (part r₀.job object).2.1 = some job ∧
      r = { r₀ with job } := by
  cases action with
  | call other name job =>
    rcases step_call part now s other name job with hstep | ⟨-, hstep⟩ | ⟨id, hget, hstep⟩ <;>
      rw [hstep] at h
    · exact Or.inl h
    · exact Or.inl h
    · dsimp only at h
      by_cases heq : caller = other
      · subst heq
        rw [Function.update_self] at h
        exact Or.inr (Or.inl ⟨name, job, id, rfl, hget, (Option.some.inj h).symm⟩)
      · rw [Function.update_of_ne heq] at h
        exact Or.inl h
  | proceed other =>
    rcases step_proceed part now s other with hstep | ⟨r₀, object, hr₀, -, hstep⟩ <;>
      rw [hstep] at h
    · exact Or.inl h
    · dsimp only at h
      by_cases heq : caller = other
      · subst heq
        rw [Function.update_self] at h
        obtain ⟨job, hnext, hr⟩ := Option.map_eq_some_iff.mp h
        exact Or.inr (Or.inr ⟨r₀, object, job, hr₀, hnext, hr.symm⟩)
      · rw [Function.update_of_ne heq] at h
        exact Or.inl h
  | put name object => exact Or.inl h
  | take name => exact Or.inl h

end inversion

/-! ### The invariant -/

theorem WellFormed.step (h : WellFormed now s) (action : Action K T J σ) :
    WellFormed (now + 1) (step part now s action).1 where
  injective name name' id hget hget' := by
    rcases ids_of_step part now s hget with hold | ⟨object, haction, hnew⟩ <;>
      rcases ids_of_step part now s hget' with hold' | ⟨object', haction', hnew'⟩
    · exact h.injective name name' id hold hold'
    · -- what has just been put is new
      exact absurd (h.stored name id hold).1 (by omega)
    · exact absurd (h.stored name' id hold').1 (by omega)
    · rw [haction] at haction'
      cases haction'
      rfl
  stored name id hget := by
    rcases ids_of_step part now s hget with hold | ⟨object, rfl, rfl⟩
    · obtain ⟨hid, hsome⟩ := h.stored name id hold
      exact ⟨hid.trans_le (step_fresh_le part now s action), isSome_step part now s hsome action⟩
    · refine ⟨Nat.lt_succ_self s.fresh, ?_⟩
      show ((s.objects.insert s.fresh object).get s.fresh).isSome = true
      rw [OrderedTable.get_insert_self]
      rfl
  begun caller r hr := by
    -- the object of a job was there before the step, under no name but that of the job
    have hbefore : r.id < s.fresh ∧ (s.objects.get r.id).isSome = true ∧ r.start ≤ now ∧
        ∀ name, s.ids.get name = some r.id → name = r.name := by
      rcases running_of_step part now s hr with
        hold | ⟨name, job, id, -, hget, rfl⟩ | ⟨r₀, object, job, hold, -, rfl⟩
      · exact h.begun caller r hold
      · obtain ⟨hid, hsome⟩ := h.stored name id hget
        exact ⟨hid, hsome, Nat.le_refl now, fun name' hget' => h.injective _ _ _ hget' hget⟩
      · exact h.begun caller r₀ hold
    obtain ⟨hid, hsome, hstart, hname⟩ := hbefore
    refine ⟨hid.trans_le (step_fresh_le part now s action), isSome_step part now s hsome action,
      Nat.le_succ_of_le hstart, fun name hget => ?_⟩
    rcases ids_of_step part now s hget with hold | ⟨object, -, hnew⟩
    · exact hname name hold
    · omega

/-! ## The times of the log -/

theorem mem_step (h : WellFormed now s) {action : Action K T J σ} {e : Entry K T J A σ}
    (he : e ∈ (step part now s action).2) : e.time = now ∧ e.start ≤ now := by
  cases action with
  | call caller name job =>
    rcases step_call part now s caller name job with hstep | ⟨-, hstep⟩ | ⟨id, -, hstep⟩ <;>
      rw [hstep] at he
    · cases he
    · rw [List.mem_singleton.mp he]
      exact ⟨rfl, Nat.le_refl now⟩
    · cases he
  | proceed caller =>
    rcases step_proceed part now s caller with hstep | ⟨r, object, hr, -, hstep⟩ <;>
      rw [hstep] at he
    · cases he
    · rw [List.mem_singleton.mp he]
      exact ⟨rfl, (h.begun caller r hr).2.2.1⟩
  | put name object =>
    rw [List.mem_singleton.mp he]
    exact ⟨rfl, Nat.le_refl now⟩
  | take name =>
    rw [List.mem_singleton.mp he]
    exact ⟨rfl, Nat.le_refl now⟩

theorem le_time_of_mem_run (h : WellFormed now s) {actions : List (Action K T J σ)}
    {e : Entry K T J A σ} (he : e ∈ (run part now actions s).2) : now ≤ e.time := by
  induction actions generalizing now s with
  | nil => cases he
  | cons action rest ih =>
    rcases List.mem_append.mp he with he | he
    · exact (mem_step h he).1.ge
    · exact (Nat.le_succ now).trans (ih (h.step action) he)

/-! ## What the lines are about -/

/-- A line about a call, a job or an object of this kind under its name. -/
def Entry.Concerns (C R : K → J → Prop) (G : K → σ → Prop) (e : Entry K T J A σ) : Prop :=
  match e.what with
  | .missing _ job => C e.name job
  | .part _ _ job _ => R e.name job
  | .put object => G e.name object
  | .taken _ => True

/-- The lines of one step. -/
theorem concerns_of_mem_step {C R : K → J → Prop} {G : K → σ → Prop} {action : Action K T J σ}
    (hcall : ∀ caller name job, action = .call caller name job → C name job)
    (hput : ∀ name object, action = .put name object → G name object)
    (hrunning : ∀ caller r, s.running caller = some r → R r.name r.job) :
    ∀ e ∈ (step part now s action).2, e.Concerns C R G := by
  intro e he
  cases action with
  | call caller name job =>
    rcases step_call part now s caller name job with hstep | ⟨-, hstep⟩ | ⟨id, -, hstep⟩ <;>
      rw [hstep] at he
    · cases he
    · rw [List.mem_singleton.mp he]
      exact hcall caller name job rfl
    · cases he
  | proceed caller =>
    rcases step_proceed part now s caller with hstep | ⟨r, object, hr, -, hstep⟩ <;>
      rw [hstep] at he
    · cases he
    · rw [List.mem_singleton.mp he]
      exact hrunning caller r hr
  | put name object =>
    rw [List.mem_singleton.mp he]
    exact hput name object rfl
  | take name =>
    rw [List.mem_singleton.mp he]
    trivial

/-- What holds of all jobs that begin, and goes over to what is left of them,
    holds of every job in the log. -/
theorem concerns_of_mem_run {C R : K → J → Prop} {G : K → σ → Prop}
    (hbegin : ∀ name job, C name job → R name job)
    (hpart : ∀ name job object job', R name job → (part job object).2.1 = some job' → R name job')
    {actions : List (Action K T J σ)}
    (hcall : ∀ caller name job, .call caller name job ∈ actions → C name job)
    (hput : ∀ name object, .put name object ∈ actions → G name object)
    (hrunning : ∀ caller r, s.running caller = some r → R r.name r.job) :
    ∀ e ∈ (run part now actions s).2, e.Concerns C R G := by
  induction actions generalizing now s with
  | nil => exact fun e he => nomatch he
  | cons action rest ih =>
    have hrunning' : ∀ caller r, (step part now s action).1.running caller = some r →
        R r.name r.job := by
      intro caller r hr
      rcases running_of_step part now s hr with
        hold | ⟨name, job, id, rfl, -, rfl⟩ | ⟨r₀, object, job, hold, hnext, rfl⟩
      · exact hrunning caller r hold
      · exact hbegin name job (hcall caller name job List.mem_cons_self)
      · exact hpart r₀.name r₀.job object job (hrunning caller r₀ hold) hnext
    intro e he
    rcases List.mem_append.mp he with he | he
    · exact concerns_of_mem_step
        (fun caller name job heq => hcall caller name job (heq ▸ List.mem_cons_self))
        (fun name object heq => hput name object (heq ▸ List.mem_cons_self)) hrunning e he
    · exact ih (fun caller name job hmem => hcall caller name job (List.mem_cons_of_mem _ hmem))
        (fun name object hmem => hput name object (List.mem_cons_of_mem _ hmem)) hrunning' e he

/-! ## Orphans -/

variable (part now) in
/-- What a step can do with an object that has left the map: nothing, or a part
    of a job that had found it before. -/
theorem step_orphan {id : Nat} {object : σ} (horphan : s.isOrphan id = true)
    (hobject : s.objects.get id = some object) (action : Action K T J σ) :
    ((step part now s action).1.objects.get id = some object ∧
      ∀ e ∈ (step part now s action).2, e.on id = false) ∨
    ∃ caller r, s.running caller = some r ∧ r.id = id ∧
      (step part now s action).1.objects.get id = some (part r.job object).2.2 ∧
      (step part now s action).2 =
        [⟨r.name, r.start, now, .part caller id r.job (part r.job object).1⟩] := by
  cases action with
  | call caller name job =>
    left
    rcases step_call part now s caller name job with hstep | ⟨-, hstep⟩ | ⟨found, -, hstep⟩ <;>
      rw [hstep]
    · exact ⟨hobject, fun e he => nomatch he⟩
    · exact ⟨hobject, fun e he => by rw [List.mem_singleton.mp he]; rfl⟩
    · exact ⟨hobject, fun e he => nomatch he⟩
  | proceed caller =>
    rcases step_proceed part now s caller with hstep | ⟨r, object', hr, hobject', hstep⟩ <;>
      rw [hstep]
    · exact Or.inl ⟨hobject, fun e he => nomatch he⟩
    · by_cases heq : r.id = id
      · right
        subst heq
        obtain rfl : object' = object := Option.some.inj (hobject'.symm.trans hobject)
        exact ⟨caller, r, hr, rfl, OrderedTable.get_insert_self _ _ _, rfl⟩
      · left
        refine ⟨?_, fun e he => ?_⟩
        · show (s.objects.insert r.id _).get id = some object
          rw [OrderedTable.get_insert_ne _ _ (Ne.symm heq)]
          exact hobject
        · rw [List.mem_singleton.mp he]
          show (r.id == id) = false
          simpa using heq
  | put name new =>
    left
    refine ⟨?_, fun e he => by rw [List.mem_singleton.mp he]; rfl⟩
    show (s.objects.insert s.fresh new).get id = some object
    rw [OrderedTable.get_insert_ne _ _ (isOrphan_iff.mp horphan).1.ne]
    exact hobject
  | take name =>
    exact Or.inl ⟨hobject, fun e he => by rw [List.mem_singleton.mp he]; rfl⟩

variable (part now) in
/-- An orphan stays one. -/
theorem isOrphan_step {id : Nat} (horphan : s.isOrphan id = true) (action : Action K T J σ) :
    (step part now s action).1.isOrphan id = true := by
  rw [isOrphan_iff] at horphan ⊢
  obtain ⟨hid, hnot⟩ := horphan
  refine ⟨hid.trans_le (step_fresh_le part now s action), fun name hget => ?_⟩
  rcases ids_of_step part now s hget with hold | ⟨object, -, hnew⟩
  · exact hnot name hold
  · omega

/-- No job begins on an orphan. -/
theorem running_step {id : Nat} (horphan : s.isOrphan id = true) {action : Action K T J σ}
    {caller : T} {r : Running K J} (hr : (step part now s action).1.running caller = some r)
    (hid : r.id = id) :
    ∃ caller₀ r₀, s.running caller₀ = some r₀ ∧ r₀.id = id ∧ r₀.name = r.name ∧
      r₀.start = r.start := by
  rcases running_of_step part now s hr with
    hold | ⟨name, job, found, -, hget, rfl⟩ | ⟨r₀, object, job, hold, -, rfl⟩
  · exact ⟨caller, r, hold, hid, rfl, rfl⟩
  · exact absurd (hid ▸ hget) ((isOrphan_iff.mp horphan).2 name)
  · exact ⟨caller, r₀, hold, hid, rfl, rfl⟩

variable (part now) in
/-- The parts on an orphan are those of the jobs that had found it. -/
theorem part_on_orphan {id : Nat} {Q : K → Nat → Prop} (actions : List (Action K T J σ))
    (horphan : s.isOrphan id = true) (hsome : (s.objects.get id).isSome = true)
    (hQ : ∀ caller r, s.running caller = some r → r.id = id → Q r.name r.start) :
    ∀ e ∈ (run part now actions s).2, e.on id = true → Q e.name e.start := by
  induction actions generalizing now s with
  | nil => exact fun e he => nomatch he
  | cons action rest ih =>
    obtain ⟨object, hobject⟩ := Option.isSome_iff_exists.mp hsome
    have hstep := step_orphan part now horphan hobject action
    intro e he hon
    rcases List.mem_append.mp he with he | he
    · rcases hstep with ⟨-, hnone⟩ | ⟨caller, r, hr, hid, -, hlog⟩
      · rw [hnone e he] at hon
        cases hon
      · rw [hlog, List.mem_singleton] at he
        rw [he]
        exact hQ caller r hr hid
    · refine ih (now + 1) (isOrphan_step part now horphan action) ?_ ?_ e he hon
      · rcases hstep with ⟨hobject', -⟩ | ⟨_, _, -, -, hobject', -⟩
        · rw [hobject']
          rfl
        · rw [hobject']
          rfl
      · intro caller r hr hid
        obtain ⟨caller₀, r₀, hr₀, hid₀, hname, hstart⟩ := running_step horphan hr hid
        rw [← hname, ← hstart]
        exact hQ caller₀ r₀ hr₀ hid₀

variable (part now) in
/-- They see what they would see if the object were in the map still. -/
theorem sequential_orphan {id : Nat} {name : K} (actions : List (Action K T J σ))
    (horphan : s.isOrphan id = true)
    (hname : ∀ caller r, s.running caller = some r → r.id = id → r.name = name) {object : σ}
    (hobject : s.objects.get id = some object) {t : K → Option σ} (ht : t name = some object) :
    ∃ object', Sequential part ((run part now actions s).2.filter (·.on id)) t
      (Function.update t name (some object')) := by
  induction actions generalizing now s object t with
  | nil => exact ⟨object, (by rw [← ht, Function.update_eq_self] : _ = t)⟩
  | cons action rest ih =>
    have hname' : ∀ caller r, (step part now s action).1.running caller = some r → r.id = id →
        r.name = name := by
      intro caller r hr hid
      obtain ⟨caller₀, r₀, hr₀, hid₀, hsame, -⟩ := running_step horphan hr hid
      exact hsame.symm.trans (hname caller₀ r₀ hr₀ hid₀)
    have horphan' := isOrphan_step part now horphan action
    show ∃ object', Sequential part ((_ ++ _ : List _).filter _) t _
    rw [List.filter_append]
    rcases step_orphan part now horphan hobject action with
      ⟨hobject', hnone⟩ | ⟨caller, r, hr, hid, hobject', hlog⟩
    · have hempty : (step part now s action).2.filter (·.on id) = [] := by
        rw [List.filter_eq_nil_iff]
        exact fun e he hon => by simp [hnone e he] at hon
      rw [hempty, List.nil_append]
      exact ih (now + 1) horphan' hname' hobject' ht
    · -- the part changes the object under the name as it changes the orphan
      have hone : (step part now s action).2.filter (·.on id) =
          [⟨r.name, r.start, now, .part caller id r.job (part r.job object).1⟩] := by
        rw [hlog]
        simp [Entry.on]
      obtain rfl := hname caller r hr hid
      obtain ⟨object', hrest⟩ := ih (now + 1) horphan' hname' hobject'
        (t := Function.update t r.name (some (part r.job object).2.2)) (Function.update_self _ _ _)
      rw [Function.update_idem] at hrest
      rw [hone]
      exact ⟨object', _, ⟨object, ht, rfl, rfl⟩, hrest⟩

/-! ## What an action does to the map -/

section changes

variable {name : K} {object : σ}

theorem table_put (h : WellFormed now s) :
    (step part now s (.put name object)).1.table = Function.update s.table name (some object) := by
  funext name'
  show ((s.ids.insert name s.fresh).get name').bind (s.objects.insert s.fresh object).get = _
  rw [OrderedTable.get_insert]
  by_cases heq : name' = name
  · subst heq
    rw [if_pos rfl, Function.update_self]
    exact OrderedTable.get_insert_self _ _ _
  · rw [if_neg heq, Function.update_of_ne heq]
    show _ = (s.ids.get name').bind s.objects.get
    cases hget : s.ids.get name' with
    | none => rfl
    | some id =>
      show (s.objects.insert s.fresh object).get id = s.objects.get id
      exact OrderedTable.get_insert_ne _ _ (h.stored name' id hget).1.ne

theorem table_take :
    (step part now s (.take name)).1.table = Function.update s.table name none := by
  funext name'
  show ((s.ids.erase name).get name').bind s.objects.get = _
  rw [OrderedTable.get_erase]
  by_cases heq : name' = name
  · subst heq
    rw [if_pos rfl, Function.update_self]
    rfl
  · rw [if_neg heq, Function.update_of_ne heq]
    rfl

/-- What is put displaces what was there. -/
theorem isOrphan_put (h : WellFormed now s) (other : Nat) :
    (step part now s (.put name object)).1.isOrphan other =
      (s.isOrphan other || decide (s.ids.get name = some other)) := by
  refine isOrphan_displaced h (Nat.le_succ s.fresh) (fun other hge hlt => ⟨name, ?_⟩)
    (fun name' other hlt => ?_) other
  · have hother : other = s.fresh := Nat.le_antisymm (Nat.le_of_lt_succ hlt) hge
    show (s.ids.insert name s.fresh).get name = some other
    rw [hother]
    exact OrderedTable.get_insert_self _ _ _
  · show (s.ids.insert name s.fresh).get name' = some other ↔ _
    rw [OrderedTable.get_insert]
    by_cases heq : name' = name
    · rw [if_pos heq]
      simp [heq, hlt.ne']
    · rw [if_neg heq]
      simp [heq]

theorem isOrphan_take (h : WellFormed now s) (other : Nat) :
    (step part now s (.take name)).1.isOrphan other =
      (s.isOrphan other || decide (s.ids.get name = some other)) := by
  refine isOrphan_displaced h ?_ ?_ (fun name' other hlt => ?_) other
  · exact Nat.le_refl s.fresh
  · exact fun other hge hlt => absurd hlt (Nat.not_lt.mpr hge)
  · show (s.ids.erase name).get name' = some other ↔ _
    rw [OrderedTable.get_erase]
    by_cases heq : name' = name
    · rw [if_pos heq]
      simp [heq]
    · rw [if_neg heq]
      simp [heq]

end changes

/-! ## Linearizability -/

/-- A change of what is under a name, and the run that follows it. -/
theorem Linearizes.change (h : WellFormed now s) {s₁ : State K T J σ} {name : K}
    {e : Entry K T J A σ} {rest : List (Action K T J σ)} {t' : K → Option σ}
    {order : List (Entry K T J A σ)} (hrunning : s₁.running = s.running)
    (hobjects : ∀ id, id < s.fresh → s₁.objects.get id = s.objects.get id)
    (horphan : ∀ other,
      s₁.isOrphan other = (s.isOrphan other || decide (s.ids.get name = some other)))
    (hcounts : ∀ s : State K T J σ, e.counts s = true) (hon : ∀ other, e.on other = false)
    (hanswers : Answers part e s.table s₁.table)
    (hagain : ∀ object, s.table name = some object → ∀ object',
      Answers part e (Function.update s.table name (some object')) s₁.table)
    (hstart : e.start = now) (htime : e.time = now)
    (hlater : ∀ e' ∈ (run part (now + 1) rest s₁).2, now ≤ e'.time)
    (hrest : Linearizes part s₁ (run part (now + 1) rest s₁).2 t' order) :
    ∃ order', Linearizes part s (e :: (run part (now + 1) rest s₁).2) t' order' := by
  cases hget : s.ids.get name with
  | none =>
    -- nothing was there: no object becomes an orphan
    have hsame : ∀ other, s₁.isOrphan other = s.isOrphan other := by
      intro other
      rw [horphan, hget]
      simp
    exact ⟨_, hrest.cons hsame (hcounts s) hanswers (fun e' he' => hstart ▸ hlater e' he')⟩
  | some id =>
    obtain ⟨hid, hsome⟩ := h.stored name id hget
    obtain ⟨object, hobject⟩ := Option.isSome_iff_exists.mp hsome
    have htable : s.table name = some object := by
      show (s.ids.get name).bind s.objects.get = some object
      rw [hget]
      exact hobject
    have hlive : s.isOrphan id = false := by
      rw [← Bool.not_eq_true, isOrphan_iff]
      exact fun hnot => hnot.2 name hget
    have hdisplaced : ∀ other, s₁.isOrphan other = (s.isOrphan other || decide (other = id)) := by
      intro other
      rw [horphan, hget]
      simp [eq_comm]
    have horphan₁ : s₁.isOrphan id = true := by
      rw [hdisplaced]
      simp
    have hobject₁ : s₁.objects.get id = some object := (hobjects id hid).trans hobject
    -- the jobs that had found it do what is left of them on an orphan
    have hbegun : ∀ caller r, s₁.running caller = some r → r.id = id →
        r.name = name ∧ r.start ≤ now := by
      intro caller r hr hr'
      rw [hrunning] at hr
      obtain ⟨-, -, hstart, hname⟩ := h.begun caller r hr
      exact ⟨(hname name (hr' ▸ hget)).symm, hstart⟩
    obtain ⟨object', hparts⟩ := sequential_orphan part (now + 1) rest horphan₁
      (fun caller r hr hr' => (hbegun caller r hr hr').1) hobject₁ htable
    have hbefore := part_on_orphan part (now + 1) (Q := fun _ start => start ≤ now) rest horphan₁
      (by rw [hobject₁]; rfl) fun caller r hr hr' => (hbegun caller r hr hr').2
    exact ⟨_, hrest.displace hdisplaced hlive hcounts hon hparts (hagain object htable object')
      hstart.le htime hlater hbefore⟩

variable (part) in
/-- Whatever follows a well-formed state can be put into one order. -/
theorem exists_linearizes (h : WellFormed now s) (actions : List (Action K T J σ)) :
    ∃ order, Linearizes part s (run part now actions s).2 (run part now actions s).1.table
      order := by
  induction actions generalizing now s with
  | nil => exact ⟨[], linearizes_nil s⟩
  | cons action rest ih =>
    have hwf : WellFormed (now + 1) (step part now s action).1 := h.step action
    obtain ⟨order, hrest⟩ := ih hwf
    have hlater : ∀ e ∈ (run part (now + 1) rest (step part now s action).1).2, now ≤ e.time :=
      fun e he => (Nat.le_succ now).trans (le_time_of_mem_run hwf he)
    unfold run
    dsimp only
    cases action with
    | call caller name job =>
      rcases step_call part now s caller name job with hstep | ⟨hget, hstep⟩ | ⟨id, -, hstep⟩ <;>
        rw [hstep] at hrest hlater ⊢
      · exact ⟨order, hrest⟩
      · have hnone : s.table name = none := by
          show (s.ids.get name).bind s.objects.get = none
          rw [hget]
          rfl
        exact ⟨_, hrest.cons (fun _ => rfl) rfl ⟨hnone, rfl⟩ hlater⟩
      · exact ⟨order, hrest.skip rfl fun _ => rfl⟩
    | proceed caller =>
      rcases step_proceed part now s caller with hstep | ⟨r, object, hr, hobject, hstep⟩ <;>
        rw [hstep] at hrest hlater ⊢
      · exact ⟨order, hrest⟩
      · obtain ⟨hid, -, hstart, hname⟩ := h.begun caller r hr
        by_cases horphan : s.isOrphan r.id = true
        · -- the part has its place before the change that made the object leave
          have hskip : Linearizes part s _ _ order :=
            hrest.skip (table_insert_of_orphan horphan _) fun _ => rfl
          refine ⟨order, hskip.skip_part ?_⟩
          show (!s.isOrphan r.id) = false
          rw [horphan]
          rfl
        · -- the object is under the name of the job still
          have hget : s.ids.get r.name = some r.id := by
            by_contra hnot
            refine horphan (isOrphan_iff.mpr ⟨hid, fun name hget => hnot ?_⟩)
            rw [← hname name hget]
            exact hget
          have htable : s.table r.name = some object := by
            show (s.ids.get r.name).bind s.objects.get = some object
            rw [hget]
            exact hobject
          refine ⟨_, hrest.cons (fun _ => rfl) ?_ ⟨object, htable, rfl, ?_⟩
            fun e he => hstart.trans (hlater e he)⟩
          · show (!s.isOrphan r.id) = true
            rw [Bool.not_eq_true] at horphan
            rw [horphan]
            rfl
          · exact table_insert_of_get h hget _
    | put name object =>
      exact Linearizes.change h rfl (fun id hid => OrderedTable.get_insert_ne _ _ hid.ne)
        (isOrphan_put h) (fun _ => rfl) (fun _ => rfl) (table_put h)
        (fun _ _ _ => (table_put h).trans (Function.update_idem _ _ _).symm) rfl rfl hlater hrest
    | take name =>
      have hexisted : (s.ids.get name).isSome = (s.table name).isSome := by
        show _ = ((s.ids.get name).bind s.objects.get).isSome
        cases hget : s.ids.get name with
        | none => rfl
        | some id => exact (h.stored name id hget).2.symm
      refine Linearizes.change h rfl (fun _ _ => rfl) (isOrphan_take h) (fun _ => rfl)
        (fun _ => rfl) ⟨hexisted, table_take⟩ (fun object hobject object' => ⟨?_, ?_⟩) rfl rfl
        hlater hrest
      · show (s.ids.get name).isSome = _
        rw [hexisted, hobject, Function.update_self]
        rfl
      · exact table_take.trans (Function.update_idem _ _ _).symm

variable (part) in
/-- **Linearizability.**  Whatever the callers do, and in whatever order, the
    lines of their log can be put into one order in which each of them sees
    what a single caller would.  A call that was over before another began
    comes before it, and the parts on one object stay as they were. -/
theorem exists_order (actions : List (Action K T J σ)) :
    ∃ order, order.Perm (run part 0 actions .empty).2 ∧
      Sequential part order (fun _ => none) (run part 0 actions .empty).1.table ∧
      order.Pairwise (fun e e' => e.start ≤ e'.time) ∧
      ∀ id, order.filter (·.on id) = (run part 0 actions .empty).2.filter (·.on id) := by
  obtain ⟨order, hperm, hsequential, htime, hin⟩ :=
    exists_linearizes part (wellFormed_empty (K := K) (T := T)) actions
  refine ⟨order, ?_, hsequential, htime, fun id => hin id rfl⟩
  have hall : (run part 0 actions .empty).2.filter (·.counts (.empty : State K T J σ)) =
      (run part 0 actions .empty).2 := by
    refine List.filter_eq_self.mpr fun e _ => ?_
    unfold Entry.counts
    split <;> rfl
  exact hall ▸ hperm

end runs

end SharedObjects
