import EidosDB.Storage.FlatRefines

/-! # Crash Safety of Flat Writes

    A process works on a store until it crashes, at any of its durable steps
    or between two calls; the store is opened again, which may crash as well.
    Beside the store runs the map of what was committed: a write counts from
    the moment its catalog transaction took effect. -/

namespace EidosDB

open Bytes Effect

/-! ## Processes and crashes -/

/-- A store with a process at work on it, the files a crash left behind, or a
    store that could not be opened again. -/
inductive FlatProcess where
  | up (s : FlatStore)
  | down (disk : FlatDisk)
  | broken

inductive FlatEvent where
  /-- A write, cut short by a crash or not. -/
  | write (c : FlatWrite) (crash : Option Nat)
  /-- A crash between two calls. -/
  | kill
  /-- The directory is opened, cut short by a crash or not. -/
  | openAgain (crash : Option Nat)

/-- The map of committed contents. -/
abbrev Committed := VectorId → Option Embedding

/-- A write by a running process.  `none` stands for a file system without
    room for the file. -/
def FlatStore.writeEvent (c : FlatWrite) (crash : Option Nat) (s : FlatStore) (m : Committed) :
    Option (FlatProcess × Committed) :=
  let r := FlatStore.write c (World.start s (crashPlan crash))
  let m' := if r.2.commits = 0 then m else c.apply m
  match r.1 with
  | .ok _ => some (.up r.2.state, m')
  | .err e => if e = .io .fileTooLarge then none else some (.up r.2.state, m')
  | .crashed => some (.down r.2.state.disk, m')
  | .panicked => some (.broken, m')

/-- An opening of the files left behind. -/
def FlatDisk.openEvent (metric : Metric) (dimension : Dimension) (crash : Option Nat)
    (disk : FlatDisk) : FlatProcess :=
  match FlatDisk.openAt metric dimension (World.start disk (crashPlan crash)) with
  | (.ok index, w) => .up ⟨w.state, index⟩
  | (.err _, _) => .broken
  | (.crashed, w) => .down w.state
  | (.panicked, _) => .broken

/-- One event; an event that does not fit the process changes nothing. -/
def FlatProcess.step (metric : Metric) (dimension : Dimension) (event : FlatEvent)
    (p : FlatProcess) (m : Committed) : Option (FlatProcess × Committed) :=
  match event, p with
  | .write c crash, .up s => s.writeEvent c crash m
  | .kill, .up s => some (.down s.disk, m)
  | .openAgain crash, .down disk => some (disk.openEvent metric dimension crash, m)
  | _, p => some (p, m)

def FlatProcess.run (metric : Metric) (dimension : Dimension) :
    List FlatEvent → FlatProcess → Committed → Option (FlatProcess × Committed)
  | [], p, m => some (p, m)
  | event :: rest, p, m =>
    match p.step metric dimension event m with
    | none => none
    | some (p', m') => FlatProcess.run metric dimension rest p' m'

/-- A run from a store just created. -/
def FlatProcess.life (metric : Metric) (dimension : Dimension) (events : List FlatEvent) :
    Option (FlatProcess × Committed) :=
  match FlatDisk.openAt metric dimension (World.start .empty .none) with
  | (.ok index, w) => FlatProcess.run metric dimension events (.up ⟨w.state, index⟩) (fun _ => none)
  | _ => none

/-! ## What a store holds -/

/-- The values a store reads for an id, through the slot table and the map or
    the tail. -/
def FlatStore.valuesOf (self : FlatStore) (id : VectorId) :
    Except StorageError (Option (List F32)) := do
  let table ← self.catalog.slotTable
  match table.get id with
  | none => .ok none
  | some slot =>
    let values ← self.valuesAtStorage slot self.index.segment.mappedRecords
    .ok (some values)

/-- The store holds exactly the map `m`: every id reads as its embedding, and
    length and searches are those of the points of `m`. -/
structure Holds (metric : Metric) (dimension : Dimension) (s : FlatStore) (m : Committed) :
    Prop where
  params : s.index.metric = metric ∧ s.index.dimension = dimension
  values : ∀ id, s.valuesOf id = .ok ((m id).map Embedding.values)
  listed : ∃ points : List (VectorId × Embedding), (points.map Prod.fst).Nodup ∧
    (∀ id e, (id, e) ∈ points ↔ m id = some e) ∧ s.len = points.length ∧
    ∀ ops query k queryMetric isAdmissible, query.dimension = dimension.get →
      s.searchFiltered ops query k queryMetric isAdmissible =
        .ok (hits ops queryMetric query.values k isAdmissible points)

variable {metric : Metric} {dimension : Dimension} {l : Ledger}

theorem Rep.holds {s : FlatStore} (h : Rep metric dimension l s) :
    Holds metric dimension s l.contents where
  params := ⟨h.metric_eq, h.dimension_eq⟩
  values id := by
    unfold FlatStore.valuesOf Ledger.contents
    rw [h.catalog]
    cases hslot : l.slots.get id with
    | none =>
      simp only [CatalogDb.slotTable, CatalogDb.stored, Bind.bind, Except.bind, hslot]
      rfl
    | some slot =>
      have hrec := List.getElem?_eq_getElem (l.slots_lt id slot hslot)
      have hvalues := h.valuesAtWith StorageError.corruption hrec
      simp only [CatalogDb.slotTable, CatalogDb.stored, Bind.bind, Except.bind, hslot,
        FlatStore.valuesAtStorage, hvalues, Option.bind_some, hrec, Option.map_some]
  listed := by
    refine ⟨l.points, l.nodup_points_keys, fun id e => Ledger.mem_points, ?_, ?_⟩
    · rw [FlatStore.len, h.liveCount, l.length_points]
    · intro ops query k queryMetric isAdmissible hdim
      rw [h.searchFiltered, if_neg (by rw [hdim]; exact not_not.mpr rfl)]

/-! ## The invariant of a life -/

/-- What is durable is a ledger of the committed map, whether or not a
    process is up. -/
def Durable (metric : Metric) (dimension : Dimension) (m : Committed) : FlatProcess → Prop
  | .up s => ∃ l, l.contents = m ∧ Rep metric dimension l s
  | .down disk => ∃ l junk, l.contents = m ∧ OnDisk metric dimension l junk disk
  | .broken => False

/-- A write keeps the durable map in step with its commit, wherever it is cut
    short. -/
theorem durable_writeEvent {s : FlatStore} {m m' : Committed} {c : FlatWrite}
    {crash : Option Nat} {p : FlatProcess} (hup : Durable metric dimension m (.up s))
    (h : s.writeEvent c crash m = some (p, m')) : Durable metric dimension m' p := by
  obtain ⟨l, hm, hrep⟩ := hup
  have hstep := InStep.of_ledger metric hrep.disk.dims
  have hwrite := ends_write (w := World.start s (crashPlan crash)) hrep hstep c
  have hfail := how_crashPlan crash
  unfold ends at hwrite
  unfold FlatStore.writeEvent at h
  cases hrun : FlatStore.write c (World.start s (crashPlan crash)) with
  | mk o w =>
    rw [hrun] at hwrite h
    dsimp only at h
    cases o with
    | ok a =>
      obtain ⟨_, _, l', hrep', _, happly, hcommit⟩ := hwrite
      obtain ⟨rfl, hm'⟩ : FlatProcess.up w.state = p ∧ _ = m' := by simpa using h
      refine ⟨l', ?_, hrep'⟩
      rw [← hm', ← hm]
      rcases hcommit with hone | ⟨hzero, hcontents⟩
      · rw [happly, hone]
        rfl
      · rw [hcontents, hzero]
        rfl
    | err e =>
      dsimp only at h
      by_cases hroom : e = .io .fileTooLarge
      · rw [if_pos hroom] at h
        simp at h
      · rw [if_neg hroom] at h
        obtain ⟨rfl, hm'⟩ : FlatProcess.up w.state = p ∧ _ = m' := by simpa using h
        rcases hwrite with ⟨rfl, _⟩ | ⟨hhalt, _⟩
        · exact ⟨l, by rw [← hm', ← hm]; rfl, hrep⟩
        · exact absurd (hhalt.cause.2 hfail) hroom
    | crashed =>
      obtain ⟨rfl, hm'⟩ : FlatProcess.down w.state.disk = p ∧ _ = m' := by simpa using h
      rcases hwrite with ⟨_, ie, hie, _⟩ | ⟨hhalt, junk, hdisk⟩
      · simp at hie
      · -- the crash came before the commit
        have hzero : w.commits = 0 := hhalt.commits
        refine ⟨l, junk, ?_, hdisk⟩
        rw [← hm', ← hm, hzero]
        rfl
    | panicked =>
      rcases hwrite with ⟨_, ie, hie, _⟩ | ⟨hhalt, _⟩
      · simp at hie
      · exact hhalt.cause.elim

/-- Opening brings back the durable map, or leaves it on disk. -/
theorem durable_openEvent {disk : FlatDisk} {m : Committed} (crash : Option Nat)
    (hdown : Durable metric dimension m (.down disk)) :
    Durable metric dimension m (disk.openEvent metric dimension crash) := by
  obtain ⟨l, junk, hm, hdisk⟩ := hdown
  have hopen := FlatDisk.ends_openAt (w := World.start disk (crashPlan crash)) hdisk
  have hfail := how_crashPlan crash
  unfold ends at hopen
  unfold FlatDisk.openEvent
  cases hrun : FlatDisk.openAt metric dimension (World.start disk (crashPlan crash)) with
  | mk o w =>
    rw [hrun] at hopen
    cases o with
    | ok index => exact ⟨l, hm, hopen.2⟩
    | err e => exact absurd hopen.1.planned hfail
    | crashed =>
      obtain ⟨_, junk', hdisk'⟩ := hopen
      exact ⟨l, junk', hm, hdisk'⟩
    | panicked => exact hopen.1.cause.elim

/-- Nothing but an interruption keeps the files of a ledger from being
    opened. -/
theorem openAt_onDisk {junk : List Byte} {disk : FlatDisk}
    (h : OnDisk metric dimension l junk disk) :
    ∃ index w, FlatDisk.openAt metric dimension (World.start disk .none) = (.ok index, w) ∧
      Rep metric dimension l ⟨w.state, index⟩ := by
  have hopen := FlatDisk.ends_openAt (w := World.start disk .none) h
  unfold ends at hopen
  cases hrun : FlatDisk.openAt metric dimension (World.start disk .none) with
  | mk o w =>
    rw [hrun] at hopen
    cases o with
    | ok index => exact ⟨index, w, rfl, hopen.2⟩
    | err e => exact absurd hopen.1.planned (by simp [World.start, Plan.how])
    | crashed => exact absurd hopen.1.planned (by simp [World.start, Plan.how])
    | panicked => exact absurd hopen.1.planned (by simp [World.start, Plan.how])

/-- Every event keeps the invariant. -/
theorem durable_step {event : FlatEvent} {p p' : FlatProcess} {m m' : Committed}
    (hp : Durable metric dimension m p)
    (h : p.step metric dimension event m = some (p', m')) : Durable metric dimension m' p' := by
  cases p with
  | up s =>
    cases event with
    | write c crash => exact durable_writeEvent hp h
    | kill =>
      obtain ⟨rfl, rfl⟩ : FlatProcess.down s.disk = p' ∧ m = m' := by
        simpa [FlatProcess.step] using h
      obtain ⟨l, hm, hrep⟩ := hp
      exact ⟨l, [], hm, hrep.disk⟩
    | openAgain crash =>
      obtain ⟨rfl, rfl⟩ : FlatProcess.up s = p' ∧ m = m' := by
        simpa [FlatProcess.step] using h
      exact hp
  | down disk =>
    cases event with
    | write c crash =>
      obtain ⟨rfl, rfl⟩ : FlatProcess.down disk = p' ∧ m = m' := by
        simpa [FlatProcess.step] using h
      exact hp
    | kill =>
      obtain ⟨rfl, rfl⟩ : FlatProcess.down disk = p' ∧ m = m' := by
        simpa [FlatProcess.step] using h
      exact hp
    | openAgain crash =>
      obtain ⟨rfl, rfl⟩ : disk.openEvent metric dimension crash = p' ∧ m = m' := by
        simpa [FlatProcess.step] using h
      exact durable_openEvent crash hp
  | broken => exact hp.elim

theorem durable_run {events : List FlatEvent} {p p' : FlatProcess} {m m' : Committed}
    (hp : Durable metric dimension m p)
    (h : FlatProcess.run metric dimension events p m = some (p', m')) :
    Durable metric dimension m' p' := by
  induction events generalizing p m with
  | nil =>
    obtain ⟨rfl, rfl⟩ : p = p' ∧ m = m' := by simpa [FlatProcess.run] using h
    exact hp
  | cons event rest ih =>
    rw [FlatProcess.run] at h
    cases hone : p.step metric dimension event m with
    | none =>
      rw [hone] at h
      simp at h
    | some q =>
      rw [hone] at h
      exact ih (durable_step hp hone) h

/-- A store can be created, and after any life of it, crashes included, a
    running process holds exactly what was committed, and files left by a
    crash can be opened and then hold exactly what was committed. -/
theorem FlatProcess.life_safe (metric : Metric) (dimension : Dimension) :
    (FlatProcess.life metric dimension []).isSome = true ∧
    ∀ events p m, FlatProcess.life metric dimension events = some (p, m) →
      match p with
      | .up s => Holds metric dimension s m
      | .down disk => ∃ index w,
          FlatDisk.openAt metric dimension (World.start disk .none) = (.ok index, w) ∧
          Holds metric dimension ⟨w.state, index⟩ m
      | .broken => False := by
  obtain ⟨index, w, hopen, hrep⟩ := openAt_empty metric dimension
  constructor
  · simp only [FlatProcess.life, hopen, FlatProcess.run, Option.isSome_some]
  · intro events p m h
    simp only [FlatProcess.life, hopen] at h
    have hcontents : (Ledger.empty).contents = fun _ => none := rfl
    have hp := durable_run (p := .up ⟨w.state, index⟩) ⟨.empty, hcontents, hrep⟩ h
    cases p with
    | up s =>
      obtain ⟨l, rfl, hrep'⟩ := hp
      exact hrep'.holds
    | down disk =>
      obtain ⟨l, junk, rfl, hdisk⟩ := hp
      obtain ⟨index', w', hagain, hrep'⟩ := openAt_onDisk hdisk
      exact ⟨index', w', hagain, hrep'.holds⟩
    | broken => exact hp.elim

/-- Crashes inside an append, before a commit, while opening and between
    calls. -/
def crashedLife : List FlatEvent :=
  [ .write (.insert ⟨1⟩ (.single (F32.ofInt 3) (.refl true))) none,
    -- the third of eight bytes of the batch is the last one on disk
    .write (.insertBatch
      [(⟨2⟩, .single (F32.ofInt 5) (.refl true)), (⟨3⟩, .single (F32.ofInt 4) (.refl true))]) (some 3),
    .openAgain (some 1),
    .openAgain none,
    .write (.insert ⟨2⟩ (.single (F32.ofInt 6) (.refl true))) (some 5),
    .openAgain none,
    .write (.insert ⟨3⟩ (.single (F32.ofInt 7) (.refl true))) none,
    .kill,
    .openAgain none,
    .write (.remove ⟨1⟩) none ]

theorem FlatProcess.life_safe_crashed : ∃ s m,
    FlatProcess.life .dotProduct .one crashedLife = some (.up s, m) ∧
    Holds .dotProduct .one s m ∧ s.len = 1 := by
  have hlen : (FlatProcess.life .dotProduct .one crashedLife).map (fun r =>
      match r.1 with
      | .up s => some s.len
      | .down _ => none
      | .broken => none) = some (some 1) := by decide +kernel
  obtain ⟨⟨p, m⟩, hrun, hp⟩ := Option.map_eq_some_iff.mp hlen
  have hsafe := (FlatProcess.life_safe .dotProduct .one).2 crashedLife p m hrun
  cases p with
  | up s => exact ⟨s, m, hrun, hsafe, by simpa using hp⟩
  | down disk => simp at hp
  | broken => exact hsafe.elim

end EidosDB
