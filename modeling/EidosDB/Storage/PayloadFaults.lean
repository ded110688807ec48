import EidosDB.Storage.LexicalFaults
import EidosDB.Storage.PersistentPayload

/-! # Failing Steps of the Payload Store

    The calls of the persistent payload store with every step that may fail,
    as those of the lexical index, and what the two have in common: after any
    run of calls, whatever failed in it, an open store has the counters that
    opening its file again would give it.  A read changes neither the file
    nor the handle and is left out of the runs. -/

namespace EidosDB

open Bytes Effect

/-- A payload that cannot be encoded for no reason of the program's. -/
def PayloadError.rowFailure : PayloadError :=
  .serialization "The serialize buffer is full"

/-- The rows of the one table. -/
abbrev PayloadRows := OrderedTable VectorId (List Byte)

/-- Calls of the database, one after another. -/
abbrev PayloadDb.redbs {σ : Type} (n : Nat) : Effect PayloadError σ Unit := fallibles .failure n

/-- `PersistentPayloadStore::open`, step by step. -/
def PersistentPayloadStore.openSteps :
    Effect PayloadError (Option PayloadDb) PersistentPayloadStore := do
  durable .failure (fun file => some (file.getD .fresh))
  -- a transaction that only makes the table
  PayloadDb.redbs 2
  commit .failure id
  -- the table is opened and its length is read
  PayloadDb.redbs 3
  let file ← get
  pure { count := (file.getD .fresh).payloads.len }

namespace StoredPayloads

variable (codec : Codec Payload)

/-- A transaction that changes a row, and notes something of the table it
    found. -/
def editTable (edit : PayloadRows → PayloadRows × Bool) :
    Effect PayloadError StoredPayloads (PayloadRows × Bool) := do
  PayloadDb.redbs 1
  let self ← Effect.get
  transaction (self.db.payloads, false) (do
    PayloadDb.redbs 2
    modify fun table => edit table.1)

/-- `set`, step by step. -/
def setSteps (id : VectorId) (payload : Payload) : Effect PayloadError StoredPayloads Unit := do
  fallible .rowFailure
  let change ← editTable fun table =>
    (table.insert id (codec.encode payload), (table.get id).isNone)
  commit .failure (fun self => { self with db := { payloads := change.1 } })
  modify fun self =>
    if change.2 then { self with store := { count := self.store.count + 1 } } else self

/-- `remove`, step by step; the subtraction is checked. -/
def removeSteps (id : VectorId) : Effect PayloadError StoredPayloads Bool := do
  let change ← editTable fun table => (table.erase id, (table.get id).isSome)
  commit .failure (fun self => { self with db := { payloads := change.1 } })
  call fun self =>
    if change.2 then
      (checkedSub self.store.count 1).map fun count =>
        (.ok change.2, { self with store := { count := count } })
    else some (.ok change.2, self)

variable {codec} {w : World StoredPayloads}

/-! ## One call -/

/-- The counter of a store is the number of its rows. -/
def Counts (s : StoredPayloads) : Prop := s.store.count = s.db.payloads.len

/-- How a write ends: as the model of the call does, with the counter of the
    new table, or without a panic and with the store as it was. -/
def EndsCounted {α : Type} (m model : Effect PayloadError StoredPayloads α)
    (w : World StoredPayloads) : Prop :=
  ends m (fun a w' => Counts w'.state ∧ model.exec w.state = some (.ok a, w'.state))
    (fun r w' => r ≠ .panicked ∧ w'.state = w.state) w

theorem ends_editTable {α : Type} {edit : PayloadRows → PayloadRows × Bool}
    {f : PayloadRows × Bool → Effect PayloadError StoredPayloads α}
    {Q : α → World StoredPayloads → Prop}
    (hf : ∀ plan commits, ends (f (edit w.state.db.payloads)) Q
      (fun r w' => r ≠ .panicked ∧ w'.state = w.state) ⟨w.state, plan, commits⟩) :
    ends (editTable edit >>= f) Q (fun r w' => r ≠ .panicked ∧ w'.state = w.state) w := by
  unfold editTable
  rw [bind_bind]
  apply ends_fallibles
  · intro plan _
    rw [ends_bind, ends_bind, ends_get]
    have hedit : Yields (do
        PayloadDb.redbs 2
        modify fun table => edit table.1) (w.state.db.payloads, false)
        fun _ change => change = edit w.state.db.payloads :=
      yields_fallibles 2 (yields_modify rfl)
    apply ends_transaction hedit
    · rintro _ plan' commits rfl
      exact hf plan' commits
    · exact fun _ _ _ hr => ⟨hr, rfl⟩
  · exact fun _ _ _ hr => ⟨hr, rfl⟩

theorem endsCounted_setSteps (h : Counts w.state) (id : VectorId) (payload : Payload) :
    EndsCounted (setSteps codec id payload) (set codec id payload) w := by
  apply ends_fallible
  · intro plan _
    apply ends_editTable
    intro plan' commits
    apply ends_commit_bind
    · intro plan'' _
      rw [ends_modify]
      obtain ⟨⟨⟨payloads⟩, ⟨count⟩⟩, plan, commits⟩ := w
      obtain rfl : count = payloads.len := h
      cases hget : payloads.get id with
      | none =>
        refine ⟨?_, by simp [set, exec, hget, bind_apply, World.start, commit, durable]⟩
        simp [Counts, hget, OrderedTable.len_insert_new]
      | some row =>
        refine ⟨?_, by simp [set, exec, hget, bind_apply, World.start, commit, durable]⟩
        have hlen := payloads.len_erase hget
        simp [Counts, OrderedTable.len_insert, hlen]
    · exact fun _ _ _ hr => ⟨hr, rfl⟩
  · exact fun _ _ _ hr => ⟨hr, rfl⟩

theorem endsCounted_removeSteps (h : Counts w.state) (id : VectorId) :
    EndsCounted (removeSteps id) (remove id) w := by
  apply ends_editTable
  intro plan commits
  apply ends_commit_bind
  · intro plan' _
    rw [Effect.ends_call]
    obtain ⟨⟨⟨payloads⟩, ⟨count⟩⟩, plan, commits⟩ := w
    obtain rfl : count = payloads.len := h
    cases hget : payloads.get id with
    | none =>
      have hlen := payloads.len_erase_none hget
      simp [settles, Counts, hget, hlen, remove, exec, bind_apply, World.start, commit, durable]
    | some row =>
      -- a row that is taken out was counted
      have hlen := payloads.len_erase hget
      have hsub : checkedSub payloads.len 1 = some (payloads.len - 1) :=
        checkedSub_of_le (by omega)
      have hcount : payloads.len - 1 = (payloads.erase id).len := by omega
      simp [settles, Counts, hget, hsub, hcount, remove, exec, bind_apply, World.start, commit,
        durable]
  · exact fun _ _ _ hr => ⟨hr, rfl⟩

end StoredPayloads

/-! ## Opening -/

namespace PersistentPayloadStore

/-- The rows of a file. -/
def rows (file : Option PayloadDb) : PayloadRows := (file.getD .fresh).payloads

/-- Opening counts the rows, and leaves them as they were however it ends;
    only an interrupted opening fails. -/
theorem ends_openSteps {w : World (Option PayloadDb)} :
    ends openSteps
      (fun store w' => w'.state = some (w.state.getD .fresh) ∧ store.count = (rows w.state).len)
      (fun _ w' => rows w'.state = rows w.state ∧ w.plan.how ≠ none) w := by
  have hcut : ∀ (plan : Plan) (state : Option PayloadDb), plan.how = w.plan.how →
      plan.how ≠ none → rows state = rows w.state →
      rows state = rows w.state ∧ w.plan.how ≠ none :=
    fun plan state hhow hne hrows => ⟨hrows, hhow ▸ hne⟩
  unfold openSteps
  apply ends_durable_bind
  · intro plan hplan
    apply ends_fallibles
    · intro plan₁ hplan₁
      have h₁ : plan₁.how = w.plan.how := hplan₁.trans hplan
      apply ends_commit_bind
      · intro plan₂ hplan₂
        have h₂ : plan₂.how = w.plan.how := hplan₂.trans h₁
        apply ends_fallibles
        · intro plan₃ _
          rw [ends_bind, ends_get]
          exact ⟨rfl, rfl⟩
        · exact fun _ _ hne _ => hcut _ _ h₂ hne rfl
      · exact fun _ _ hne _ => hcut _ _ h₁ hne rfl
    · exact fun _ _ hne _ => hcut _ _ hplan hne rfl
  · exact fun _ _ hne _ => hcut _ _ rfl hne rfl

end PersistentPayloadStore

/-! ## Runs -/

inductive PayloadWrite where
  | set (id : VectorId) (payload : Payload)
  | remove (id : VectorId)

namespace StoredPayloads

variable (codec : Codec Payload)

def writeSteps : PayloadWrite → Effect PayloadError StoredPayloads Unit
  | .set id payload => setSteps codec id payload
  | .remove id => do
    let _ ← removeSteps id
    pure ()

/-- The file of a payload store, which may not be there, and the store. -/
def program : Program PayloadError (Option PayloadDb) PersistentPayloadStore PayloadWrite where
  openFile := PersistentPayloadStore.openSteps
  call write := zoom (fun s => ⟨s.1.getD .fresh, s.2⟩) (fun self _ => (some self.db, self.store))
    (writeSteps codec write)

variable {codec}

/-- The file is open, and the handle counts its rows. -/
def OpenOf (file : Option PayloadDb) (store : PersistentPayloadStore) : Prop :=
  ∃ db, file = some db ∧ Counts ⟨db, store⟩

/-- A call keeps the count, or fails without a panic and changes nothing. -/
theorem ends_call_program {db : PayloadDb} {store : PersistentPayloadStore}
    (h : Counts ⟨db, store⟩) (write : PayloadWrite) (plan : Plan) :
    ends ((program codec).call write) (fun _ w => OpenOf w.state.1 w.state.2)
      (fun r w => r ≠ .panicked ∧ w.state = (some db, store)) (.start (some db, store) plan) := by
  unfold program
  rw [ends_zoom]
  have hends : ends (writeSteps codec write) (fun _ w' => Counts w'.state)
      (fun r w' => r ≠ .panicked ∧ w'.state = ⟨db, store⟩) (.start ⟨db, store⟩ plan) := by
    cases write with
    | set id payload =>
      exact ends_mono (endsCounted_setSteps (w := .start ⟨db, store⟩ plan) h id payload)
        (fun _ _ hcounts => hcounts.1) fun _ _ hr => hr
    | remove id =>
      unfold writeSteps
      rw [ends_bind]
      exact ends_mono (endsCounted_removeSteps (w := .start ⟨db, store⟩ plan) h id)
        (fun _ _ hcounts => hcounts.1) fun _ _ hr => hr
  apply ends_mono hends
  · rintro _ w' hcounts
    exact ⟨_, rfl, hcounts⟩
  · rintro r w' ⟨hr, hsame⟩
    refine ⟨hr, ?_⟩
    rw [hsame]

theorem respects : (program codec).Respects (fun _ => True) OpenOf := by
  refine ⟨fun _ => trivial, ?_, ?_⟩
  · intro file plan _
    apply ends_mono (PersistentPayloadStore.ends_openSteps (w := .start file plan))
    · rintro store w' ⟨hstate, hcount⟩
      exact ⟨_, hstate, hcount⟩
    · exact fun _ _ _ => trivial
  · rintro _ store write plan ⟨db, rfl, hcounts⟩
    exact ends_mono (ends_call_program hcounts write plan) (fun _ _ hopen => hopen)
      fun _ _ hr => ⟨fun _ => hr.2, trivial⟩

/-- Opening an open file again gives the handle there is. -/
theorem exec_openFile {file : Option PayloadDb} {store : PersistentPayloadStore}
    (h : OpenOf file store) : (program codec).openFile.exec file = some (.ok store, file) := by
  obtain ⟨db, rfl, hcounts⟩ := h
  rcases exec_cases (PersistentPayloadStore.ends_openSteps (w := .start (some db) .none)) with
    ⟨store', w', hexec, hstate, hcount⟩ | ⟨r, w', -, -, hcut⟩
  · have hsame : store' = store := by
      obtain ⟨count⟩ := store
      obtain ⟨count'⟩ := store'
      exact congrArg PersistentPayloadStore.mk (hcount.trans hcounts.symm)
    rw [hstate, hsame] at hexec
    exact hexec
  · exact absurd rfl hcut

variable (codec) in
/-- A store on a file that is not there yet, after some events. -/
def runFresh (events : List (Access PayloadWrite)) :
    Session (Option PayloadDb) PersistentPayloadStore :=
  (program codec).run ⟨none, none⟩ events

theorem holds_runFresh (events : List (Access PayloadWrite)) :
    Program.Holds (fun _ => True) OpenOf (runFresh codec events) := by
  have hfresh : Program.Holds (fun _ => True) OpenOf ⟨none, none⟩ := trivial
  exact respects.run_holds hfresh events

theorem neverDrifts (events : List (Access PayloadWrite)) :
    (program codec).NeverDrifts PersistentPayloadStore.rows (runFresh codec events) := by
  apply respects.neverDrifts (holds_runFresh events)
  · exact exec_openFile
  · intro file plan _
    exact ends_mono (PersistentPayloadStore.ends_openSteps (w := .start file plan))
      (fun _ _ _ => trivial) fun _ _ hr => hr.1

/-- The next write does not panic: what it subtracts is there. -/
def NeverUnderflows (codec : Codec Payload)
    (s : Session (Option PayloadDb) PersistentPayloadStore) : Prop :=
  ∀ write plan, ((program codec).step s (.call write plan)).1 ≠ some .panicked

theorem neverUnderflows (events : List (Access PayloadWrite)) :
    NeverUnderflows codec (runFresh codec events) := by
  have hholds : Program.Holds (fun _ => True) OpenOf (runFresh codec events) :=
    holds_runFresh events
  generalize runFresh codec events = s at hholds
  obtain ⟨file, handle⟩ := s
  intro write plan hpanic
  cases handle with
  | none => cases hpanic
  | some store =>
    obtain ⟨db, rfl, hcounts⟩ := hholds
    have hends : ends ((program codec).call write) (fun _ _ => True) (fun r _ => r ≠ .panicked)
        (.start (some db, store) plan) :=
      ends_mono (ends_call_program hcounts write plan) (fun _ _ _ => trivial) fun _ _ hr => hr.1
    exact Program.callEvent_ne_panicked hends (Option.some.inj hpanic)

end StoredPayloads

/-- **The cached counters never drift.**  After every run of openings and
    writes, each of whose steps may fail, on the file of a lexical index and on
    that of a payload store: an open handle is the one that a fresh opening
    would compute, a call that fails leaves the tables as they were, and the
    next write takes no more away from a counter than there is. -/
theorem counters_never_drift (U : Unicode) (codecs : LexicalCodecs) (codec : Codec Payload) :
    (∀ events,
      (LexicalStore.program U codecs).NeverDrifts PersistentLexicalIndex.tables
          (LexicalStore.runFresh U codecs events) ∧
        LexicalStore.NeverUnderflows codecs (LexicalStore.runFresh U codecs events)) ∧
    ∀ events,
      (StoredPayloads.program codec).NeverDrifts PersistentPayloadStore.rows
          (StoredPayloads.runFresh codec events) ∧
        StoredPayloads.NeverUnderflows codec (StoredPayloads.runFresh codec events) := by
  constructor
  · intro events
    exact ⟨LexicalStore.neverDrifts events, LexicalStore.neverUnderflows events⟩
  · intro events
    exact ⟨StoredPayloads.neverDrifts events, StoredPayloads.neverUnderflows events⟩

end EidosDB
