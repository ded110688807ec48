import EidosDB.Storage.HnswReload

/-! # Crash Safety of HNSW Writes

    A process inserts into a store and removes from it until it crashes, at
    any of its durable steps or between two calls; the store is opened
    again, which may crash as well.  Beside the store runs an index in
    memory that takes part in a write from the moment its transaction took
    effect.  A vector appended before a crash is cut off by the next
    opening, so record `i` stays the vector of node `i`. -/

namespace EidosDB

open Bytes Effect HnswIndex

/-! ## Processes and crashes -/

/-- A write to a store. -/
inductive HnswWrite where
  | insert (id : VectorId) (embedding : Embedding)
  | remove (id : VectorId)

namespace HnswWrite

variable (pc : HnswCodec) (P : Platform) (levelFloat : LevelFloat)

def run : HnswWrite → Effect StorageError HnswStore Unit
  | .insert id embedding => HnswStore.writeThroughInsert pc P levelFloat id embedding
  | .remove id => do
    let _ ← HnswStore.writeThroughRemove pc id
    pure ()

/-- The same write on an index in memory. -/
def apply : HnswWrite → HnswIndex → HnswIndex
  | .insert id embedding, g => ((g.insertTracked P levelFloat id embedding).map Prod.snd).getD g
  | .remove id, g => (g.removeTracked id).2

/-- Whether the index in memory accepts the write.  Removals are never
    refused. -/
def accepted : HnswWrite → HnswIndex → Bool
  | .insert id embedding, g =>
    match g.insertTracked P levelFloat id embedding with
    | some (.ok _, _) => true
    | _ => false
  | .remove _, _ => true

end HnswWrite

/-- A store with a process at work on it, the files a crash left behind, or a
    store that could not be opened again. -/
inductive HnswProcess where
  | up (s : HnswStore)
  | down (disk : HnswDisk)
  | broken

inductive HnswEvent where
  /-- A write, cut short by a crash or not. -/
  | write (levelFloat : LevelFloat) (c : HnswWrite) (crash : Option Nat)
  /-- A crash between two calls. -/
  | kill
  /-- The directory is opened, cut short by a crash or not. -/
  | openAgain (crash : Option Nat)

section Processes

variable (pc : HnswCodec) (P : Platform)

/-- A write by a running process, and the index in memory after it.  `none`
    stands for an insert that is not accepted, or a file system without room
    for the file. -/
def HnswStore.writeEvent (levelFloat : LevelFloat) (c : HnswWrite) (crash : Option Nat)
    (s : HnswStore) (g : HnswIndex) : Option (HnswProcess × HnswIndex) :=
  let r := c.run pc P levelFloat (World.start s (crashPlan crash))
  let g' := if r.2.commits = 0 then g else c.apply P levelFloat g
  if !c.accepted P levelFloat g then none
  else match r.1 with
    | .ok _ => some (.up r.2.state, g')
    | .err e => if e = .io .fileTooLarge then none else some (.up r.2.state, g')
    | .crashed => some (.down r.2.state.disk, g')
    | .panicked => some (.broken, g')

/-- An opening of the files left behind. -/
def HnswDisk.openEvent (crash : Option Nat) (disk : HnswDisk) : HnswProcess :=
  match HnswDisk.openAt pc (World.start disk (crashPlan crash)) with
  | (.ok index, w) => .up { disk := w.state, index := index }
  | (.err _, _) => .broken
  | (.crashed, w) => .down w.state
  | (.panicked, _) => .broken

namespace HnswProcess

/-- One event; an event that does not fit the process changes nothing. -/
def step (event : HnswEvent) (p : HnswProcess) (g : HnswIndex) : Option (HnswProcess × HnswIndex) :=
  match event, p with
  | .write levelFloat c crash, .up s => s.writeEvent pc P levelFloat c crash g
  | .kill, .up s => some (.down s.disk, g)
  | .openAgain crash, .down disk => some (disk.openEvent pc crash, g)
  | _, p => some (p, g)

def run : List HnswEvent → HnswProcess → HnswIndex → Option (HnswProcess × HnswIndex)
  | [], p, g => some (p, g)
  | event :: rest, p, g => (p.step pc P event g).bind fun r => run rest r.1 r.2

end HnswProcess

end Processes


/-! ## The invariant of a life -/

variable {pc : HnswCodec} {P : Platform} {config : HnswConfig} {dimension : Dimension}
  {g : HnswIndex}

/-- The vectors on disk are those of the nodes, one for each node. -/
def Aligned (g : HnswIndex) (recs : List Embedding) : Prop :=
  g.graph.nodes.map Node.embedding = recs

theorem Aligned.reembedded {recs : List Embedding} (h : Aligned g recs) :
    g.reembedded recs = g := by
  subst h
  have hgraph : g.graph.reembedded (g.graph.nodes.map Node.embedding) = g.graph := by
    apply HnswGraph.reembedded_self
    intro n node e hnode he
    rw [List.getElem?_map, hnode, Option.map_some] at he
    exact (Option.some.inj he).symm
  unfold HnswIndex.reembedded
  rw [hgraph]

theorem Aligned.take {recs : List Embedding} (h : Aligned g recs) :
    recs.take g.graph.nodeCount = recs := by
  subst h
  rw [HnswGraph.nodeCount, ← List.length_map Node.embedding, List.take_length]

/-- What is durable is the index in memory, whether or not a process is up. -/
def HnswProcess.Durable (pc : HnswCodec) (config : HnswConfig) (dimension : Dimension)
    (g : HnswIndex) : HnswProcess → Prop
  | .up s => s.index.graph = g ∧ ∃ recs, Aligned g recs ∧ HnswRep pc config dimension recs s
  | .down disk => ∃ recs junk, Aligned g recs ∧ HnswOnDisk pc config dimension g recs junk disk
  | .broken => False

namespace HnswProcess

/-- An accepted insert takes effect in the store and in memory, or is cut
    short before it does. -/
theorem ends_insert {recs : List Embedding} {w : World HnswStore}
    (hrep : HnswRep pc config dimension recs w.state) (halign : Aligned w.state.index.graph recs)
    (levelFloat : LevelFloat) (id : VectorId) (e : Embedding)
    (haccepted : (HnswWrite.insert id e).accepted P levelFloat w.state.index.graph = true) :
    ends ((HnswWrite.insert id e).run pc P levelFloat)
      (fun _ w' => w'.commits = w.commits + 1 ∧
        Durable pc config dimension
          ((HnswWrite.insert id e).apply P levelFloat w.state.index.graph) (.up w'.state))
      (fun r w' => Halted w r w' ∧
        Durable pc config dimension w.state.index.graph (.down w'.state.disk)) w := by
  apply ends_mono (HnswStore.ends_insert hrep levelFloat id e)
  · intro _ w' hend
    obtain ⟨hcommits, _, hrep', _, delta, level, hcall, hi⟩ := hend
    have happly : (HnswWrite.insert id e).apply P levelFloat w.state.index.graph =
        w'.state.index.graph := by
      rw [HnswWrite.apply, hcall]
      rfl
    refine ⟨hcommits, happly.symm, _, ?_, hrep'⟩
    rw [happly, Aligned, hi.nodes_map Node.embedding (fun _ => rfl), halign]
    rfl
  · intro r w' hend
    rcases hend with hrefused | ⟨hhalt, junk, hdisk⟩
    · -- the index in memory would have refused the insert as well
      exfalso
      obtain ⟨result, g', hcall, houtcome, _⟩ :=
        insertTracked_spec (P := P) hrep.disk.inv levelFloat id e
      rw [HnswWrite.accepted, hcall] at haccepted
      cases houtcome with
      | mismatch _ => simp at haccepted
      | duplicate _ _ _ => simp at haccepted
      | accepted hdim _ _ _ =>
        rw [hrep.disk.inv.dimension_eq] at hdim
        cases hrefused with
        | torn _ hwidth => exact hwidth (by rw [hdim, Nat.mod_self])
        | rejected _ hcall' _ _ _ =>
          rw [hcall] at hcall'
          simp at hcall'
    · exact ⟨hhalt, recs, junk, halign, hdisk⟩

/-- A removal takes effect in both, is of an id that neither has, or is cut
    short. -/
theorem ends_remove {recs : List Embedding} {w : World HnswStore}
    (hrep : HnswRep pc config dimension recs w.state) (halign : Aligned w.state.index.graph recs)
    (levelFloat : LevelFloat) (id : VectorId) :
    ends ((HnswWrite.remove id).run pc P levelFloat)
      (fun _ w' => (w'.commits = w.commits + 1 ∨ w'.commits = w.commits ∧
          (HnswWrite.remove id).apply P levelFloat w.state.index.graph = w.state.index.graph) ∧
        Durable pc config dimension
          ((HnswWrite.remove id).apply P levelFloat w.state.index.graph) (.up w'.state))
      (fun r w' => Halted w r w' ∧
        Durable pc config dimension w.state.index.graph (.down w'.state.disk)) w := by
  rw [HnswWrite.run, ends_bind]
  apply ends_mono (HnswStore.ends_remove hrep id)
  · intro existed w' hend
    obtain ⟨hcommits, _, hexisted, hgraph, hrep'⟩ := hend
    rw [ends_pure]
    refine ⟨?_, hgraph, recs, ?_, hrep'⟩
    · cases existed with
      | true => exact Or.inl hcommits
      | false =>
        refine Or.inr ⟨hcommits, ?_⟩
        have houtcome := removeTracked_outcome hrep.disk.inv id
        have hnone : w.state.index.graph.graph.live id = none := by simpa using hexisted.symm
        rw [HnswWrite.apply]
        generalize w.state.index.graph.removeTracked id = out at houtcome
        obtain ⟨result, g'⟩ := out
        cases houtcome with
        | absent => rfl
        | removed hlive =>
          rw [hnone] at hlive
          simp at hlive
    · rw [HnswWrite.apply, Aligned, map_embedding_removeTracked hrep.disk.inv id, halign]
  · intro r w' hend
    obtain ⟨hstop, hdisk⟩ := hend
    exact ⟨hstop.toHalted, recs, [], halign, hdisk⟩

/-- Either kind of write. -/
theorem ends_write {recs : List Embedding} {w : World HnswStore}
    (hrep : HnswRep pc config dimension recs w.state) (halign : Aligned w.state.index.graph recs)
    {levelFloat : LevelFloat} {c : HnswWrite}
    (haccepted : c.accepted P levelFloat w.state.index.graph = true) :
    ends (c.run pc P levelFloat)
      (fun _ w' => (w'.commits = w.commits + 1 ∨ w'.commits = w.commits ∧
          c.apply P levelFloat w.state.index.graph = w.state.index.graph) ∧
        Durable pc config dimension (c.apply P levelFloat w.state.index.graph) (.up w'.state))
      (fun r w' => Halted w r w' ∧
        Durable pc config dimension w.state.index.graph (.down w'.state.disk)) w := by
  cases c with
  | insert id e =>
    apply ends_mono (ends_insert hrep halign levelFloat id e haccepted)
    · intro _ w' hend
      exact ⟨Or.inl hend.1, hend.2⟩
    · intro r w' hend
      exact hend
  | remove id => exact ends_remove hrep halign levelFloat id

/-- A write keeps the files in step with the index in memory, wherever it is
    cut short. -/
theorem durable_writeEvent {s : HnswStore} {g' : HnswIndex} {levelFloat : LevelFloat}
    {c : HnswWrite} {crash : Option Nat} {p : HnswProcess}
    (hup : Durable pc config dimension g (.up s))
    (h : s.writeEvent pc P levelFloat c crash g = some (p, g')) :
    Durable pc config dimension g' p := by
  obtain ⟨rfl, recs, halign, hrep⟩ := hup
  unfold HnswStore.writeEvent at h
  dsimp only at h
  cases haccepted : c.accepted P levelFloat s.index.graph with
  | false =>
    rw [haccepted] at h
    simp at h
  | true =>
    have hwrite := ends_write (w := World.start s (crashPlan crash)) hrep halign haccepted
    have hfail := how_crashPlan crash
    unfold ends at hwrite
    rw [haccepted] at h
    cases hrun : c.run pc P levelFloat (World.start s (crashPlan crash)) with
    | mk o w =>
      rw [hrun] at hwrite h
      simp only [Bool.not_true, Bool.false_eq_true, if_false] at h
      cases o with
      | ok a =>
        obtain ⟨hcommit, hdurable⟩ := hwrite
        obtain ⟨rfl, rfl⟩ : HnswProcess.up w.state = p ∧ _ = g' := by simpa using h
        rcases hcommit with hone | ⟨hzero, hsame⟩
        · -- the transaction took effect
          rw [hone]
          exact hdurable
        · rw [hzero]
          exact hsame ▸ hdurable
      | err e =>
        -- without a failure in store, only a full file system stops a write
        exact absurd (hwrite.1.cause.2 hfail) (by
          intro hroom
          dsimp only at h
          rw [if_pos hroom] at h
          simp at h)
      | crashed =>
        obtain ⟨hhalt, hdurable⟩ := hwrite
        obtain ⟨rfl, rfl⟩ : HnswProcess.down w.state.disk = p ∧ _ = g' := by simpa using h
        rw [hhalt.commits]
        exact hdurable
      | panicked => exact hwrite.1.cause.elim

/-- Opening brings back the index in memory, or leaves its files. -/
theorem durable_openEvent {disk : HnswDisk} (crash : Option Nat)
    (hdown : Durable pc config dimension g (.down disk)) :
    Durable pc config dimension g (disk.openEvent pc crash) := by
  obtain ⟨recs, junk, halign, hdisk⟩ := hdown
  have hopen := HnswDisk.ends_openAt (w := World.start disk (crashPlan crash)) hdisk
  have hfail := how_crashPlan crash
  unfold ends at hopen
  unfold HnswDisk.openEvent
  rw [halign.take, halign.reembedded] at hopen
  cases hrun : HnswDisk.openAt pc (World.start disk (crashPlan crash)) with
  | mk o w =>
    rw [hrun] at hopen
    cases o with
    | ok index => exact ⟨hopen.2.1, recs, hopen.2.1.symm ▸ halign, hopen.2.2⟩
    | err e => exact absurd hopen.1.planned hfail
    | crashed =>
      obtain ⟨_, junk', hdisk'⟩ := hopen
      exact ⟨recs, junk', halign, hdisk'⟩
    | panicked => exact hopen.1.cause.elim

/-- Every event keeps the invariant. -/
theorem durable_step {event : HnswEvent} {p p' : HnswProcess} {g' : HnswIndex}
    (hp : Durable pc config dimension g p) (h : p.step pc P event g = some (p', g')) :
    Durable pc config dimension g' p' := by
  cases p with
  | up s =>
    cases event with
    | write levelFloat c crash => exact durable_writeEvent hp h
    | kill =>
      obtain ⟨rfl, rfl⟩ : HnswProcess.down s.disk = p' ∧ g = g' := by simpa [step] using h
      obtain ⟨rfl, recs, halign, hrep⟩ := hp
      exact ⟨recs, [], halign, hrep.disk⟩
    | openAgain crash =>
      obtain ⟨rfl, rfl⟩ : HnswProcess.up s = p' ∧ g = g' := by simpa [step] using h
      exact hp
  | down disk =>
    cases event with
    | write levelFloat c crash =>
      obtain ⟨rfl, rfl⟩ : HnswProcess.down disk = p' ∧ g = g' := by simpa [step] using h
      exact hp
    | kill =>
      obtain ⟨rfl, rfl⟩ : HnswProcess.down disk = p' ∧ g = g' := by simpa [step] using h
      exact hp
    | openAgain crash =>
      obtain ⟨rfl, rfl⟩ : disk.openEvent pc crash = p' ∧ g = g' := by simpa [step] using h
      exact durable_openEvent crash hp
  | broken => exact hp.elim

theorem durable_run {events : List HnswEvent} {p p' : HnswProcess} {g' : HnswIndex}
    (hp : Durable pc config dimension g p) (h : p.run pc P events g = some (p', g')) :
    Durable pc config dimension g' p' := by
  induction events generalizing p g with
  | nil =>
    cases h
    exact hp
  | cons event rest ih =>
    rw [run, Option.bind_eq_some_iff] at h
    obtain ⟨⟨q, g₁⟩, hone, hrest⟩ := h
    exact ih (durable_step hp hone) hrest

/-- A store just made is in step with its own graph. -/
theorem durable_made {disk : HnswDisk} (hempty : disk.db.NoNodes) {start : HnswStart}
    {s : HnswStore} (hmade : disk.made pc P config dimension start = some s) :
    Durable pc config dimension s.index.graph (.up s) := by
  obtain ⟨hrep, hnodes, _⟩ := HnswDisk.made_rep hempty hmade
  exact ⟨rfl, _, hnodes, hrep⟩

theorem made_create {disk : HnswDisk} (hempty : disk.db.NoNodes) {s : HnswStore}
    (hmade : disk.made pc P config dimension .create = some s) :
    s.index.graph = HnswIndex.new config dimension := by
  have hcreate : ends (HnswDisk.create pc config dimension) _ _ (World.start disk .none) :=
    HnswDisk.ends_create hempty
  unfold ends at hcreate
  unfold HnswDisk.made at hmade
  cases hrun : HnswDisk.make pc P config dimension .create (World.start disk .none) with
  | mk o w =>
    rw [show HnswDisk.create pc config dimension (World.start disk .none) = (o, w) from hrun]
      at hcreate
    rw [hrun] at hmade
    cases o with
    | ok index =>
      cases hmade
      exact hcreate.2.1
    | err e => simp at hmade
    | crashed => simp at hmade
    | panicked => simp at hmade

/-- A running process has the index `g`, and files left by a crash can be
    opened and give it. -/
def Yields (pc : HnswCodec) (g : HnswIndex) : HnswProcess → Prop
  | .up s => s.index.graph = g
  | .down disk => ∃ index w,
      HnswDisk.openAt pc (World.start disk .none) = (.ok index, w) ∧ index.graph = g
  | .broken => False

theorem Durable.yields {p : HnswProcess} (h : Durable pc config dimension g p) :
    p.Yields pc g := by
  cases p with
  | up s => exact h.1
  | down disk =>
    -- an opening that nothing interrupts ends with a process
    have hopen := durable_openEvent none h
    obtain ⟨recs, junk, halign, hdisk⟩ := h
    have hends := HnswDisk.ends_openAt (w := World.start disk .none) hdisk
    unfold ends at hends
    unfold HnswDisk.openEvent at hopen
    cases hrun : HnswDisk.openAt pc (World.start disk .none) with
    | mk o w =>
      rw [show HnswDisk.openAt pc (World.start disk (crashPlan none)) = (o, w) from hrun] at hopen
      rw [hrun] at hends
      cases o with
      | ok index => exact ⟨index, w, hrun, hopen.1⟩
      | err e => exact hopen.elim
      | crashed => exact absurd hends.1.planned (by simp [World.start, Plan.how])
      | panicked => exact hopen.elim
  | broken => exact h.elim

/-- **Crash safety.**  After any life of a store, crashes included, a running
    process has exactly the index in memory that took part in the writes
    whose transaction took effect, and files left by a crash can be opened
    and give that index. -/
theorem life_exact {disk : HnswDisk} (hempty : disk.db.NoNodes) {start : HnswStart}
    {s : HnswStore} (hmade : disk.made pc P config dimension start = some s) :
    (start = .create → s.index.graph = HnswIndex.new config dimension) ∧
    ∀ events p g, (HnswProcess.up s).run pc P events s.index.graph = some (p, g) →
      p.Yields pc g := by
  constructor
  · rintro rfl
    exact made_create hempty hmade
  · intro events p g hrun
    exact (durable_run (durable_made hempty hmade) hrun).yields

end HnswProcess

/-- Crashes inside an append, between an append and its transaction, inside a
    removal, while opening and between calls. -/
def crashedInserts : List HnswEvent :=
  [ .write .base2 (.insert ⟨1⟩ (.single (F32.ofInt 3) (.refl true))) none,
    -- the second of four bytes of the vector is the last one on disk
    .write .base2 (.insert ⟨2⟩ (.single (F32.ofInt 5) (.refl true))) (some 2),
    .openAgain (some 0),
    .openAgain none,
    .write .base2 (.insert ⟨2⟩ (.single (F32.ofInt 6) (.refl true))) (some 5),
    .openAgain none,
    .write .base2 (.insert ⟨3⟩ (.single (F32.ofInt 7) (.refl true))) none,
    .write .base2 (.remove ⟨1⟩) (some 0),
    .openAgain none,
    .write .base2 (.remove ⟨3⟩) none,
    .kill,
    .openAgain none,
    .write .base2 (.insert ⟨4⟩ (.single (F32.ofInt 8) (.refl true))) none ]

theorem HnswProcess.life_exact_crashed : ∃ s p g,
    HnswDisk.empty.made .postcard .small (.degreeTwo 50) .one .create = some s ∧
    (HnswProcess.up s).run .postcard .small crashedInserts s.index.graph = some (p, g) ∧
    p.Yields .postcard g ∧ g.graph.nodeCount = 3 ∧ g.graph.liveCount = 2 := by
  have hcount : ((HnswDisk.empty.made .postcard .small (.degreeTwo 50) .one .create).bind fun s =>
      ((HnswProcess.up s).run .postcard .small crashedInserts s.index.graph).map fun r =>
        (r.2.graph.nodeCount, r.2.graph.liveCount)) = some (3, 2) := by
    decide +kernel
  obtain ⟨s, hmade, hrun⟩ := Option.bind_eq_some_iff.mp hcount
  obtain ⟨⟨p, g⟩, hrun, heq⟩ := Option.map_eq_some_iff.mp hrun
  rw [Prod.mk.injEq] at heq
  exact ⟨s, p, g, hmade, hrun,
    (HnswProcess.life_exact (fun _ => rfl) hmade).2 crashedInserts p g hrun, heq.1, heq.2⟩

end EidosDB
