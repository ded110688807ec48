import EidosDB.Storage.HnswSteps

/-! # Reloading an HNSW Store

    After every call the tables hold the snapshot of the graph in memory, so
    opening rebuilds the same structure.  The vectors are another matter:
    node `i` is given record `i`, and records are never moved.  A rejected
    insert leaves a record that no node has, and a compaction renumbers the
    nodes but not the records.  A reload is faithful as long as every write
    puts its nodes where their records are. -/

namespace EidosDB

open Bytes Effect HnswIndex

variable {pc : HnswCodec} {P : Platform} {config : HnswConfig} {dimension : Dimension}
  {recs : List Embedding} {s s' : HnswStore}

/-! ## Calls -/

/-- What a call does to the graph and to the list of records. -/
inductive HnswChange (dimension : Dimension) (g : HnswIndex) (recs : List Embedding) :
    HnswOp → Outcome StorageError HnswReply → HnswIndex → List Embedding → Prop where
  | inserted {id : VectorId} {e : Embedding} {level : Nat} {delta : InsertDelta} {g' : HnswIndex}
      (hdim : e.dimension = dimension.get) (hid : g.graph.live id = none)
      (hinserted : Inserted g id e level delta g') :
      HnswChange dimension g recs (.insert id e) (.ok .done) g' (recs ++ [e])
  | refused {id : VectorId} {e : Embedding} {error : StorageError} (news : List Embedding)
      (hcause : e.dimension ≠ dimension.get ∨ (g.graph.live id).isSome) :
      HnswChange dimension g recs (.insert id e) (.err error) g (recs ++ news)
  | removed (id : VectorId) :
      HnswChange dimension g recs (.remove id) (.ok (.removed (g.graph.live id).isSome))
        (g.removeTracked id).2 recs
  | compacted {g' : HnswIndex}
      (hnodes : g'.graph.nodes.map (fun n => (n.id, n.embedding)) = g.graph.points)
      (hpoints : g'.graph.points = g.graph.points) :
      HnswChange dimension g recs .compact (.ok .done) g' recs

/-- The outcome of a halted call. -/
def haltOutcome {α : Type} : Halt StorageError → Outcome StorageError α
  | .err e => .err e
  | .crashed => .crashed
  | .panicked => .panicked

namespace HnswStore

/-- A call ends as the graph decides, unless the file system stops it. -/
theorem ends_call {w : World HnswStore} (hrep : HnswRep pc config dimension recs w.state)
    (levelFloat : LevelFloat) (op : HnswOp) :
    ends (call pc P levelFloat op)
      (fun reply w' => ∃ recs', HnswRep pc config dimension recs' w'.state ∧
        HnswChange dimension w.state.index.graph recs op (.ok reply) w'.state.index.graph recs')
      (fun r w' => (∃ recs', HnswRep pc config dimension recs' w'.state ∧
          HnswChange dimension w.state.index.graph recs op (haltOutcome r) w'.state.index.graph
            recs') ∨
        Interrupted w.plan.how r) w := by
  have hinv := hrep.disk.inv
  cases op with
  | insert id e =>
    rw [call, ends_bind]
    apply ends_mono (ends_insert hrep levelFloat id e)
    · intro _ w' hend'
      obtain ⟨_, _, hrep', hdim, delta, level, hcall, hi⟩ := hend'
      refine ⟨_, hrep', .inserted hdim ?_ hi⟩
      -- an id in use would have been refused
      obtain ⟨result, g', hcall', houtcome, _⟩ := insertTracked_spec (P := P) hinv levelFloat id e
      rw [hcall] at hcall'
      cases hcall'
      cases houtcome with
      | accepted _ hid _ _ => exact hid
    · intro r w' h
      rcases h with hrefused | ⟨hhalt, _⟩
      · cases hrefused with
        | torn message hwidth =>
          refine Or.inl ⟨recs, hrep, ?_⟩
          have hne : e.dimension ≠ dimension.get := by
            intro heq
            rw [heq, Nat.mod_self] at hwidth
            exact hwidth rfl
          have hchange : HnswChange dimension w.state.index.graph recs (.insert id e)
              (.err (.corruption message)) w.state.index.graph (recs ++ []) :=
            .refused [] (Or.inl hne)
          rwa [List.append_nil] at hchange
        | @rejected error _ news hcall hlater hgraph hrep' =>
          refine Or.inl ⟨_, hrep', ?_⟩
          rw [hgraph]
          apply HnswChange.refused
          obtain ⟨result, g', hcall', houtcome, _⟩ :=
            insertTracked_spec (P := P) hinv levelFloat id e
          rw [hcall] at hcall'
          cases hcall'
          cases houtcome with
          | mismatch hdim => exact Or.inl (by rwa [hinv.dimension_eq] at hdim)
          | duplicate _ n hlive => exact Or.inr (by rw [hlive]; rfl)
      · exact Or.inr hhalt.cause
  | remove id =>
    rw [call, ends_bind]
    apply ends_mono (ends_remove hrep id)
    · intro existed w' hend'
      obtain ⟨_, _, hexisted, hgraph, hrep'⟩ := hend'
      refine ⟨recs, hrep', ?_⟩
      rw [hgraph, hexisted]
      exact .removed id
    · intro r w' hend'
      obtain ⟨hstop, _⟩ := hend'
      exact Or.inr hstop.cause
  | compact =>
    rw [call, ends_bind]
    apply ends_mono (ends_compact hrep levelFloat)
    · intro _ w' hend'
      obtain ⟨_, hrep', _, hnodes, hpoints⟩ := hend'
      exact ⟨recs, hrep', .compacted hnodes hpoints⟩
    · intro r w' hend'
      obtain ⟨hstop, _⟩ := hend'
      exact Or.inr hstop.cause

/-- One call of a run. -/
theorem answer_cases (hrep : HnswRep pc config dimension recs s) {c : LevelFloat × HnswOp}
    {o : Outcome StorageError HnswReply} (h : s.answer pc P c = some (o, s')) :
    ∃ recs', HnswRep pc config dimension recs' s' ∧
      HnswChange dimension s.index.graph recs c.2 o s'.index.graph recs' := by
  have hcall := ends_call (P := P) (w := World.start s .none) hrep c.1 c.2
  unfold ends at hcall
  unfold answer at h
  cases hrun : call pc P c.1 c.2 (World.start s .none) with
  | mk out w =>
    rw [hrun] at hcall h
    dsimp only at h
    split at h
    · exact absurd h (by simp)
    · next hroom =>
      cases h
      cases o with
      | ok reply => exact hcall
      | err e =>
        rcases hcall with hstep | hcause
        · exact hstep
        · exact absurd (congrArg Outcome.err (hcause.2 nofun)) hroom
      | crashed =>
        rcases hcall with hstep | hcause
        · exact hstep
        · exact absurd hcause (by simp [World.start, Plan.how, Interrupted])
      | panicked =>
        rcases hcall with hstep | hcause
        · exact hstep
        · exact hcause.elim

theorem answers_cons {c : LevelFloat × HnswOp} {rest : List (LevelFloat × HnswOp)}
    {as : List (Outcome StorageError HnswReply)} (h : s.answers pc P (c :: rest) = some (as, s')) :
    ∃ o s₁ as₁, s.answer pc P c = some (o, s₁) ∧ s₁.answers pc P rest = some (as₁, s') ∧
      as = o :: as₁ := by
  rw [answers, Option.bind_eq_some_iff] at h
  obtain ⟨⟨o, s₁⟩, hone, hrest⟩ := h
  obtain ⟨⟨as₁, s₂⟩, hrest', heq⟩ := Option.map_eq_some_iff.mp hrest
  cases heq
  exact ⟨o, s₁, as₁, hone, hrest', rfl⟩

theorem answers_rep (hrep : HnswRep pc config dimension recs s)
    {calls : List (LevelFloat × HnswOp)} {as : List (Outcome StorageError HnswReply)}
    (h : s.answers pc P calls = some (as, s')) :
    ∃ recs', HnswRep pc config dimension recs' s' := by
  induction calls generalizing s recs as with
  | nil =>
    cases h
    exact ⟨recs, hrep⟩
  | cons c rest ih =>
    obtain ⟨o, s₁, as₁, hone, hrest, -⟩ := answers_cons h
    obtain ⟨recs₁, hrep₁, -⟩ := answer_cases hrep hone
    exact ih hrep₁ hrest

end HnswStore

/-- The points a store starts with. -/
def HnswStart.points : HnswStart → List (VectorId × Embedding)
  | .create => []
  | .bulkLoad _ points => points

/-- A store just made: one live node and one record for each point loaded. -/
theorem HnswDisk.made_rep {disk : HnswDisk} (hempty : disk.db.NoNodes) {start : HnswStart}
    (h : disk.made pc P config dimension start = some s) :
    HnswRep pc config dimension (start.points.map Prod.snd) s ∧
      s.index.graph.graph.nodes.map Node.embedding = start.points.map Prod.snd ∧
      s.index.graph.graph.points = start.points := by
  unfold made at h
  cases hrun : make pc P config dimension start (World.start disk .none) with
  | mk o w =>
    rw [hrun] at h
    cases o with
    | ok index =>
      cases h
      cases start with
      | create =>
        have hcreate : ends (create pc config dimension) _ _ (World.start disk .none) :=
          ends_create hempty
        unfold ends at hcreate
        rw [show create pc config dimension (World.start disk .none) = (.ok index, w) from hrun]
          at hcreate
        obtain ⟨_, hgraph, hrep⟩ := hcreate
        refine ⟨hrep, ?_, ?_⟩
        · dsimp only
          rw [hgraph]
          rfl
        · dsimp only
          rw [hgraph]
          rfl
      | bulkLoad levelFloat points =>
        have hload : ends (bulkLoad pc P levelFloat config dimension points) _ _
            (World.start disk .none) := ends_bulkLoad hempty levelFloat points
        unfold ends at hload
        rw [show bulkLoad pc P levelFloat config dimension points (World.start disk .none) =
          (.ok index, w) from hrun] at hload
        exact hload
    | err e => simp at h
    | crashed => simp at h
    | panicked => simp at h

/-- **The tables follow the graph.**  In a directory without rows of nodes,
    after every call of a run the tables rebuild the snapshot of the graph in
    memory, although an insert rewrites the rows of the nodes it touched and
    a removal one row. -/
theorem HnswStore.tables_rebuild {disk : HnswDisk} (hempty : disk.db.NoNodes) {start : HnswStart}
    (hmade : disk.made pc P config dimension start = some s)
    {calls : List (LevelFloat × HnswOp)} {as : List (Outcome StorageError HnswReply)}
    (hrun : s.answers pc P calls = some (as, s')) :
    s'.disk.db.snapshot pc = .ok s'.index.graph.snapshot := by
  obtain ⟨recs, hrep⟩ := answers_rep (HnswDisk.made_rep hempty hmade).1 hrun
  obtain ⟨db, hdb, hholds⟩ := hrep.disk.catalog
  rw [HnswDisk.db, hdb, Option.getD_some]
  exact hholds.snapshot (snapshot_shaped hrep.disk.inv)

/-- A rejected insert, a removal and a compaction after two inserts. -/
def rewriteCalls : List (LevelFloat × HnswOp) :=
  [ (.base2, .insert ⟨1⟩ (.single (F32.ofInt 3) (.refl true))),
    (.base2, .insert ⟨2⟩ (.single (F32.ofInt 5) (.refl true))),
    (.base2, .insert ⟨2⟩ (.single (F32.ofInt 6) (.refl true))),
    (.base2, .remove ⟨1⟩),
    (.base2, .compact),
    (.base2, .insert ⟨1⟩ (.single (F32.ofInt 4) (.refl true))) ]

theorem HnswStore.tables_rebuild_rewrite : ∃ s as s',
    HnswDisk.empty.made .postcard .small (.degreeTwo 50) .one .create = some s ∧
    s.answers .postcard .small rewriteCalls = some (as, s') ∧
    s'.index.graph.graph.nodeCount = 2 ∧
    s'.disk.db.snapshot .postcard = .ok s'.index.graph.snapshot := by
  have hcount : ((HnswDisk.empty.made .postcard .small (.degreeTwo 50) .one .create).bind fun s =>
      (s.answers .postcard .small rewriteCalls).map fun r => r.2.index.graph.graph.nodeCount) =
        some 2 := by decide +kernel
  obtain ⟨s, hmade, hrun⟩ := Option.bind_eq_some_iff.mp hcount
  obtain ⟨⟨as, s'⟩, hrun, hnodes⟩ := Option.map_eq_some_iff.mp hrun
  exact ⟨s, as, s', hmade, hrun, hnodes, tables_rebuild (fun _ => rfl) hmade hrun⟩

end EidosDB
