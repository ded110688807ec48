import EidosDB.Storage.HnswTrace

/-! # Creating a Graph over a Stored One

    `create` writes the rows of a new graph in one transaction before it
    comes to the segment file, whose creation refuses to replace one that is
    there.  So creating over a stored graph fails, and what it leaves is a
    config row of its own, a state row without nodes, and the node rows and
    vectors of the graph that was there.  The next opening cuts the segment
    file to no records and then finds rows of nodes without vectors. -/

namespace EidosDB

open Bytes Effect HnswIndex

variable {pc : HnswCodec} {config : HnswConfig} {dimension : Dimension}

namespace HnswDisk

variable {disk : HnswDisk} {index : PersistentHnswIndex} {db : HnswDb}
  {rows : MetaConfig × MetaState} {parameters : HnswConfig × Dimension} {bytes : List Byte}
  {snap : GraphSnapshot} {graph : HnswIndex}

/-- The graph that a row without nodes stands for. -/
theorem fromSnapshot_empty {embeddings : Nat → Option (List F32)} (hnodes : snap.nodes = [])
    (hentry : snap.entryPoint = none) (hrng : snap.rngState = config.seed) :
    fromSnapshot config dimension snap embeddings = .ok (HnswIndex.new config dimension) := by
  unfold fromSnapshot
  rw [hnodes, hentry, hrng]
  rfl

/-- The nodes of a snapshot come from the tables, the rest from the state
    row. -/
theorem readSnapshot_eq {state : MetaState} (h : db.readSnapshot pc state = .ok snap) :
    snap.entryPoint = state.entryPoint ∧ snap.rngState = state.rngState ∧
      ∀ (state' : MetaState) (db' : HnswDb), db'.nodes = some db.nodeTable →
        db'.adjacency = some db.adjacencyTable →
        db'.readSnapshot pc state' = .ok { snap with
          entryPoint := state'.entryPoint, entryLevel := state'.entryLevel
          rngState := state'.rngState } := by
  unfold HnswDb.readSnapshot at h
  cases hnodes : db.nodes with
  | none =>
    rw [hnodes] at h
    cases h
  | some nodes =>
    cases hadjacency : db.adjacency with
    | none =>
      rw [hnodes, hadjacency] at h
      cases h
    | some adjacency =>
      rw [hnodes, hadjacency] at h
      dsimp only at h
      cases hrows : nodes.entries.mapM (HnswDb.readNodeEntry pc) with
      | error e =>
        rw [hrows] at h
        cases h
      | ok nodeRows =>
        rw [hrows] at h
        cases hsnap : (sortBy (byKey Prod.fst) nodeRows).mapM (HnswDb.readNode pc adjacency) with
        | error e =>
          simp only [Bind.bind, Except.bind, hsnap] at h
          cases h
        | ok snapNodes =>
          simp only [Bind.bind, Except.bind, hsnap] at h
          cases h
          refine ⟨rfl, rfl, ?_⟩
          intro state' db' hnodes' hadjacency'
          unfold HnswDb.readSnapshot
          rw [hnodes', hadjacency', HnswDb.nodeTable, hnodes, HnswDb.adjacencyTable, hadjacency]
          simp only [Option.getD_some, Bind.bind, Except.bind, hrows, hsnap]

/-- The rows that `create` writes. -/
theorem readMeta_withRows (disk : HnswDisk) (config : HnswConfig) (dimension : Dimension) :
    (disk.db.created pc (config.row dimension.u32) (freshState config)).readMeta pc =
      .ok (config.row dimension.u32, freshState config) := by
  unfold HnswDb.readMeta HnswDb.created
  dsimp only
  rw [pc.metaConfig.read_encode, pc.metaState.read_encode]
  rfl

/-- If the files that `create` leaves can be opened, the graph is empty. -/
theorem graph_of_created (h : Read pc (disk.withRows pc config dimension) db rows parameters bytes
    snap graph) : graph = HnswIndex.new config dimension := by
  obtain rfl := Option.some.inj h.catalog
  obtain rfl := Except.ok.inj ((readMeta_withRows disk config dimension).symm.trans h.readMeta)
  obtain rfl := Except.ok.inj ((HnswConfig.parameters_row config dimension).symm.trans
    h.readParameters)
  obtain ⟨hentry, hrng, -⟩ := readSnapshot_eq h.readSnapshot
  obtain ⟨-, -, values, hvalues, hlen, -⟩ := restored_values h.restored
  -- no record is shown, so there was no row to give one to
  have hnodes : snap.nodes = [] := by
    by_contra hne
    have hpos := List.length_pos_of_ne_nil hne
    have hfirst := hvalues 0 hpos
    rw [List.getElem?_eq_getElem (by omega)] at hfirst
    cases hfirst.symm.trans (if_pos (Nat.zero_le _))
  exact Except.ok.inj (h.restored.symm.trans (fromSnapshot_empty hnodes hentry hrng))

/-- Over a stored graph that is empty and has its parameters, they can. -/
theorem read_withRows (h : Read pc disk db rows parameters bytes snap
    (HnswIndex.new config dimension)) :
    ∃ db' snap', Read pc (disk.withRows pc config dimension) db'
      (config.row dimension.u32, freshState config) (config, dimension) bytes snap'
      (HnswIndex.new config dimension) := by
  obtain ⟨hconfig, hdimension, values, -, hlen, hnone⟩ := restored_values h.restored
  obtain ⟨-, -, hsnapshot⟩ := readSnapshot_eq h.readSnapshot
  have hheader := h.header
  rw [← hconfig, ← hdimension] at hheader
  have hnodes : snap.nodes = [] := by
    rw [← List.length_eq_zero_iff, ← hlen, ← hnone]
    rfl
  have hdb : disk.db = db := by
    rw [HnswDisk.db, h.catalog, Option.getD_some]
  refine ⟨_, _, rfl, readMeta_withRows disk config dimension,
    HnswConfig.parameters_row config dimension, h.segment, hheader, ?_,
    hsnapshot (freshState config) _ ?_ ?_, fromSnapshot_empty hnodes rfl rfl⟩
  · show (wrap64 (headerLen + 0 * _)).val ≤ maxFileLen
    rw [Nat.zero_mul]
    decide
  · rw [hdb]
    rfl
  · rw [hdb]
    rfl

/-- **Creating over a stored graph.**  In every directory that can be opened,
    `create` fails; the next opening gives the same graph if and only if the
    stored graph is the one that was to be created: without nodes, of this
    configuration and dimension, with its generator at the seed. -/
theorem create_over_store (pc : HnswCodec) (disk : HnswDisk) (index : PersistentHnswIndex)
    (config : HnswConfig) (dimension : Dimension) (haccepts : (opened pc disk).1 = .ok index) :
    (create pc config dimension (World.start disk .none)).1 = .err (.io .alreadyExists) ∧
    ((∃ index', (opened pc (create pc config dimension (World.start disk .none)).2.state).1 =
        .ok index' ∧ index'.graph = index.graph) ↔
      index.graph = HnswIndex.new config dimension) := by
  obtain ⟨db, rows, parameters, bytes, snap, h⟩ := read_of_opened haccepts
  obtain ⟨marks, hcreate⟩ := @traces_create_exists pc config dimension disk bytes h.segment
  obtain ⟨herr, hstate⟩ := hcreate.undisturbed
  rw [hstate]
  refine ⟨herr, ?_, ?_⟩
  · intro hsame
    obtain ⟨index', hopened, hgraph⟩ := hsame
    obtain ⟨db', rows', parameters', bytes', snap', h'⟩ := read_of_opened hopened
    rw [← hgraph]
    exact graph_of_created h'
  · intro hempty
    rw [hempty] at h
    obtain ⟨db', snap', h'⟩ := read_withRows h
    obtain ⟨marks', hopen⟩ := h'.traces
    exact ⟨_, hopen.undisturbed.1, hempty.symm⟩

/-- The directory of a graph with one node, closed. -/
def oneNode : Option HnswDisk :=
  (empty.made .postcard .small (.degreeTwo 50) .one .create).bind fun s =>
    (s.answers .postcard .small
      [(.base2, .insert ⟨1⟩ (.single (F32.ofInt 3) (.refl true)))]).map fun r => r.2.disk

/-- The number of nodes an opening gives, or its error. -/
def openedNodes (disk : HnswDisk) : Option (StorageError ⊕ Nat) :=
  match (opened .postcard disk).1 with
  | .ok index => some (.inr index.graph.graph.nodeCount)
  | .err e => some (.inl e)
  | _ => none

theorem opened_of_openedNodes {n : Nat} (h : openedNodes disk = some (.inr n)) :
    ∃ index, (opened .postcard disk).1 = .ok index := by
  unfold openedNodes at h
  cases hopen : (opened .postcard disk).1 with
  | ok index => exact ⟨index, rfl⟩
  | err e => rw [hopen] at h; cases h
  | crashed => rw [hopen] at h; cases h
  | panicked => rw [hopen] at h; cases h

theorem create_over_store_one : ∃ disk index, oneNode = some disk ∧
    (opened .postcard disk).1 = .ok index ∧
    (create .postcard (.degreeTwo 50) .one (World.start disk .none)).1 = .err (.io .alreadyExists) ∧
    ((∃ index', (opened .postcard (create .postcard (.degreeTwo 50) .one
        (World.start disk .none)).2.state).1 = .ok index' ∧ index'.graph = index.graph) ↔
      index.graph = HnswIndex.new (.degreeTwo 50) .one) := by
  have hnodes : oneNode.bind openedNodes = some (.inr 1) := by decide +kernel
  obtain ⟨disk, hdisk, hnodes⟩ := Option.bind_eq_some_iff.mp hnodes
  obtain ⟨index, hindex⟩ := opened_of_openedNodes hnodes
  exact ⟨disk, index, hdisk, hindex,
    create_over_store .postcard disk index (.degreeTwo 50) .one hindex⟩

/-- Creating the stored graph again: the directory could be opened and now
    cannot. -/
theorem not_create_over_store : ∃ disk index, oneNode = some disk ∧
    (opened .postcard disk).1 = .ok index ∧
    ¬ ∃ index', (opened .postcard (create .postcard (.degreeTwo 50) .one
      (World.start disk .none)).2.state).1 = .ok index' ∧ index'.graph = index.graph := by
  have hrun : oneNode.map (fun disk => (openedNodes disk, openedNodes (create .postcard
      (.degreeTwo 50) .one (World.start disk .none)).2.state)) =
      some (some (.inr 1), some (.inl (.index (.backend "missing embedding for node 0")))) := by
    decide +kernel
  obtain ⟨disk, hdisk, hnodes⟩ := Option.map_eq_some_iff.mp hrun
  obtain ⟨hbefore, hafter⟩ := Prod.mk.injEq .. ▸ hnodes
  obtain ⟨index, hindex⟩ := opened_of_openedNodes hbefore
  refine ⟨disk, index, hdisk, hindex, ?_⟩
  intro hsame
  obtain ⟨index', hopened, -⟩ := hsame
  unfold openedNodes at hafter
  rw [hopened] at hafter
  cases hafter

end HnswDisk

end EidosDB
