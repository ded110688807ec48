import EidosDB.Lib.Inverse
import EidosDB.Storage.HnswTables
import EidosDB.Storage.SegmentSpec

/-! # What the Tables Hold

    A database holds a snapshot when each node has its row and each list its
    row, no other node row is there, and the state row is the snapshot's.
    Rows of lists that no node has may be left over; nothing reads them. -/

namespace EidosDB

open Bytes HnswDb

variable {pc : HnswCodec} {config : HnswConfig} {dimension : Dimension}

/-- One list for each layer, levels within the ceiling, and the count of the
    nodes that are not marked. -/
structure GraphSnapshot.Shaped (snap : GraphSnapshot) : Prop where
  lists : ∀ node ∈ snap.nodes, node.neighborsPerLayer.length = node.level + 1
  level_le : ∀ node ∈ snap.nodes, node.level ≤ maxLevel
  liveCount : snap.liveCount = (snap.nodes.filter (fun n => !n.tombstone)).length

/-- The rows of the nodes, and no others. -/
def NodesHeld (pc : HnswCodec) (nodes : List SnapshotNode) (table : ByteTable) : Prop :=
  ∀ key value, table.get key = some value ↔
    ∃ i node, nodes[i]? = some node ∧ (key, value) = nodeEntry pc i node

/-- The rows of the lists. -/
def ListsHeld (pc : HnswCodec) (nodes : List SnapshotNode) (table : ByteTable) : Prop :=
  ∀ i node l ns, nodes[i]? = some node → node.neighborsPerLayer[l]? = some ns →
    table.get (pc.adjKey.encode (adjKeyAt i l)) = some (pc.neighbors.encode ns)

/-- The database holds the snapshot of a store with these parameters. -/
structure HnswDb.Holds (pc : HnswCodec) (config : HnswConfig) (dimension : Dimension)
    (snap : GraphSnapshot) (db : HnswDb) : Prop where
  nodes : ∃ table, db.nodes = some table ∧ NodesHeld pc snap.nodes table
  adjacency : ∃ table, db.adjacency = some table ∧ ListsHeld pc snap.nodes table
  metaRows : db.metaRows = some
    { config := some (pc.metaConfig.encode (config.row dimension.u32))
      state := some (pc.metaState.encode snap.stateRow) }

/-! ## Entries -/

section Entries

variable {nodes nodes' : List SnapshotNode} {table : ByteTable} {touched : List Nat}

theorem nodeEntry_inj {i j : Nat} {a b : SnapshotNode}
    (h : (nodeEntry pc i a).1 = (nodeEntry pc j b).1) : i = j :=
  pc.nodeIdx.encode_inj h

theorem mem_adjEntries {i : Nat} {node : SnapshotNode} {e : List Byte × List Byte} :
    e ∈ adjEntries pc i node ↔ ∃ l ns, node.neighborsPerLayer[l]? = some ns ∧
      e = (pc.adjKey.encode (adjKeyAt i l), pc.neighbors.encode ns) := by
  unfold adjEntries
  rw [List.mem_map]
  constructor
  · rintro ⟨⟨ns, l⟩, hmem, rfl⟩
    exact ⟨l, ns, List.mem_zipIdx_iff_getElem?.mp hmem, rfl⟩
  · rintro ⟨l, ns, hns, rfl⟩
    exact ⟨(ns, l), List.mem_zipIdx_iff_getElem?.mpr hns, rfl⟩

/-- Layers up to the ceiling have keys of their own. -/
theorem adjKeyAt_inj {i j l k : Nat} (hl : l ≤ maxLevel) (hk : k ≤ maxLevel)
    (h : pc.adjKey.encode (adjKeyAt i l) = pc.adjKey.encode (adjKeyAt j k)) : i = j ∧ l = k := by
  have hkeys := pc.adjKey.encode_inj h
  unfold adjKeyAt at hkeys
  rw [u32OrElse_of_le_maxLevel hl, u32OrElse_of_le_maxLevel hk, AdjKey.mk.injEq] at hkeys
  exact hkeys

/-- The numbered nodes a transaction writes. -/
def Writes (nodes : List SnapshotNode) (touched : List Nat)
    (written : List (Nat × SnapshotNode)) : Prop :=
  ∀ i node, (i, node) ∈ written ↔ i ∈ touched ∧ nodes[i]? = some node

theorem Writes.zipIdx (nodes : List SnapshotNode) :
    Writes nodes (List.range nodes.length) (nodes.zipIdx.map fun p => (p.2, p.1)) := by
  intro i node
  rw [List.mem_map]
  constructor
  · rintro ⟨⟨a, j⟩, hmem, heq⟩
    cases heq
    have hget := List.mem_zipIdx_iff_getElem?.mp hmem
    exact ⟨List.mem_range.mpr (List.getElem?_eq_some_iff.mp hget).1, hget⟩
  · rintro ⟨-, hget⟩
    exact ⟨(node, i), List.mem_zipIdx_iff_getElem?.mpr hget, rfl⟩

/-- Writing the rows of the touched nodes, when the others are as they were. -/
theorem NodesHeld.write (h : NodesHeld pc nodes table)
    {written : List (Nat × SnapshotNode)} (hwritten : Writes nodes' touched written)
    (htouched : ∀ i ∈ touched, i < nodes'.length)
    (hframe : ∀ i, i ∉ touched → nodes'[i]? = nodes[i]?) :
    NodesHeld pc nodes' (table.insertMany (written.map fun p => nodeEntry pc p.1 p.2)) := by
  have hagree : ∀ e ∈ written.map (fun p => nodeEntry pc p.1 p.2),
      ∀ e' ∈ written.map (fun p => nodeEntry pc p.1 p.2), e.1 = e'.1 → e.2 = e'.2 := by
    intro e he e' he' heq
    obtain ⟨⟨i, a⟩, ha, rfl⟩ := List.mem_map.mp he
    obtain ⟨⟨j, b⟩, hb, rfl⟩ := List.mem_map.mp he'
    obtain rfl : i = j := nodeEntry_inj heq
    have hab := ((hwritten i a).mp ha).2.symm.trans ((hwritten i b).mp hb).2
    cases hab
    rfl
  intro key value
  rw [table.get_insertMany_iff hagree, h key value, List.mem_map]
  constructor
  · rintro (⟨⟨i, node⟩, hmem, heq⟩ | ⟨hnot, i, node, hnode, heq⟩)
    · exact ⟨i, node, ((hwritten i node).mp hmem).2, heq.symm⟩
    · refine ⟨i, node, ?_, heq⟩
      rw [hframe i, hnode]
      -- a touched node has a row of its own among the written ones
      intro hi
      have hlt := htouched i hi
      have hnew : (i, nodes'[i]) ∈ written :=
        (hwritten i _).mpr ⟨hi, List.getElem?_eq_getElem hlt⟩
      apply hnot _ (List.mem_map.mpr ⟨_, hnew, rfl⟩)
      exact (congrArg Prod.fst heq).symm
  · rintro ⟨i, node, hnode, heq⟩
    by_cases hi : i ∈ touched
    · exact Or.inl ⟨(i, node), (hwritten i node).mpr ⟨hi, hnode⟩, heq.symm⟩
    · refine Or.inr ⟨?_, i, node, by rw [← hframe i hi, hnode], heq⟩
      intro e he hkey
      obtain ⟨⟨j, b⟩, hb, rfl⟩ := List.mem_map.mp he
      rw [show key = (nodeEntry pc i node).1 from congrArg Prod.fst heq] at hkey
      obtain rfl : j = i := nodeEntry_inj hkey
      exact hi ((hwritten j b).mp hb).1

theorem ListsHeld.write (h : ListsHeld pc nodes table)
    {written : List (Nat × SnapshotNode)} (hwritten : Writes nodes' touched written)
    (hlists : ∀ node ∈ nodes', node.neighborsPerLayer.length = node.level + 1)
    (hlevel : ∀ node ∈ nodes', node.level ≤ maxLevel)
    (hframe : ∀ i, i ∉ touched → nodes'[i]? = nodes[i]?) :
    ListsHeld pc nodes' (table.insertMany (written.flatMap fun p => adjEntries pc p.1 p.2)) := by
  have hbound : ∀ (i : Nat) (node : SnapshotNode) (l : Nat) (ns : List Nat),
      nodes'[i]? = some node → node.neighborsPerLayer[l]? = some ns → l ≤ maxLevel := by
    intro i node l ns hnode hns
    have hmem := List.mem_of_getElem? hnode
    have hlt : l < node.neighborsPerLayer.length := (List.getElem?_eq_some_iff.mp hns).1
    have hlen := hlists node hmem
    have hle := hlevel node hmem
    omega
  have hmem : ∀ e, e ∈ written.flatMap (fun p => adjEntries pc p.1 p.2) ↔
      ∃ (i : Nat) (node : SnapshotNode) (l : Nat) (ns : List Nat),
        i ∈ touched ∧ nodes'[i]? = some node ∧ node.neighborsPerLayer[l]? = some ns ∧
          e = (pc.adjKey.encode (adjKeyAt i l), pc.neighbors.encode ns) := by
    intro e
    rw [List.mem_flatMap]
    constructor
    · rintro ⟨⟨i, node⟩, hw, he⟩
      obtain ⟨l, ns, hns, rfl⟩ := mem_adjEntries.mp he
      obtain ⟨hi, hnode⟩ := (hwritten i node).mp hw
      exact ⟨i, node, l, ns, hi, hnode, hns, rfl⟩
    · rintro ⟨i, node, l, ns, hi, hnode, hns, rfl⟩
      exact ⟨(i, node), (hwritten i node).mpr ⟨hi, hnode⟩, mem_adjEntries.mpr ⟨l, ns, hns, rfl⟩⟩
  have hagree : ∀ e ∈ written.flatMap (fun p => adjEntries pc p.1 p.2),
      ∀ e' ∈ written.flatMap (fun p => adjEntries pc p.1 p.2), e.1 = e'.1 → e.2 = e'.2 := by
    intro e he e' he' heq
    obtain ⟨i, a, l, ns, -, ha, hns, rfl⟩ := (hmem e).mp he
    obtain ⟨j, b, k, ms, -, hb, hms, rfl⟩ := (hmem e').mp he'
    obtain ⟨rfl, rfl⟩ := adjKeyAt_inj (hbound i a l ns ha hns) (hbound j b k ms hb hms) heq
    cases ha.symm.trans hb
    cases hns.symm.trans hms
    rfl
  intro i node l ns hnode hns
  rw [table.get_insertMany_iff hagree]
  by_cases hi : i ∈ touched
  · exact Or.inl ((hmem _).mpr ⟨i, node, l, ns, hi, hnode, hns, rfl⟩)
  · refine Or.inr ⟨?_, h i node l ns (by rw [← hframe i hi, hnode]) hns⟩
    intro e he hkey
    obtain ⟨j, b, k, ms, hj, hb, hms, rfl⟩ := (hmem e).mp he
    obtain ⟨rfl, -⟩ := adjKeyAt_inj (hbound j b k ms hb hms) (hbound i node l ns hnode hns) hkey
    exact hi hj

/-- Rows of lists do not depend on the marks. -/
theorem ListsHeld.congr (h : ListsHeld pc nodes table)
    (hlists : ∀ i : Nat, nodes'[i]?.map SnapshotNode.neighborsPerLayer =
      nodes[i]?.map SnapshotNode.neighborsPerLayer) : ListsHeld pc nodes' table := by
  intro i node l ns hnode hns
  have hold := hlists i
  rw [hnode, Option.map_some] at hold
  obtain ⟨old, hold, heq⟩ := Option.map_eq_some_iff.mp hold.symm
  exact h i old l ns hold (by rw [heq, hns])

end Entries

/-! ## Reading back -/

section Reading

variable {snap : GraphSnapshot} {db : HnswDb}

theorem HnswDb.Holds.readMeta (h : Holds pc config dimension snap db) :
    db.readMeta pc = .ok (config.row dimension.u32, snap.stateRow) := by
  unfold HnswDb.readMeta
  rw [h.metaRows]
  dsimp only
  rw [pc.metaConfig.read_encode, pc.metaState.read_encode]
  rfl

theorem mapM_map_ok {α β γ ε : Type} {f : α → β} {g : β → Except ε γ} {h : α → γ} {l : List α}
    (hg : ∀ a ∈ l, g (f a) = .ok (h a)) : (l.map f).mapM g = .ok (l.map h) := by
  rw [List.mapM_map]
  exact HnswIndex.mapM_ok l hg

/-- The entry of a numbered row. -/
def rowEntry (pc : HnswCodec) (p : Nat × NodeRow) : List Byte × List Byte :=
  (pc.nodeIdx.encode p.1, pc.nodeRow.encode p.2)

theorem rowEntry_injective (pc : HnswCodec) : Function.Injective (rowEntry pc) := by
  intro p q h
  have hidx := pc.nodeIdx.encode_inj (congrArg Prod.fst h)
  have hrow := pc.nodeRow.encode_inj (congrArg Prod.snd h)
  exact Prod.ext hidx hrow

/-- The rows of a snapshot with their numbers. -/
def numberedRows (nodes : List SnapshotNode) : List (Nat × NodeRow) :=
  nodes.zipIdx.map fun p => (p.2, p.1.row)

theorem mem_numberedRows {nodes : List SnapshotNode} {i : Nat} {row : NodeRow} :
    (i, row) ∈ numberedRows nodes ↔ ∃ node, nodes[i]? = some node ∧ node.row = row := by
  unfold numberedRows
  rw [List.mem_map]
  constructor
  · rintro ⟨⟨node, j⟩, hmem, heq⟩
    cases heq
    exact ⟨node, List.mem_zipIdx_iff_getElem?.mp hmem, rfl⟩
  · rintro ⟨node, hnode, rfl⟩
    exact ⟨(node, i), List.mem_zipIdx_iff_getElem?.mpr hnode, rfl⟩

theorem numberedRows_ordered (nodes : List SnapshotNode) :
    (numberedRows nodes).Pairwise (fun a b => a.1 < b.1) := by
  have hfst : (numberedRows nodes).map Prod.fst = List.range nodes.length := by
    have hsnd : (numberedRows nodes).map Prod.fst = nodes.zipIdx.map Prod.snd := by
      unfold numberedRows
      rw [List.map_map]
      rfl
    rw [hsnd, List.zipIdx_map_snd, List.range_eq_range']
  rw [← List.pairwise_map (f := Prod.fst) (R := (· < ·)), hfst]
  exact List.pairwise_lt_range

/-- The entries of the node table are those of the rows, in some order. -/
theorem NodesHeld.entries_perm {nodes : List SnapshotNode} {table : ByteTable}
    (h : NodesHeld pc nodes table) :
    table.entries.Perm ((numberedRows nodes).map (rowEntry pc)) := by
  have hnodup : ((numberedRows nodes).map (rowEntry pc)).Nodup := by
    apply List.Nodup.map (rowEntry_injective pc)
    apply (numberedRows_ordered nodes).imp
    rintro a b hab rfl
    exact lt_irrefl _ hab
  apply (List.perm_ext_iff_of_nodup table.nodup_entries hnodup).mpr
  rintro ⟨key, value⟩
  rw [table.mem_entries_iff, h key value, List.mem_map]
  constructor
  · rintro ⟨i, node, hnode, heq⟩
    exact ⟨(i, node.row), mem_numberedRows.mpr ⟨node, hnode, rfl⟩, heq.symm⟩
  · rintro ⟨⟨i, row⟩, hmem, heq⟩
    obtain ⟨node, hnode, rfl⟩ := mem_numberedRows.mp hmem
    exact ⟨i, node, hnode, heq.symm⟩

/-- Decoding and sorting the entries of the node table. -/
theorem NodesHeld.read {nodes : List SnapshotNode} {table : ByteTable}
    (h : NodesHeld pc nodes table) :
    ∃ rows, table.entries.mapM (readNodeEntry pc) = .ok rows ∧
      sortBy (byKey Prod.fst) rows = numberedRows nodes := by
  obtain ⟨rows, hentries, hperm⟩ := List.exists_map_perm (rowEntry_injective pc) h.entries_perm
  refine ⟨rows, ?_, sortBy_byKey_of_perm Prod.fst hperm (numberedRows_ordered nodes)⟩
  have hread : ∀ p ∈ rows, readNodeEntry pc (rowEntry pc p) = .ok p := by
    intro p _
    unfold readNodeEntry rowEntry
    rw [pc.nodeIdx.read_encode, pc.nodeRow.read_encode]
    rfl
  rw [hentries, mapM_map_ok (h := id) hread, List.map_id]

theorem ListsHeld.readNode {nodes : List SnapshotNode} {table : ByteTable}
    (h : ListsHeld pc nodes table) {i : Nat} {node : SnapshotNode} (hnode : nodes[i]? = some node)
    (hlists : node.neighborsPerLayer.length = node.level + 1) :
    HnswDb.readNode pc table (i, node.row) = .ok node := by
  have hread : ∀ l ∈ List.range (node.level + 1),
      readList pc table i l = .ok (node.neighborsPerLayer.getD l []) := by
    intro l hl
    have hlt : l < node.neighborsPerLayer.length := by
      rw [hlists]
      exact List.mem_range.mp hl
    have hget := List.getElem?_eq_getElem hlt
    unfold readList
    rw [h i node l _ hnode hget, List.getD_eq_getElem?_getD, hget, Option.getD_some]
    exact pc.neighbors.read_encode _
  have hall : (List.range (node.level + 1)).map (fun l => node.neighborsPerLayer.getD l []) =
      node.neighborsPerLayer := by
    rw [← hlists]
    apply List.ext_getElem (by simp)
    intro l hl hl'
    simp [hl']
  unfold HnswDb.readNode
  show ((List.range (node.level + 1)).mapM (readList pc table i) >>= _) = _
  rw [HnswIndex.mapM_ok _ hread, hall]
  rfl

/-- Opening reads back the snapshot the tables hold. -/
theorem HnswDb.Holds.readSnapshot (h : Holds pc config dimension snap db) (hs : snap.Shaped) :
    db.readSnapshot pc snap.stateRow = .ok snap := by
  obtain ⟨nodes, hnodes, hheld⟩ := h.nodes
  obtain ⟨adjacency, hadj, hlists⟩ := h.adjacency
  obtain ⟨rows, hrows, hsorted⟩ := hheld.read
  have hread : ∀ p ∈ snap.nodes.zipIdx,
      HnswDb.readNode pc adjacency (p.2, p.1.row) = .ok p.1 := by
    rintro ⟨node, i⟩ hmem
    have hnode := List.mem_zipIdx_iff_getElem?.mp hmem
    exact hlists.readNode hnode (hs.lists node (List.mem_of_getElem? hnode))
  unfold HnswDb.readSnapshot
  rw [hnodes, hadj]
  dsimp only
  rw [hrows]
  show ((sortBy (byKey Prod.fst) rows).mapM (HnswDb.readNode pc adjacency) >>= _) = _
  rw [hsorted, numberedRows, mapM_map_ok (h := Prod.fst) hread, List.zipIdx_map_fst]
  exact congrArg Except.ok (GraphSnapshot.ext rfl rfl rfl rfl hs.liveCount.symm)

theorem HnswDb.Holds.snapshot (h : Holds pc config dimension snap db) (hs : snap.Shaped) :
    db.snapshot pc = .ok snap := by
  unfold HnswDb.snapshot
  rw [h.readMeta]
  exact h.readSnapshot hs

end Reading

/-! ## The transactions of a graph -/

section Transactions

open HnswGraph HnswIndex

variable {s s' : HnswIndex} {db : HnswDb}

theorem HnswIndex.nodeSnapshot_eq_getElem? (h : Inv config dimension s) (i : Nat) :
    s.nodeSnapshot i = s.snapshot.nodes[i]? := by
  rw [snapshot_nodes h, List.getElem?_map]
  by_cases hi : i < s.graph.nodeCount
  · obtain ⟨node, hnode⟩ := exists_node hi
    rw [nodeSnapshot_eq h hnode, hnode, Option.map_some]
  · have hle := not_lt.mp hi
    rw [nodeSnapshot, if_pos hle, getElem?_of_le hle, Option.map_none]

theorem HnswIndex.length_snapshot (h : Inv config dimension s) :
    s.snapshot.nodes.length = s.graph.nodeCount := by
  rw [snapshot_nodes h, List.length_map]
  rfl

theorem HnswIndex.stateRow_eq (h : Inv config dimension s) : s.stateRow = s.snapshot.stateRow := by
  unfold GraphSnapshot.stateRow
  rw [length_snapshot h]
  rfl

theorem HnswIndex.snapshot_shaped (h : Inv config dimension s) : s.snapshot.Shaped where
  lists := by
    intro node hmem
    obtain ⟨i, hi⟩ := List.getElem?_of_mem hmem
    rw [← nodeSnapshot_eq_getElem? h] at hi
    unfold nodeSnapshot at hi
    split at hi
    · exact absurd hi (by simp)
    · next hlt =>
      obtain ⟨raw, hraw⟩ := exists_node (not_le.mp hlt)
      have hlevel := h.nodes.level_le raw (List.mem_of_getElem? hraw)
      cases hi
      simp [nodeLevel, hraw, u32OrElse_of_le_maxLevel hlevel]
  level_le := by
    intro node hmem
    rw [snapshot_nodes h] at hmem
    obtain ⟨raw, hraw, rfl⟩ := List.mem_map.mp hmem
    exact h.nodes.level_le raw hraw
  liveCount := rfl

theorem HnswIndex.writes_snapshotsOf (h : Inv config dimension s) (touched : List Nat) :
    Writes s.snapshot.nodes touched (snapshotsOf s touched) := by
  intro i node
  unfold snapshotsOf
  rw [List.mem_filterMap]
  constructor
  · rintro ⟨j, hj, hsome⟩
    obtain ⟨a, ha, heq⟩ := Option.map_eq_some_iff.mp hsome
    cases heq
    exact ⟨hj, by rw [← nodeSnapshot_eq_getElem? h, ha]⟩
  · rintro ⟨hi, hnode⟩
    refine ⟨i, hi, ?_⟩
    rw [nodeSnapshot_eq_getElem? h, hnode, Option.map_some]

/-- An insert leaves the snapshots of the nodes it did not touch. -/
theorem HnswIndex.Inserted.nodeSnapshot {id : VectorId} {e : Embedding} {level : Nat}
    {delta : InsertDelta} (hi : Inserted s id e level delta s') {i : Nat}
    (hframe : i ∉ delta.touchedNodes) : s'.nodeSnapshot i = s.nodeSnapshot i := by
  have hne : i ≠ s.graph.nodeCount := by
    rintro rfl
    exact hframe hi.touched_new
  have hcount : s'.graph.nodeCount = s.graph.nodeCount + 1 := by
    rw [hi.shape.nodeCount, nodeCount_setEntryPoint, nodeCount_withNode]
  have hlevel : s'.graph.nodeLevel i = s.graph.nodeLevel i := by
    rw [hi.shape.nodeLevel, nodeLevel_setEntryPoint, nodeLevel_withNode, if_neg hne]
  have hid : s'.graph.nodeId i = s.graph.nodeId i := by
    rw [hi.shape.nodeId, nodeId_setEntryPoint, nodeId_withNode, if_neg hne]
  have hmark : s'.graph.isTombstone i = s.graph.isTombstone i := by
    rw [hi.shape.isTombstone, isTombstone_setEntryPoint, isTombstone_withNode, if_neg hne]
  have hlists : s'.graph.neighbors i = s.graph.neighbors i := by
    funext l
    exact hi.frame i l hframe
  have hrange : s.graph.nodeCount + 1 ≤ i ↔ s.graph.nodeCount ≤ i := by omega
  unfold HnswIndex.nodeSnapshot
  simp only [hcount, hlevel, hid, hmark, hlists, hrange]

/-- The transaction of an accepted insert. -/
theorem HnswDb.Holds.inserted (h : Holds pc config dimension s.snapshot db)
    (hinv : Inv config dimension s) (hinv' : Inv config dimension s') {id : VectorId}
    {e : Embedding} {level : Nat} {delta : InsertDelta} (hi : Inserted s id e level delta s') :
    Holds pc config dimension s'.snapshot (db.inserted pc s' delta.touchedNodes) := by
  obtain ⟨nodes, hnodes, hheld⟩ := h.nodes
  obtain ⟨adjacency, hadj, hlists⟩ := h.adjacency
  have hwritten := writes_snapshotsOf hinv' delta.touchedNodes
  have hshaped := snapshot_shaped hinv'
  have hframe : ∀ i, i ∉ delta.touchedNodes →
      s'.snapshot.nodes[i]? = s.snapshot.nodes[i]? := by
    intro i hi'
    rw [← nodeSnapshot_eq_getElem? hinv', ← nodeSnapshot_eq_getElem? hinv, hi.nodeSnapshot hi']
  have htouched : ∀ i ∈ delta.touchedNodes, i < s'.snapshot.nodes.length := by
    intro i hi'
    rw [length_snapshot hinv']
    exact hi.touched_lt i hi'
  exact
    { nodes := by
        refine ⟨_, rfl, ?_⟩
        rw [HnswDb.nodeTable, hnodes, Option.getD_some]
        exact hheld.write hwritten htouched hframe
      adjacency := by
        refine ⟨_, rfl, ?_⟩
        rw [HnswDb.adjacencyTable, hadj, Option.getD_some]
        exact hlists.write hwritten hshaped.lists hshaped.level_le hframe
      metaRows := by
        rw [HnswDb.inserted, HnswDb.metaTable, h.metaRows, stateRow_eq hinv']
        rfl }

/-- The transaction of a removal: one mark changed, and no list. -/
theorem HnswDb.Holds.removed (h : Holds pc config dimension s.snapshot db)
    (hinv : Inv config dimension s) {node : Nat} {id : VectorId} {entry : Option Nat}
    (hnode : node < s.graph.nodeCount)
    (hs' : s' = { s with graph := (s.graph.withTombstone node id).setEntryPoint entry })
    (hinv' : Inv config dimension s') :
    Holds pc config dimension s'.snapshot (db.removed pc s' [node]) := by
  obtain ⟨nodes, hnodes, hheld⟩ := h.nodes
  obtain ⟨adjacency, hadj, hlists⟩ := h.adjacency
  have hcount : s'.graph.nodeCount = s.graph.nodeCount := by
    rw [hs', nodeCount_setEntryPoint, nodeCount_withTombstone]
  have hlevel : ∀ i, s'.graph.nodeLevel i = s.graph.nodeLevel i := by
    intro i
    rw [hs', nodeLevel_setEntryPoint, nodeLevel_withTombstone]
  have hid : ∀ i, s'.graph.nodeId i = s.graph.nodeId i := by
    intro i
    rw [hs', nodeId_setEntryPoint, nodeId_withTombstone]
  have hneighbors : ∀ i, s'.graph.neighbors i = s.graph.neighbors i := by
    intro i
    funext l
    rw [hs', neighbors_setEntryPoint, neighbors_withTombstone]
  have hframe : ∀ i, i ∉ [node] → s'.snapshot.nodes[i]? = s.snapshot.nodes[i]? := by
    intro i hi
    rw [← nodeSnapshot_eq_getElem? hinv', ← nodeSnapshot_eq_getElem? hinv]
    unfold HnswIndex.nodeSnapshot
    rw [hcount, hlevel, hid, hneighbors]
    split
    · rfl
    · next hlt =>
      have hmark : s'.graph.isTombstone i = s.graph.isTombstone i := by
        rw [hs', isTombstone_setEntryPoint,
          isTombstone_withTombstone s.graph node id (not_le.mp hlt)]
        simp [show i ≠ node by simpa using hi]
      rw [hmark]
  have hsame : ∀ i : Nat, s'.snapshot.nodes[i]?.map SnapshotNode.neighborsPerLayer =
      s.snapshot.nodes[i]?.map SnapshotNode.neighborsPerLayer := by
    intro i
    rw [← nodeSnapshot_eq_getElem? hinv', ← nodeSnapshot_eq_getElem? hinv]
    unfold HnswIndex.nodeSnapshot
    rw [hcount, hlevel, hneighbors]
    split <;> rfl
  have htouched : ∀ i ∈ [node], i < s'.snapshot.nodes.length := by
    intro i hi
    rw [length_snapshot hinv', hcount, List.mem_singleton.mp hi]
    exact hnode
  exact
    { nodes := by
        refine ⟨_, rfl, ?_⟩
        rw [HnswDb.nodeTable, hnodes, Option.getD_some]
        exact hheld.write (writes_snapshotsOf hinv' [node]) htouched hframe
      adjacency := ⟨adjacency, hadj, hlists.congr hsame⟩
      metaRows := by
        rw [HnswDb.removed, HnswDb.metaTable, h.metaRows, stateRow_eq hinv']
        rfl }

/-- The transaction that rewrites the tables: whatever they held before. -/
theorem HnswDb.holds_flushed (hinv : Inv config dimension s)
    (hconfig : db.metaTable.config = some (pc.metaConfig.encode (config.row dimension.u32))) :
    Holds pc config dimension s.snapshot (db.flushed pc s.snapshot) := by
  have hwritten := Writes.zipIdx s.snapshot.nodes
  have hshaped := snapshot_shaped hinv
  have hframe : ∀ i, i ∉ List.range s.snapshot.nodes.length →
      s.snapshot.nodes[i]? = ([] : List SnapshotNode)[i]? := by
    intro i hi
    rw [List.mem_range, not_lt] at hi
    rw [List.getElem?_eq_none hi, List.getElem?_nil]
  have hnodes : NodesHeld pc [] .empty := by
    intro key value
    simp
  have hlists : ListsHeld pc [] .empty := by
    intro i node l ns hnode
    simp at hnode
  exact
    { nodes := by
        refine ⟨_, rfl, ?_⟩
        have hheld := hnodes.write hwritten (fun i hi => List.mem_range.mp hi) hframe
        rwa [List.map_map] at hheld
      adjacency := by
        refine ⟨_, rfl, ?_⟩
        have hheld := hlists.write hwritten hshaped.lists hshaped.level_le hframe
        rwa [List.flatMap_map] at hheld
      metaRows := by
        rw [HnswDb.flushed, ← hconfig] }

/-- No row of a node is in the database: there are no tables yet, or nothing
    was inserted. -/
def HnswDb.NoNodes (db : HnswDb) : Prop := ∀ key, db.nodeTable.get key = none

/-- The transaction of `create`. -/
theorem HnswDb.holds_created (hempty : db.NoNodes) :
    Holds pc config dimension (HnswIndex.new config dimension).snapshot
      (db.created pc (config.row dimension.u32)
        { entryPoint := none, entryLevel := 0, rngState := config.seed, nodeCount := 0 }) where
  nodes := by
    refine ⟨_, rfl, ?_⟩
    intro key value
    have hnone : ∀ i : Nat, (HnswIndex.new config dimension).snapshot.nodes[i]? = none :=
      fun _ => rfl
    simp [hempty key, hnone]
  adjacency := by
    refine ⟨_, rfl, ?_⟩
    intro i node l ns hnode
    have hnone : (HnswIndex.new config dimension).snapshot.nodes[i]? = none := rfl
    rw [hnone] at hnode
    exact absurd hnode (by simp)
  metaRows := rfl

end Transactions

end EidosDB
