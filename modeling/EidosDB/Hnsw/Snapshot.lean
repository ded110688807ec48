import EidosDB.Hnsw.Steps

/-! # Snapshots Restore the Index

    The snapshot lists the nodes with their marks and lists, but not the
    live map.  Restoring replays `add_node` and `tombstone` in node order.
    `replayed g i` is the graph after `i` nodes: its live map is the one of
    `g` cut off at `i`, since of the nodes of one id all but the last are
    marked by the time the next one is added. -/

namespace EidosDB

open HnswGraph

variable {P : Platform} {config : HnswConfig} {dimension : Dimension}

/-! ## The nodes of a snapshot -/

/-- The record of a stored node. -/
def Node.record (n : Node) : SnapshotNode :=
  { idBytes := n.id.uuid, level := n.level, tombstone := n.tombstone
    neighborsPerLayer := n.neighbors }

theorem u32OrElse_of_le_maxLevel {n : Nat} (h : n ≤ maxLevel) (default : Nat) :
    u32OrElse n default = n := by
  unfold u32OrElse u32Max
  unfold maxLevel at h
  rw [if_pos (by omega)]

namespace HnswIndex

variable {s : HnswIndex}

theorem nodeSnapshot_eq (h : Inv config dimension s) {i : Nat} {node : Node}
    (hnode : s.graph.nodes[i]? = some node) : s.nodeSnapshot i = some node.record := by
  have hlt : i < s.graph.nodeCount := (List.getElem?_eq_some_iff.mp hnode).1
  have hlevel := h.nodes.level_le node (List.mem_of_getElem? hnode)
  have hlayers : node.neighbors.length = node.level + 1 := by
    simpa [layers, nodeLevel, hnode] using h.links.layers i hlt
  have hlists : (List.range (node.level + 1)).map (s.graph.neighbors i) = node.neighbors := by
    apply List.ext_getElem?
    intro l
    rw [← hlayers, List.getElem?_map]
    unfold neighbors
    by_cases hl : l < node.neighbors.length <;> simp [hnode, hl]
  unfold nodeSnapshot
  rw [if_neg (not_le.mpr hlt), show s.graph.nodeLevel i = node.level by simp [nodeLevel, hnode]]
  dsimp only
  rw [hlists, u32OrElse_of_le_maxLevel hlevel]
  simp [nodeId, isTombstone, hnode, Node.record]

theorem filterMap_range_getElem? {α β : Type} (l : List α) (f : α → β) :
    (List.range l.length).filterMap (fun i => l[i]?.map f) = l.map f := by
  induction l using List.reverseRecOn with
  | nil => rfl
  | append_singleton l a ih =>
    rw [List.length_append, List.length_singleton, List.range_succ, List.filterMap_append,
      List.map_append]
    congr 1
    · rw [← ih]
      apply List.filterMap_congr
      intro i hi
      rw [List.getElem?_append_left (List.mem_range.mp hi)]
    · simp

theorem snapshot_nodes (h : Inv config dimension s) :
    s.snapshot.nodes = s.graph.nodes.map Node.record := by
  show (List.range s.graph.nodeCount).filterMap s.nodeSnapshot = _
  have hsome : ∀ i ∈ List.range s.graph.nodeCount,
      s.nodeSnapshot i = (s.graph.nodes[i]?).map Node.record := by
    intro i hi
    obtain ⟨node, hnode⟩ := exists_node (List.mem_range.mp hi)
    rw [nodeSnapshot_eq h hnode, hnode, Option.map_some]
  rw [List.filterMap_congr hsome]
  exact filterMap_range_getElem? s.graph.nodes Node.record

/-- The rest of the snapshot: the entry point, its level, the generator and
    the live count. -/
theorem snapshot_eq (h : Inv config dimension s) : s.snapshot =
    { nodes := s.graph.nodes.map Node.record, entryPoint := s.graph.entryPoint
      entryLevel := s.graph.entryPoint.elim 0 s.graph.nodeLevel, rngState := s.rng.state
      liveCount := s.graph.liveCount } := by
  have hnodes := snapshot_nodes h
  have hlevel : s.snapshot.entryLevel = s.graph.entryPoint.elim 0 s.graph.nodeLevel := by
    show s.graph.entryPoint.elim 0 (fun ep => u32OrElse (s.graph.nodeLevel ep) 0) = _
    cases hep : s.graph.entryPoint with
    | none => rfl
    | some e =>
      obtain ⟨node, hnode⟩ := exists_node (h.entry.lt_nodeCount hep)
      have := h.nodes.level_le node (List.mem_of_getElem? hnode)
      simp [nodeLevel, hnode, u32OrElse_of_le_maxLevel this]
  have hcount : s.snapshot.liveCount = s.graph.liveCount := by
    show (s.snapshot.nodes.filter (fun n => !n.tombstone)).length = _
    rw [hnodes, ← List.countP_eq_length_filter, List.countP_map, h.nodes.liveCount,
      length_liveNodes]
    rfl
  exact GraphSnapshot.ext hnodes rfl hlevel rfl hcount

/-! ## Replaying the nodes -/

/-- The number of nodes that are not marked. -/
def unmarked (l : List Node) : Nat := l.countP (fun n => !n.tombstone)

/-- The graph after the first `i` nodes of `g` were restored. -/
def replayed (g : HnswGraph) (i : Nat) : HnswGraph :=
  { nodes := g.nodes.take i, live := fun id => (g.live id).filter (fun n => decide (n < i))
    entryPoint := none, liveCount := unmarked (g.nodes.take i) }

/-- Writing the layers of one node one after another replaces its lists. -/
theorem foldl_set_zipIdx (lists : List (List Nat)) (k : Nat) (old : List (List Nat))
    (hlen : old.length = k + lists.length) :
    (lists.zipIdx k).foldl (fun acc p => acc.set p.2 p.1) old = old.take k ++ lists := by
  induction lists generalizing k old with
  | nil =>
    rw [List.length_nil, Nat.add_zero] at hlen
    simp [← hlen]
  | cons a rest ih =>
    rw [List.length_cons] at hlen
    rw [List.zipIdx_cons, List.foldl_cons, ih (k + 1) _ (by rw [List.length_set]; omega)]
    have hk : k < old.length := by omega
    rw [List.take_succ_eq_append_getElem (by simpa using hk), List.take_set_of_le (le_refl k),
      List.getElem_set_self, List.append_assoc, List.singleton_append]

theorem foldl_setNeighbors (idx : Nat) (pairs : List (List Nat × Nat)) (g : HnswGraph) :
    pairs.foldl (fun g p => g.setNeighbors idx p.2 p.1) g =
      { g with nodes := g.nodes.modify idx (fun n =>
          { n with neighbors := pairs.foldl (fun acc p => acc.set p.2 p.1) n.neighbors }) } := by
  induction pairs generalizing g with
  | nil =>
    have hid : g.nodes.modify idx (fun n => n) = g.nodes := List.modify_id idx g.nodes
    simp [hid]
  | cons p rest ih =>
    rw [List.foldl_cons, ih]
    simp only [setNeighbors, List.modify_modify_eq, List.foldl_cons]
    rfl

theorem restoreLists_eq {idx : Nat} {lists : List (List Nat)} {g : HnswGraph} {node : Node}
    (hnode : g.nodes[idx]? = some node) (hlen : node.neighbors.length = lists.length) :
    restoreLists idx lists g =
      { g with nodes := g.nodes.set idx { node with neighbors := lists } } := by
  have hlt : idx < g.nodes.length := (List.getElem?_eq_some_iff.mp hnode).1
  have hlists := foldl_set_zipIdx lists 0 node.neighbors (by rw [hlen, Nat.zero_add])
  unfold restoreLists
  rw [foldl_setNeighbors]
  congr 1
  apply List.ext_getElem?
  intro j
  rw [List.getElem?_modify, List.getElem?_set]
  by_cases hj : idx = j
  · subst hj
    rw [hnode]
    simp [hlt, hlists]
  · simp [hj]

theorem unmarked_take_succ {g : HnswGraph} {i : Nat} {node : Node}
    (hnode : g.nodes[i]? = some node) :
    unmarked (g.nodes.take (i + 1)) =
      unmarked (g.nodes.take i) + if node.tombstone then 0 else 1 := by
  obtain ⟨hlt, hget⟩ := List.getElem?_eq_some_iff.mp hnode
  rw [unmarked, List.take_succ_eq_append_getElem hlt, hget, List.countP_append, ← unmarked]
  cases ht : node.tombstone <;> simp [ht]

/-- An id is free when its next node is restored. -/
theorem replayed_live_none {g : HnswGraph} (h : NodeInv dimension g) {i : Nat} {node : Node}
    (hnode : g.nodes[i]? = some node) : (replayed g i).live node.id = none := by
  have hlt : i < g.nodeCount := (List.getElem?_eq_some_iff.mp hnode).1
  show (g.live node.id).filter _ = none
  rw [Option.filter_eq_none_iff]
  intro n hn
  obtain ⟨⟨hnlt, ht⟩, hid⟩ := (h.live_iff node.id n).mp hn
  rw [decide_eq_true_eq]
  intro hni
  have hdead := h.older_dead n i hni hlt (by rw [hid]; simp [nodeId, hnode])
  rw [ht] at hdead
  exact absurd hdead (by simp)

/-- The live map once node `i` is added, and marked if the snapshot says so. -/
theorem replayed_live_succ {g : HnswGraph} (h : NodeInv dimension g) {i : Nat} {node : Node}
    (hnode : g.nodes[i]? = some node) (id : VectorId) :
    (replayed g (i + 1)).live id =
      if id = node.id then (if node.tombstone then none else some i)
      else (replayed g i).live id := by
  have hlt : i < g.nodeCount := (List.getElem?_eq_some_iff.mp hnode).1
  have hid : g.nodeId i = some node.id := by simp [nodeId, hnode]
  have hlive : node.tombstone = false → g.live node.id = some i := fun ht =>
    (h.live_iff node.id i).mpr ⟨⟨hlt, by simp [isTombstone, hnode, ht]⟩, hid⟩
  have hnot : ∀ id, g.live id = some i → id = node.id ∧ node.tombstone = false := by
    intro id hi
    obtain ⟨⟨-, ht⟩, hid'⟩ := (h.live_iff id i).mp hi
    exact ⟨Option.some.inj (hid'.symm.trans hid), by simpa [isTombstone, hnode] using ht⟩
  show (g.live id).filter _ = _
  by_cases hne : id = node.id
  · subst hne
    rw [if_pos rfl]
    cases ht : node.tombstone with
    | false => simp [hlive ht]
    | true =>
      have hnone : (g.live node.id).filter (fun n => decide (n < i)) = none :=
        replayed_live_none h hnode
      rw [Option.filter_eq_none_iff] at hnone
      rw [if_pos rfl, Option.filter_eq_none_iff]
      intro n hn
      have hni := hnone n hn
      rw [decide_eq_true_eq] at hni ⊢
      have hneq : n ≠ i := fun heq => by
        rw [(hnot node.id (heq ▸ hn)).2] at ht
        exact absurd ht (by simp)
      omega
  · rw [if_neg hne]
    show _ = (g.live id).filter _
    cases hl : g.live id with
    | none => rfl
    | some n =>
      have hneq : n ≠ i := fun heq => hne (hnot id (heq ▸ hl)).1
      have hiff : n < i + 1 ↔ n < i := by omega
      simp [Option.filter, hiff]

/-- One node of the replay. -/
theorem restoreNode_replayed {s : HnswIndex} (h : Inv config dimension s) {i : Nat} {node : Node}
    (hnode : s.graph.nodes[i]? = some node) {embeddings : Nat → Option (List F32)}
    (hemb : embeddings i = s.graph.nodeEmbedding i) :
    restoreNode embeddings i node.record (replayed s.graph i) =
      .ok (replayed s.graph (i + 1)) := by
  obtain ⟨hlt, hget⟩ := List.getElem?_eq_some_iff.mp hnode
  have hlayers : node.neighbors.length = node.level + 1 := by
    simpa [layers, nodeLevel, hnode] using h.links.layers i hlt
  set g := s.graph with hg
  have hcount : (replayed g i).nodeCount = i := by
    simp only [nodeCount, replayed, List.length_take]
    omega
  have hvalues : embeddings i = some node.embedding.values := by
    rw [hemb, nodeEmbedding, hnode, Option.map_some]
  have hdim : ∀ n ∈ (replayed g i).nodes, n.embedding.dimension = node.embedding.dimension := by
    intro n hn
    rw [h.nodes.dim n (List.mem_of_mem_take hn),
      h.nodes.dim node (List.mem_of_getElem? hnode)]
  have hadd := addNode_ok node.level hdim (replayed_live_none h.nodes hnode)
  set g₁ := (replayed g i).withNode node.id node.embedding node.level with hg₁
  have hfresh : g₁.nodes[i]? = some (freshNode node.id node.embedding node.level) := by
    rw [hg₁, getElem?_withNode, if_pos hcount.symm]
  -- the node that is added differs from the stored one in its lists and its mark only
  have hother : ∀ j, j ≠ i → g₁.nodes[j]? = (replayed g (i + 1)).nodes[j]? := by
    intro j hj
    rw [hg₁, getElem?_withNode, if_neg (hcount.symm ▸ hj)]
    simp only [replayed, List.getElem?_take]
    have hiff : j < i + 1 ↔ j < i := by omega
    simp only [hiff]
  have hself : (replayed g (i + 1)).nodes[i]? = some node := by
    simp [replayed, hnode]
  have hlive := replayed_live_succ h.nodes hnode
  have hcount₁ := unmarked_take_succ hnode
  unfold restoreNode
  rw [hvalues]
  show (Embedding.new node.embedding.values >>= _) = _
  rw [Embedding.new_values]
  show ((replayed g i).addNode node.id node.embedding node.level >>= _) = _
  rw [hadd, hcount]
  show Except.ok (restoreLists i node.neighbors
    (if node.tombstone = true then (g₁.tombstone i).2 else g₁)) = _
  congr 1
  cases ht : node.tombstone with
  | false =>
    rw [if_neg (by simp), restoreLists_eq hfresh (by simp [freshNode, hlayers])]
    refine HnswGraph.ext ?_ ?_ rfl ?_
    · apply List.ext_getElem?
      intro j
      rw [List.getElem?_set]
      by_cases hj : i = j
      · subst hj
        rw [hself, if_pos rfl, if_pos (List.getElem?_eq_some_iff.mp hfresh).1]
        cases node
        cases ht
        rfl
      · rw [if_neg hj, hother j (Ne.symm hj)]
    · funext id
      rw [hlive, ht]
      show g₁.live id = _
      rw [hg₁, live_withNode, hcount]
      rfl
    · show unmarked _ + 1 = unmarked _
      rw [hcount₁, ht]
      rfl
  | true =>
    have hlive₁ : g₁.IsLive i := by
      rw [hg₁, isLive_withNode]
      exact Or.inl hcount.symm
    have hid₁ : g₁.nodeId i = some node.id := by
      rw [hg₁, nodeId_withNode, if_pos hcount.symm]
    have hmarked : (g₁.withTombstone i node.id).nodes[i]? =
        some { freshNode node.id node.embedding node.level with tombstone := true } := by
      simp [getElem?_withTombstone, hfresh]
    rw [if_pos rfl, tombstone_live hlive₁ hid₁,
      restoreLists_eq hmarked (by simp [freshNode, hlayers])]
    refine HnswGraph.ext ?_ ?_ rfl ?_
    · apply List.ext_getElem?
      intro j
      rw [List.getElem?_set]
      by_cases hj : i = j
      · subst hj
        rw [hself, if_pos rfl, if_pos (by simpa [withTombstone] using
          (List.getElem?_eq_some_iff.mp hfresh).1)]
        cases node
        cases ht
        rfl
      · rw [if_neg hj, getElem?_withTombstone, hother j (Ne.symm hj)]
        simp [hj]
    · funext id
      rw [hlive, ht]
      show (g₁.withTombstone i node.id).live id = _
      rw [live_withTombstone, hg₁, live_withNode]
      by_cases hne : id = node.id
      · rw [if_pos hne, if_pos hne, if_pos rfl]
      · rw [if_neg hne, if_neg hne, if_neg hne]
    · show unmarked _ + 1 - 1 = unmarked _
      rw [hcount₁, ht]
      rfl

/-- The whole replay. -/
theorem restoreNodes_replayed {s : HnswIndex} (h : Inv config dimension s)
    {embeddings : Nat → Option (List F32)}
    (hemb : ∀ i, i < s.graph.nodeCount → embeddings i = s.graph.nodeEmbedding i)
    (rest : List Node) (i : Nat) (hrest : s.graph.nodes.drop i = rest) :
    restoreNodes embeddings i (rest.map Node.record) (replayed s.graph i) =
      .ok (replayed s.graph (i + rest.length)) := by
  induction rest generalizing i with
  | nil => rfl
  | cons node rest ih =>
    have hnode : s.graph.nodes[i]? = some node := by
      rw [← List.head?_drop, hrest, List.head?_cons]
    have hlt : i < s.graph.nodeCount := (List.getElem?_eq_some_iff.mp hnode).1
    have hdrop : s.graph.nodes.drop (i + 1) = rest := by
      rw [← List.tail_drop, hrest, List.tail_cons]
    rw [List.map_cons, restoreNodes, restoreNode_replayed h hnode (hemb i hlt)]
    show restoreNodes embeddings (i + 1) (rest.map Node.record) (replayed s.graph (i + 1)) = _
    rw [ih (i + 1) hdrop, List.length_cons]
    congr 2
    omega

/-- An index is restored from its snapshot and its embeddings. -/
theorem fromSnapshot_snapshot {s : HnswIndex} (h : Inv config dimension s)
    {embeddings : Nat → Option (List F32)}
    (hemb : ∀ i, i < s.graph.nodeCount → embeddings i = s.graph.nodeEmbedding i) :
    fromSnapshot config dimension s.snapshot embeddings = .ok s := by
  have hreplay := restoreNodes_replayed h hemb s.graph.nodes 0 rfl
  have hempty : replayed s.graph 0 = HnswGraph.new := by
    refine HnswGraph.ext rfl ?_ rfl rfl
    funext id
    cases s.graph.live id <;> simp [replayed, HnswGraph.new]
  have hfull : (replayed s.graph (0 + s.graph.nodes.length)).setEntryPoint s.graph.entryPoint =
      s.graph := by
    refine HnswGraph.ext (by simp [replayed]) ?_ rfl ?_
    · funext id
      rw [live_setEntryPoint, Nat.zero_add]
      show (s.graph.live id).filter _ = _
      cases hl : s.graph.live id with
      | none => rfl
      | some n =>
        have hn : n < s.graph.nodes.length := ((h.nodes.live_iff id n).mp hl).1.1
        simp [Option.filter, hn]
    · rw [h.nodes.liveCount, length_liveNodes]
      simp [replayed, unmarked]
  rw [hempty] at hreplay
  unfold fromSnapshot
  rw [snapshot_eq h]
  dsimp only
  rw [hreplay]
  show Except.ok _ = Except.ok s
  rw [hfull, ← h.config_eq, ← h.dimension_eq]
  rfl

/-! ## Restored vectors

    Restoring reads one vector for each row, in order, whatever the rows
    say. -/

section Vectors

variable {embeddings : Nat → Option (List F32)} {g g' : HnswGraph}

theorem map_modify_of_eq {α β : Type} {f : α → β} {h : α → α} (hf : ∀ a, f (h a) = f a) (l : List α)
    (n : Nat) : (l.modify n h).map f = l.map f := by
  apply List.ext_getElem?
  intro i
  rw [List.getElem?_map, List.getElem?_map, List.getElem?_modify]
  cases l[i]? with
  | none => simp
  | some a => by_cases hi : n = i <;> simp [hi, hf]

theorem values_tombstone (g : HnswGraph) (node : Nat) :
    (g.tombstone node).2.nodes.map (fun n => n.embedding.values) =
      g.nodes.map fun n => n.embedding.values := by
  unfold tombstone
  cases g.nodes[node]? with
  | none => rfl
  | some n =>
    dsimp only
    split
    · rfl
    · apply map_modify_of_eq
      exact fun _ => rfl

theorem values_restoreLists (idx : Nat) (lists : List (List Nat)) (g : HnswGraph) :
    (restoreLists idx lists g).nodes.map (fun n => n.embedding.values) =
      g.nodes.map fun n => n.embedding.values := by
  rw [restoreLists, foldl_setNeighbors]
  apply map_modify_of_eq
  exact fun _ => rfl

theorem values_addNode {id : VectorId} {e : Embedding} {level n : Nat}
    (h : g.addNode id e level = .ok (n, g')) :
    g'.nodes.map (fun n => n.embedding.values) =
      g.nodes.map (fun n => n.embedding.values) ++ [e.values] := by
  have hpush : addNode.push g id e level = .ok (n, g') := by
    unfold addNode at h
    split at h
    · split at h
      · cases h
      · exact h
    · exact h
  unfold addNode.push at hpush
  split at hpush
  · cases hpush
  · cases hpush
    rw [List.map_append]
    rfl

theorem values_restoreNode {idx : Nat} {node : SnapshotNode}
    (h : restoreNode embeddings idx node g = .ok g') :
    ∃ values, embeddings idx = some values ∧ g'.nodes.map (fun n => n.embedding.values) =
      g.nodes.map (fun n => n.embedding.values) ++ [values] := by
  unfold restoreNode at h
  cases hvalues : embeddings idx with
  | none =>
    rw [hvalues] at h
    cases h
  | some values =>
    rw [hvalues] at h
    dsimp only at h
    refine ⟨values, rfl, ?_⟩
    cases hnew : Embedding.new values with
    | error e =>
      rw [hnew] at h
      cases h
    | ok e =>
      cases hadd : g.addNode ⟨node.idBytes⟩ e node.level with
      | error error =>
        simp only [hnew, hadd, Bind.bind, Except.bind] at h
        cases h
      | ok added =>
        obtain ⟨n, g₁⟩ := added
        simp only [hnew, hadd, Bind.bind, Except.bind] at h
        cases h
        rw [values_restoreLists, ← Embedding.values_of_new hnew, ← values_addNode hadd]
        split
        · exact values_tombstone g₁ idx
        · rfl

theorem values_restoreNodes {idx : Nat} {rows : List SnapshotNode}
    (h : restoreNodes embeddings idx rows g = .ok g') :
    ∃ values, (∀ i, i < rows.length → embeddings (idx + i) = values[i]?) ∧
      values.length = rows.length ∧
      g'.nodes.map (fun n => n.embedding.values) =
        g.nodes.map (fun n => n.embedding.values) ++ values := by
  induction rows generalizing idx g with
  | nil =>
    cases h
    exact ⟨[], by simp, rfl, by rw [List.append_nil]⟩
  | cons node rest ih =>
    unfold restoreNodes at h
    cases hnode : restoreNode embeddings idx node g with
    | error e =>
      rw [hnode] at h
      cases h
    | ok g₁ =>
      rw [hnode] at h
      obtain ⟨v, hv, hmap⟩ := values_restoreNode hnode
      obtain ⟨values, hvalues, hlen, hrest⟩ := ih h
      refine ⟨v :: values, ?_, by rw [List.length_cons, List.length_cons, hlen], ?_⟩
      · intro i hi
        cases i with
        | zero => exact hv
        | succ i =>
          rw [← Nat.succ_add_eq_add_succ, List.getElem?_cons_succ]
          exact hvalues i (Nat.lt_of_succ_lt_succ hi)
      · rw [hrest, hmap, List.append_assoc]
        rfl

/-- A restored index has the parameters it was restored with, and at node `i`
    the vector it was given for `i`. -/
theorem restored_values {snap : GraphSnapshot} {s : HnswIndex}
    (h : fromSnapshot config dimension snap embeddings = .ok s) :
    s.config = config ∧ s.dimension = dimension ∧
      ∃ values, (∀ i, i < snap.nodes.length → embeddings i = values[i]?) ∧
        values.length = snap.nodes.length ∧
        s.graph.nodes.map (fun n => n.embedding.values) = values := by
  unfold fromSnapshot at h
  cases hnodes : restoreNodes embeddings 0 snap.nodes HnswGraph.new with
  | error e =>
    rw [hnodes] at h
    cases h
  | ok graph =>
    rw [hnodes] at h
    cases h
    obtain ⟨values, hvalues, hlen, hmap⟩ := values_restoreNodes hnodes
    refine ⟨rfl, rfl, values, ?_, hlen, hmap⟩
    intro i hi
    rw [← hvalues i hi, Nat.zero_add]

end Vectors

/-- **Restoration.**  A reachable index is restored as it was, so that every
    later call answers the same. -/
theorem reachable_restored {s : HnswIndex} (h : Reachable P config dimension s) :
    fromSnapshot config dimension s.snapshot s.graph.nodeEmbedding = .ok s :=
  fromSnapshot_snapshot (reachable_inv h) fun _ _ => rfl

theorem reachable_restored_reinsert : ∃ answers s,
    (new (.degreeTwo 50) .one).run .small reinsertCalls = some (answers, s) ∧
      s.graph.nodeCount = 3 ∧
      fromSnapshot (.degreeTwo 50) .one s.snapshot s.graph.nodeEmbedding = .ok s := by
  obtain ⟨answers, s, hrun⟩ := run_isSome (P := .small) (inv_new (.degreeTwo 50) .one)
    reinsertCalls
  have hcount : ((new (.degreeTwo 50) .one).run .small reinsertCalls).map
      (fun r => r.2.graph.nodeCount) = some 3 := by decide +kernel
  rw [hrun] at hcount
  exact ⟨answers, s, hrun, by simpa using hcount,
    reachable_restored (reachable_run .init reinsertCalls hrun)⟩

end HnswIndex

end EidosDB
