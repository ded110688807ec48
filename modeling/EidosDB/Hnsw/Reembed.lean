import EidosDB.Hnsw.Snapshot

/-! # Contents and Exchanged Vectors

    What a graph holds, as a map from ids to embeddings, and the graph with
    its vectors replaced by those of a list.  Replacing the vectors keeps
    the structure and the snapshot, whatever the vectors are: nothing but
    the scores depends on them. -/

namespace EidosDB

variable {config : HnswConfig} {dimension : Dimension}

namespace HnswGraph

/-- The embedding stored for a live id. -/
def contents (g : HnswGraph) (id : VectorId) : Option Embedding :=
  (g.live id).bind fun n => g.nodes[n]?.map Node.embedding

/-- Node `i` with vector `recs[i]`, where there is one. -/
def reembedded (recs : List Embedding) (g : HnswGraph) : HnswGraph :=
  { g with nodes := g.nodes.mapIdx fun i n => { n with embedding := recs.getD i n.embedding } }

section reembedded

variable (recs : List Embedding) (g : HnswGraph)

theorem getElem?_reembedded (n : Nat) : (g.reembedded recs).nodes[n]? =
    g.nodes[n]?.map fun x => { x with embedding := recs.getD n x.embedding } :=
  List.getElem?_mapIdx

/-- A getter that does not look at the vector. -/
theorem read_reembedded {α : Type} (f : Node → α)
    (hf : ∀ (x : Node) (e : Embedding), f { x with embedding := e } = f x) (n : Nat) :
    (g.reembedded recs).nodes[n]?.map f = g.nodes[n]?.map f := by
  rw [getElem?_reembedded, Option.map_map]
  congr 1
  funext x
  exact hf x _

theorem map_nodes_reembedded {α : Type} (f : Node → α)
    (hf : ∀ (x : Node) (e : Embedding), f { x with embedding := e } = f x) :
    (g.reembedded recs).nodes.map f = g.nodes.map f := by
  apply List.ext_getElem?
  intro n
  rw [List.getElem?_map, List.getElem?_map, read_reembedded recs g f hf]

@[simp] theorem nodeCount_reembedded : (g.reembedded recs).nodeCount = g.nodeCount := by
  simp [nodeCount, reembedded]

@[simp] theorem live_reembedded : (g.reembedded recs).live = g.live := rfl

@[simp] theorem entryPoint_reembedded : (g.reembedded recs).entryPoint = g.entryPoint := rfl

@[simp] theorem liveCount_reembedded : (g.reembedded recs).liveCount = g.liveCount := rfl

@[simp] theorem nodeId_reembedded (n : Nat) : (g.reembedded recs).nodeId n = g.nodeId n :=
  read_reembedded recs g (fun x => x.id) (fun _ _ => rfl) n

@[simp] theorem nodeLevel_reembedded (n : Nat) :
    (g.reembedded recs).nodeLevel n = g.nodeLevel n := by
  unfold nodeLevel
  rw [getElem?_reembedded]
  cases g.nodes[n]? <;> rfl

@[simp] theorem isTombstone_reembedded (n : Nat) :
    (g.reembedded recs).isTombstone n = g.isTombstone n := by
  unfold isTombstone
  rw [getElem?_reembedded]
  cases g.nodes[n]? <;> rfl

@[simp] theorem layers_reembedded (n : Nat) : (g.reembedded recs).layers n = g.layers n := by
  unfold layers
  rw [getElem?_reembedded]
  cases g.nodes[n]? <;> rfl

@[simp] theorem neighbors_reembedded (n l : Nat) :
    (g.reembedded recs).neighbors n l = g.neighbors n l := by
  unfold neighbors
  rw [getElem?_reembedded]
  cases g.nodes[n]? <;> rfl

@[simp] theorem isLive_reembedded (n : Nat) : (g.reembedded recs).IsLive n ↔ g.IsLive n := by
  unfold IsLive
  rw [nodeCount_reembedded, isTombstone_reembedded]

theorem nodeEmbedding_reembedded {n : Nat} {e : Embedding} (hn : n < g.nodeCount)
    (he : recs[n]? = some e) : (g.reembedded recs).nodeEmbedding n = some e.values := by
  obtain ⟨node, hnode⟩ := exists_node hn
  rw [nodeEmbedding, getElem?_reembedded, hnode]
  simp [List.getD_eq_getElem?_getD, he]

/-- Vectors that are the nodes' own change nothing. -/
theorem reembedded_self (h : ∀ (n : Nat) (node : Node) (e : Embedding), g.nodes[n]? = some node →
    recs[n]? = some e → e = node.embedding) : g.reembedded recs = g := by
  refine HnswGraph.ext ?_ rfl rfl rfl
  apply List.ext_getElem?
  intro n
  rw [getElem?_reembedded]
  cases hnode : g.nodes[n]? with
  | none => rfl
  | some node =>
    cases he : recs[n]? with
    | none => simp [List.getD_eq_getElem?_getD, he]
    | some e =>
      rw [Option.map_some, List.getD_eq_getElem?_getD, he, Option.getD_some, h n node e hnode he]

end reembedded

theorem contents_eq_some {g : HnswGraph} (h : NodeInv dimension g) {id : VectorId} {e : Embedding} :
    g.contents id = some e ↔
      ∃ (n : Nat) (node : Node), g.nodes[n]? = some node ∧ node.tombstone = false ∧ node.id = id ∧
        node.embedding = e := by
  unfold contents
  rw [Option.bind_eq_some_iff]
  constructor
  · rintro ⟨n, hlive, hemb⟩
    obtain ⟨node, hnode, rfl⟩ := Option.map_eq_some_iff.mp hemb
    obtain ⟨⟨-, ht⟩, hid⟩ := (h.live_iff id n).mp hlive
    refine ⟨n, node, hnode, ?_, ?_, rfl⟩
    · simpa [isTombstone, hnode] using ht
    · simpa [nodeId, hnode] using hid
  · rintro ⟨n, node, hnode, ht, hid, rfl⟩
    have hlt : n < g.nodeCount := (List.getElem?_eq_some_iff.mp hnode).1
    refine ⟨n, (h.live_iff id n).mpr ⟨⟨hlt, ?_⟩, ?_⟩, ?_⟩
    · simp [isTombstone, hnode, ht]
    · simp [nodeId, hnode, hid]
    · rw [hnode, Option.map_some]

/-- The contents are the live points. -/
theorem contents_eq_some_iff_mem {g : HnswGraph} (h : NodeInv dimension g) {id : VectorId}
    {e : Embedding} : g.contents id = some e ↔ (id, e) ∈ g.points :=
  (contents_eq_some h).trans mem_points.symm

/-- Exchanging the vectors keeps the contents exactly when the live nodes get
    the vectors they have. -/
theorem contents_reembedded_iff {g : HnswGraph} (h : NodeInv dimension g) {recs : List Embedding}
    (hcount : g.nodeCount ≤ recs.length) :
    (∀ id, (g.reembedded recs).contents id = g.contents id) ↔
      ∀ (n : Nat) (node : Node), g.nodes[n]? = some node → node.tombstone = false →
        recs[n]? = some node.embedding := by
  have hread : ∀ (n : Nat) (node : Node), g.nodes[n]? = some node →
      ∃ e, recs[n]? = some e ∧ (g.reembedded recs).nodes[n]?.map Node.embedding = some e := by
    intro n node hnode
    have hlt : n < recs.length := lt_of_lt_of_le (List.getElem?_eq_some_iff.mp hnode).1 hcount
    refine ⟨recs[n], List.getElem?_eq_getElem hlt, ?_⟩
    rw [getElem?_reembedded, hnode]
    simp [List.getD_eq_getElem?_getD, List.getElem?_eq_getElem hlt]
  constructor
  · intro hsame n node hnode ht
    have hlive : g.live node.id = some n := by
      have hlt : n < g.nodeCount := (List.getElem?_eq_some_iff.mp hnode).1
      exact (h.live_iff node.id n).mpr
        ⟨⟨hlt, by simp [isTombstone, hnode, ht]⟩, by simp [nodeId, hnode]⟩
    obtain ⟨e, he, hnew⟩ := hread n node hnode
    have heq := hsame node.id
    unfold contents at heq
    rw [live_reembedded, hlive, Option.bind_some, Option.bind_some, hnew, hnode] at heq
    rw [he, heq, Option.map_some]
  · intro hkept id
    unfold contents
    rw [live_reembedded]
    cases hlive : g.live id with
    | none => rfl
    | some n =>
      obtain ⟨⟨hlt, ht⟩, -⟩ := (h.live_iff id n).mp hlive
      obtain ⟨node, hnode⟩ := exists_node hlt
      have ht' : node.tombstone = false := by simpa [isTombstone, hnode] using ht
      obtain ⟨e, he, hnew⟩ := hread n node hnode
      rw [Option.bind_some, Option.bind_some, hnew, hnode, Option.map_some, ← he,
        hkept n node hnode ht']

end HnswGraph

namespace HnswIndex

open HnswGraph

variable {s : HnswIndex}

def reembedded (recs : List Embedding) (self : HnswIndex) : HnswIndex :=
  { self with graph := self.graph.reembedded recs }

@[simp] theorem graph_reembedded (recs : List Embedding) :
    (s.reembedded recs).graph = s.graph.reembedded recs := rfl

/-- The invariant does not depend on the vectors, their dimension apart. -/
theorem Inv.reembedded (h : Inv config dimension s) {recs : List Embedding}
    (hdims : ∀ e ∈ recs, e.dimension = dimension.get) :
    Inv config dimension (s.reembedded recs) := by
  have hdim : ∀ node ∈ (s.graph.reembedded recs).nodes,
      node.embedding.dimension = dimension.get := by
    intro node hmem
    obtain ⟨n, hn⟩ := List.getElem?_of_mem hmem
    rw [getElem?_reembedded] at hn
    obtain ⟨old, hold, rfl⟩ := Option.map_eq_some_iff.mp hn
    dsimp only
    rw [List.getD_eq_getElem?_getD]
    cases he : recs[n]? with
    | none => exact h.nodes.dim old (List.mem_of_getElem? hold)
    | some e => exact hdims e (List.mem_of_getElem? he)
  have hlevel : ∀ node ∈ (s.graph.reembedded recs).nodes, node.level ≤ maxLevel := by
    rw [← List.forall_mem_map (f := fun node : Node => node.level) (P := (· ≤ maxLevel)),
      map_nodes_reembedded recs s.graph (fun node => node.level) (fun _ _ => rfl),
      List.forall_mem_map]
    exact h.nodes.level_le
  have hlinks : LinkInv config (s.graph.reembedded recs) := by
    refine ⟨?_, ?_, ?_, ?_, ?_, ?_⟩ <;>
      simp only [nodeCount_reembedded, layers_reembedded, nodeLevel_reembedded,
        neighbors_reembedded]
    · exact h.links.layers
    · exact h.links.inRange
    · exact h.links.irrefl
    · exact h.links.level
    · exact h.links.nodup
    · exact h.links.degree
  have hcount : (s.graph.reembedded recs).liveNodes.length = s.graph.liveNodes.length := by
    have hmarks := map_nodes_reembedded recs s.graph (fun node => !node.tombstone) (fun _ _ => rfl)
    have hlen := congrArg (List.countP id) hmarks
    rw [length_liveNodes, length_liveNodes]
    simpa only [List.countP_map, Function.comp_def, id_eq] using hlen
  refine ⟨h.config_eq, h.dimension_eq, hlinks, ⟨hdim, hlevel, ?_, ?_, ?_⟩, ⟨?_, ?_, ?_⟩⟩
  · intro id n
    rw [graph_reembedded, live_reembedded, isLive_reembedded, nodeId_reembedded]
    exact h.nodes.live_iff id n
  · intro a b hab
    rw [graph_reembedded, nodeCount_reembedded, nodeId_reembedded, nodeId_reembedded,
      isTombstone_reembedded]
    exact h.nodes.older_dead a b hab
  · rw [graph_reembedded, liveCount_reembedded, hcount]
    exact h.nodes.liveCount
  · rw [graph_reembedded, entryPoint_reembedded]
    simp only [isLive_reembedded]
    exact h.entry.none_iff
  · intro e he
    rw [graph_reembedded, isLive_reembedded]
    exact h.entry.live e he
  · intro e n he
    rw [graph_reembedded, isLive_reembedded, nodeLevel_reembedded, nodeLevel_reembedded]
    exact h.entry.top e n he

/-- The snapshot holds no vectors. -/
theorem snapshot_reembedded (h : Inv config dimension s) {recs : List Embedding}
    (hdims : ∀ e ∈ recs, e.dimension = dimension.get) :
    (s.reembedded recs).snapshot = s.snapshot := by
  rw [snapshot_eq (h.reembedded hdims), snapshot_eq h]
  have hnodes := map_nodes_reembedded recs s.graph Node.record (fun _ _ => rfl)
  have hlevel : (s.graph.reembedded recs).nodeLevel = s.graph.nodeLevel :=
    funext (nodeLevel_reembedded recs s.graph)
  show GraphSnapshot.mk ((s.graph.reembedded recs).nodes.map Node.record) _
    (s.graph.entryPoint.elim 0 (s.graph.reembedded recs).nodeLevel) _ _ = _
  rw [hnodes, hlevel]
  rfl

/-- Restoring from the snapshot with other vectors exchanges them. -/
theorem fromSnapshot_reembedded (h : Inv config dimension s) {recs : List Embedding}
    (hdims : ∀ e ∈ recs, e.dimension = dimension.get) (hcount : s.graph.nodeCount ≤ recs.length)
    {embeddings : Nat → Option (List F32)}
    (hemb : ∀ i e, i < s.graph.nodeCount → recs[i]? = some e → embeddings i = some e.values) :
    fromSnapshot config dimension s.snapshot embeddings = .ok (s.reembedded recs) := by
  rw [← snapshot_reembedded h hdims]
  apply fromSnapshot_snapshot (h.reembedded hdims)
  intro i hi
  have hi : i < s.graph.nodeCount := lt_of_lt_of_eq hi (nodeCount_reembedded recs s.graph)
  have hget := List.getElem?_eq_getElem (lt_of_lt_of_le hi hcount)
  rw [hemb i _ hi hget]
  exact (nodeEmbedding_reembedded recs s.graph hi hget).symm

/-! ## The contents after a call -/

theorem contents_inserted {s' : HnswIndex} {id : VectorId} {e : Embedding} {level : Nat}
    {delta : InsertDelta} (h : Inv config dimension s) (hi : Inserted s id e level delta s') :
    s'.graph.contents = Function.update s.graph.contents id (some e) := by
  have hnodes := hi.nodes_map Node.embedding (fun _ => rfl)
  have hread : ∀ n : Nat, s'.graph.nodes[n]?.map Node.embedding =
      (s.graph.nodes.map Node.embedding ++ [e])[n]? := by
    intro n
    rw [← List.getElem?_map, hnodes]
    rfl
  funext id'
  rw [contents, live_inserted hi, Function.update_apply]
  by_cases hid : id' = id
  · rw [if_pos hid, if_pos hid, Option.bind_some, hread,
      List.getElem?_append_right (by rw [List.length_map]; exact le_refl _)]
    simp [HnswGraph.nodeCount]
  · rw [if_neg hid, if_neg hid, contents]
    cases hlive : s.graph.live id' with
    | none => rfl
    | some n =>
      have hlt : n < s.graph.nodes.length := ((h.nodes.live_iff id' n).mp hlive).1.1
      rw [Option.bind_some, Option.bind_some, hread,
        List.getElem?_append_left (by rw [List.length_map]; exact hlt), List.getElem?_map]

theorem contents_removed (h : Inv config dimension s) (id : VectorId) :
    (s.removeTracked id).2.graph.contents = Function.update s.graph.contents id none := by
  have houtcome := removeTracked_outcome h id
  generalize s.removeTracked id = out at houtcome
  obtain ⟨result, s'⟩ := out
  cases houtcome with
  | absent hlive =>
    have hnone : s'.graph.contents id = none := by
      rw [contents, hlive]
      rfl
    rw [← hnone, Function.update_eq_self]
  | @removed node hlive =>
    funext id'
    have hnodes : ∀ n : Nat, (s.graph.withTombstone node id).nodes[n]?.map Node.embedding =
        s.graph.nodes[n]?.map Node.embedding :=
      read_withTombstone s.graph node id Node.embedding (fun _ => rfl)
    rw [contents, live_setEntryPoint, live_withTombstone, Function.update_apply]
    by_cases hid : id' = id
    · rw [if_pos hid, if_pos hid]
      rfl
    · simp only [hid, if_false, nodes_setEntryPoint, hnodes]
      rfl

/-- A removal keeps every node's vector. -/
theorem map_embedding_removeTracked (h : Inv config dimension s) (id : VectorId) :
    (s.removeTracked id).2.graph.nodes.map Node.embedding =
      s.graph.nodes.map Node.embedding := by
  have houtcome := removeTracked_outcome h id
  generalize s.removeTracked id = out at houtcome
  obtain ⟨result, s'⟩ := out
  cases houtcome with
  | absent => rfl
  | @removed node _ =>
    apply List.ext_getElem?
    intro n
    rw [List.getElem?_map, List.getElem?_map]
    exact read_withTombstone _ node id Node.embedding (fun _ => rfl) n

theorem contents_eq_find (h : Inv config dimension s) (id : VectorId) :
    s.graph.contents id = (s.graph.points.find? fun p => decide (p.1 = id)).map Prod.snd := by
  cases hfind : s.graph.points.find? fun p => decide (p.1 = id) with
  | none =>
    rw [Option.map_none, Option.eq_none_iff_forall_not_mem]
    intro e he
    have hmem := (contents_eq_some_iff_mem h.nodes).mp he
    have hne := List.find?_eq_none.mp hfind (id, e) hmem
    simp at hne
  | some p =>
    have hid : p.1 = id := by simpa using List.find?_some hfind
    rw [Option.map_some, contents_eq_some_iff_mem h.nodes, ← hid]
    exact List.mem_of_find?_eq_some hfind

/-- Indexes with the same live points have the same contents. -/
theorem contents_of_points {s' : HnswIndex} (h : Inv config dimension s)
    (h' : Inv config dimension s') (hpoints : s'.graph.points = s.graph.points) :
    s'.graph.contents = s.graph.contents := by
  funext id
  rw [contents_eq_find h, contents_eq_find h', hpoints]

/-! ## Compaction -/

/-- A graph with as many live nodes as nodes has no marked one. -/
theorem unmarked_of_liveCount {g : HnswGraph} (h : NodeInv dimension g)
    (hcount : g.nodeCount = g.liveCount) (n : Nat) : g.isTombstone n = false := by
  have hall : g.nodes.countP (fun node => !node.tombstone) = g.nodes.length := by
    rw [← length_liveNodes, ← h.liveCount, ← hcount]
    rfl
  unfold isTombstone
  cases hn : g.nodes[n]? with
  | none => rfl
  | some node =>
    have hnode := List.countP_eq_length.mp hall node (List.mem_of_getElem? hn)
    simpa using hnode

/-- **Compaction loses nothing.**  In every reachable state it succeeds with
    the contents as they were and no marked node left, and the index it
    leaves is the one that the live points in node order build from empty. -/
theorem reachable_compacts {P : Platform} {s : HnswIndex} (h : Reachable P config dimension s)
    (levelFloat : LevelFloat) :
    ∃ s', s.compact P levelFloat = some (.ok (), s') ∧
      s'.graph.contents = s.graph.contents ∧
      s'.graph.nodeCount = s'.graph.liveCount ∧ (∀ n, s'.graph.isTombstone n = false) ∧
      (new config dimension).bulkInsert P levelFloat s.graph.points = some (.ok (), s') := by
  have hinv := reachable_inv h
  obtain ⟨s', hcall, hinv', hnodes, hpoints⟩ := compact_spec (P := P) hinv levelFloat
  have hcount : s'.graph.nodeCount = s'.graph.liveCount := by
    have hlen := congrArg List.length (hnodes.trans hpoints.symm)
    rw [List.length_map, length_points] at hlen
    rw [hinv'.nodes.liveCount, ← hlen]
    rfl
  refine ⟨s', hcall, contents_of_points hinv hinv' hpoints, hcount,
    unmarked_of_liveCount hinv'.nodes hcount, ?_⟩
  rw [← compact_eq levelFloat hinv, hcall]

/-- The history with a removed and reinserted id, compacted. -/
theorem reachable_compacts_reinsert : ∃ answers s s',
    (new (.degreeTwo 50) .one).run .small reinsertCalls = some (answers, s) ∧
      s.graph.nodeCount = 3 ∧ s.compact .small .base2 = some (.ok (), s') ∧
      s'.graph.contents = s.graph.contents ∧ s'.graph.nodeCount = s'.graph.liveCount := by
  obtain ⟨answers, s, hrun⟩ := run_isSome (P := .small) (inv_new (.degreeTwo 50) .one)
    reinsertCalls
  have hnodes : ((new (.degreeTwo 50) .one).run .small reinsertCalls).map
      (fun r => r.2.graph.nodeCount) = some 3 := by decide +kernel
  rw [hrun] at hnodes
  obtain ⟨s', hcall, hcontents, hcount, -⟩ :=
    reachable_compacts (reachable_run .init reinsertCalls hrun) .base2
  exact ⟨answers, s, s', hrun, by simpa using hnodes, hcall, hcontents, hcount⟩

end HnswIndex

end EidosDB
