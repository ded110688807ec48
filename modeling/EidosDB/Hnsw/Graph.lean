import EidosDB.Hnsw.Config

/-! # The HNSW Graph

    Nodes are numbered densely in insertion order; a node number (`NodeIdx`
    in the source) is a `Nat`.  A removed node is only marked: it keeps its
    number and its lists, and the live map forgets its id.

    A graph is read through `neighbors`, `nodeLevel`, `nodeId`,
    `nodeEmbedding` and `isTombstone`.  Each update has one lemma for each
    of them, and updates that only rewrite lists are `SameShape` steps. -/

namespace EidosDB

structure Node where
  id : VectorId
  embedding : Embedding
  /-- One list per layer. -/
  neighbors : List (List Nat)
  level : Nat
  tombstone : Bool
  deriving DecidableEq

/-- The node with its lists emptied, their number kept. -/
def Node.shape (n : Node) : Node :=
  { n with neighbors := List.replicate n.neighbors.length [] }

/-- `HnswGraph`; the hash map `live` is the function it computes. -/
@[ext] structure HnswGraph where
  nodes : List Node
  live : VectorId → Option Nat
  entryPoint : Option Nat
  liveCount : Nat

namespace HnswGraph

def new : HnswGraph :=
  { nodes := [], live := fun _ => none, entryPoint := none, liveCount := 0 }

def nodeCount (g : HnswGraph) : Nat := g.nodes.length

/-- Dimension of the first node. -/
def dimensionHint (g : HnswGraph) : Option Nat := g.nodes.head?.map (fun n => n.embedding.dimension)

def addNode (g : HnswGraph) (id : VectorId) (embedding : Embedding) (level : Nat) :
    Except IndexError (Nat × HnswGraph) :=
  match g.dimensionHint with
  | some expected =>
      if embedding.dimension ≠ expected then
        .error (.dimensionMismatch expected embedding.dimension)
      else push
  | none => push
where
  push : Except IndexError (Nat × HnswGraph) :=
    if (g.live id).isSome then .error (.duplicateId id)
    else
      let idx := g.nodes.length
      .ok (idx,
        { g with
          nodes := g.nodes ++ [{ id := id, embedding := embedding, level := level
                                 neighbors := List.replicate (level + 1) [], tombstone := false }]
          live := Function.update g.live id (some idx)
          liveCount := g.liveCount + 1 })

/-- A list outside the node's layers is not written. -/
def setNeighbors (g : HnswGraph) (node : Nat) (layer : Nat) (neighbors : List Nat) :
    HnswGraph :=
  { g with
    nodes := g.nodes.modify node (fun n => { n with neighbors := n.neighbors.set layer neighbors }) }

/-- Empty where there is no such list. -/
def neighbors (g : HnswGraph) (node : Nat) (layer : Nat) : List Nat :=
  (g.nodes[node]?.bind (fun n => n.neighbors[layer]?)).getD []

def isTombstone (g : HnswGraph) (node : Nat) : Bool := g.nodes[node]?.any (fun n => n.tombstone)

/-- Mark a node and forget its id; `false` if there is nothing to mark. -/
def tombstone (g : HnswGraph) (node : Nat) : Bool × HnswGraph :=
  match g.nodes[node]? with
  | none => (false, g)
  | some n =>
      if n.tombstone then (false, g)
      else
        (true,
          { g with
            nodes := g.nodes.modify node (fun n => { n with tombstone := true })
            live := Function.update g.live n.id none
            liveCount := g.liveCount - 1 })

def nodeLevel (g : HnswGraph) (node : Nat) : Nat := g.nodes[node]?.elim 0 (fun n => n.level)

def nodeId (g : HnswGraph) (node : Nat) : Option VectorId := g.nodes[node]?.map (fun n => n.id)

def nodeEmbedding (g : HnswGraph) (node : Nat) : Option (List F32) :=
  g.nodes[node]?.map (fun n => n.embedding.values)

def setEntryPoint (g : HnswGraph) (node : Option Nat) : HnswGraph :=
  { g with entryPoint := node }

def idToNode (g : HnswGraph) (id : VectorId) : Option Nat := g.live id

/-- A live node as `live_nodes` yields it. -/
structure LiveNode where
  idx : Nat
  id : VectorId
  embedding : List F32
  level : Nat

def liveNodes (g : HnswGraph) : List LiveNode :=
  (g.nodes.zipIdx.filter (fun p => !p.1.tombstone)).map
    (fun p => { idx := p.2, id := p.1.id, embedding := p.1.embedding.values, level := p.1.level })

/-- Number of lists of a node. -/
def layers (g : HnswGraph) (node : Nat) : Nat :=
  g.nodes[node]?.elim 0 (fun n => n.neighbors.length)

/-- A stored node that is not tombstoned. -/
def IsLive (g : HnswGraph) (node : Nat) : Prop :=
  node < g.nodeCount ∧ g.isTombstone node = false

instance (g : HnswGraph) (node : Nat) : Decidable (g.IsLive node) :=
  inferInstanceAs (Decidable (_ ∧ _))

/-- `b` is listed by `a` at `layer`. -/
def Link (g : HnswGraph) (layer : Nat) (a b : Nat) : Prop := b ∈ g.neighbors a layer

/-! ## Out of range -/

theorem getElem?_of_le {g : HnswGraph} {n : Nat} (h : g.nodeCount ≤ n) :
    g.nodes[n]? = none :=
  List.getElem?_eq_none h

theorem neighbors_of_le {g : HnswGraph} {n : Nat} (h : g.nodeCount ≤ n) (l : Nat) :
    g.neighbors n l = [] := by
  simp [neighbors, getElem?_of_le h]

theorem lt_of_mem_neighbors {g : HnswGraph} {n b : Nat} {l : Nat}
    (h : b ∈ g.neighbors n l) : n < g.nodeCount := by
  by_contra hn
  rw [neighbors_of_le (not_lt.mp hn)] at h
  exact absurd h (by simp)

/-- The stored node behind a number in range. -/
theorem exists_node {g : HnswGraph} {n : Nat} (h : n < g.nodeCount) :
    ∃ node, g.nodes[n]? = some node :=
  ⟨g.nodes.get ⟨n, h⟩, List.getElem?_eq_getElem h⟩

theorem nodeId_eq_some {g : HnswGraph} {n : Nat} (h : n < g.nodeCount) :
    ∃ id, g.nodeId n = some id := by
  obtain ⟨node, hnode⟩ := exists_node h
  exact ⟨node.id, by simp [nodeId, hnode]⟩

/-! ## Steps that keep the shape -/

/-- Only the contents of neighbor lists may differ. -/
structure SameShape (g g' : HnswGraph) : Prop where
  nodes : g'.nodes.map Node.shape = g.nodes.map Node.shape
  live : g'.live = g.live
  entryPoint : g'.entryPoint = g.entryPoint
  liveCount : g'.liveCount = g.liveCount

namespace SameShape

variable {g g' g'' : HnswGraph}

theorem refl (g : HnswGraph) : SameShape g g := ⟨rfl, rfl, rfl, rfl⟩

theorem trans (h : SameShape g g') (h' : SameShape g' g'') : SameShape g g'' :=
  ⟨h'.nodes.trans h.nodes, h'.live.trans h.live, h'.entryPoint.trans h.entryPoint,
    h'.liveCount.trans h.liveCount⟩

theorem getElem? (h : SameShape g g') (n : Nat) :
    g'.nodes[n]?.map Node.shape = g.nodes[n]?.map Node.shape := by
  rw [← List.getElem?_map, ← List.getElem?_map, h.nodes]

theorem nodeCount (h : SameShape g g') : g'.nodeCount = g.nodeCount := by
  have := congrArg List.length h.nodes
  rwa [List.length_map, List.length_map] at this

/-- A getter that only looks at the shape of a node. -/
theorem read {α : Type} (f : Node → α) (hf : ∀ n, f n.shape = f n) (h : SameShape g g')
    (n : Nat) : g'.nodes[n]?.map f = g.nodes[n]?.map f := by
  have := congrArg (Option.map f) (h.getElem? n)
  simpa only [Option.map_map, Function.comp_def, hf] using this

theorem isTombstone (h : SameShape g g') (n : Nat) : g'.isTombstone n = g.isTombstone n := by
  have := h.read (fun n => n.tombstone) (fun _ => rfl) n
  unfold HnswGraph.isTombstone
  cases hg : g.nodes[n]? <;> cases hg' : g'.nodes[n]? <;> simp_all

theorem nodeLevel (h : SameShape g g') (n : Nat) : g'.nodeLevel n = g.nodeLevel n := by
  have := h.read (fun n => n.level) (fun _ => rfl) n
  unfold HnswGraph.nodeLevel
  cases hg : g.nodes[n]? <;> cases hg' : g'.nodes[n]? <;> simp_all

theorem layers (h : SameShape g g') (n : Nat) : g'.layers n = g.layers n := by
  have := h.read (fun n => n.neighbors.length) (fun n => by simp [Node.shape]) n
  unfold HnswGraph.layers
  cases hg : g.nodes[n]? <;> cases hg' : g'.nodes[n]? <;> simp_all

theorem nodeId (h : SameShape g g') (n : Nat) : g'.nodeId n = g.nodeId n :=
  h.read (fun n => n.id) (fun _ => rfl) n

theorem nodeEmbedding (h : SameShape g g') (n : Nat) :
    g'.nodeEmbedding n = g.nodeEmbedding n :=
  h.read (fun n => n.embedding.values) (fun _ => rfl) n

theorem isLive (h : SameShape g g') (n : Nat) : g'.IsLive n ↔ g.IsLive n := by
  unfold IsLive
  rw [h.nodeCount, h.isTombstone]

theorem map_nodes {α : Type} (f : Node → α) (hf : ∀ n, f n.shape = f n) (h : SameShape g g') :
    g'.nodes.map f = g.nodes.map f := by
  have := congrArg (List.map f) h.nodes
  simpa only [List.map_map, Function.comp_def, hf] using this

end SameShape

theorem sameShape_setNeighbors (g : HnswGraph) (node : Nat) (layer : Nat)
    (ns : List Nat) : SameShape g (g.setNeighbors node layer ns) := by
  refine ⟨?_, rfl, rfl, rfl⟩
  apply List.ext_getElem?
  intro i
  simp only [setNeighbors, List.getElem?_map, List.getElem?_modify]
  cases g.nodes[i]? with
  | none => rfl
  | some n =>
    by_cases h : node = i
    · simp [Node.shape, h]
    · simp [h]

/-! ## Writing a list -/

theorem neighbors_setNeighbors (g : HnswGraph) (a : Nat) (l : Nat) (ns : List Nat)
    (n : Nat) (k : Nat) :
    (g.setNeighbors a l ns).neighbors n k =
      if n = a ∧ k = l ∧ l < g.layers a then ns else g.neighbors n k := by
  unfold neighbors setNeighbors layers
  simp only [List.getElem?_modify]
  cases hn : g.nodes[n]? with
  | none =>
    by_cases hna : n = a
    · subst hna
      simp [hn]
    · simp [hna]
  | some node =>
    by_cases hna : n = a
    · subst hna
      simp only [hn, Option.map_eq_map, Option.map_some, if_true, Option.bind_some,
        List.getElem?_set, Option.elim_some, true_and]
      by_cases hkl : l = k
      · subst hkl
        by_cases hlt : l < node.neighbors.length
        · simp [hlt]
        · simp [hlt]
      · simp [hkl, Ne.symm hkl]
    · simp [hna, Ne.symm hna]

theorem neighbors_setNeighbors_self {g : HnswGraph} {a : Nat} {l : Nat} (ns : List Nat)
    (h : l < g.layers a) : (g.setNeighbors a l ns).neighbors a l = ns := by
  rw [neighbors_setNeighbors, if_pos ⟨rfl, rfl, h⟩]

theorem neighbors_setNeighbors_layer {g : HnswGraph} {a n : Nat} {l k : Nat}
    (ns : List Nat) (h : k ≠ l) : (g.setNeighbors a l ns).neighbors n k = g.neighbors n k := by
  rw [neighbors_setNeighbors, if_neg (fun hc => h hc.2.1)]

theorem neighbors_setNeighbors_ne {g : HnswGraph} {a n : Nat} {l k : Nat}
    (ns : List Nat) (h : n ≠ a) : (g.setNeighbors a l ns).neighbors n k = g.neighbors n k := by
  rw [neighbors_setNeighbors, if_neg (fun hc => h hc.1)]

/-! ## Adding a node -/

/-- The node `add_node` stores. -/
def freshNode (id : VectorId) (embedding : Embedding) (level : Nat) : Node :=
  { id := id, embedding := embedding, level := level
    neighbors := List.replicate (level + 1) [], tombstone := false }

/-- The graph after `add_node` accepted a node. -/
def withNode (g : HnswGraph) (id : VectorId) (embedding : Embedding) (level : Nat) : HnswGraph :=
  { g with
    nodes := g.nodes ++ [freshNode id embedding level]
    live := Function.update g.live id (some g.nodeCount)
    liveCount := g.liveCount + 1 }

theorem addNode_ok {g : HnswGraph} {id : VectorId} {e : Embedding} (level : Nat)
    (hdim : ∀ n ∈ g.nodes, n.embedding.dimension = e.dimension) (hnew : g.live id = none) :
    g.addNode id e level = .ok (g.nodeCount, g.withNode id e level) := by
  have hpush : addNode.push g id e level = .ok (g.nodeCount, g.withNode id e level) := by
    simp [addNode.push, hnew, withNode, freshNode, nodeCount]
  unfold addNode dimensionHint
  cases hn : g.nodes with
  | nil => simpa using hpush
  | cons n rest =>
    have hd : n.embedding.dimension = e.dimension := hdim n (by rw [hn]; exact List.mem_cons_self)
    simpa [hd] using hpush

section withNode

variable (g : HnswGraph) (id : VectorId) (e : Embedding) (level : Nat)

@[simp] theorem nodeCount_withNode : (g.withNode id e level).nodeCount = g.nodeCount + 1 := by
  simp [nodeCount, withNode]

theorem getElem?_withNode (n : Nat) : (g.withNode id e level).nodes[n]? =
    if n = g.nodeCount then some (freshNode id e level) else g.nodes[n]? := by
  unfold withNode nodeCount
  rw [List.getElem?_append]
  by_cases hlt : n < g.nodes.length
  · simp [hlt, ne_of_lt hlt]
  · by_cases heq : n = g.nodes.length
    · simp [heq]
    · have : g.nodes.length < n := lt_of_le_of_ne (not_lt.mp hlt) (Ne.symm heq)
      simp [heq, hlt]
      omega

@[simp] theorem entryPoint_withNode : (g.withNode id e level).entryPoint = g.entryPoint := rfl

@[simp] theorem liveCount_withNode : (g.withNode id e level).liveCount = g.liveCount + 1 := rfl

theorem live_withNode (id' : VectorId) : (g.withNode id e level).live id' =
    if id' = id then some g.nodeCount else g.live id' := by
  simp [withNode, Function.update_apply]

/-- A new node has no links, so the lists are those of the old graph. -/
@[simp] theorem neighbors_withNode (n : Nat) (l : Nat) :
    (g.withNode id e level).neighbors n l = g.neighbors n l := by
  unfold neighbors
  rw [getElem?_withNode]
  by_cases hn : n = g.nodeCount
  · subst hn
    rw [getElem?_of_le (le_refl _)]
    by_cases hl : l < level + 1 <;> simp [freshNode, hl]
  · simp [hn]

theorem nodeLevel_withNode (n : Nat) : (g.withNode id e level).nodeLevel n =
    if n = g.nodeCount then level else g.nodeLevel n := by
  unfold nodeLevel
  rw [getElem?_withNode]
  split <;> rfl

theorem layers_withNode (n : Nat) : (g.withNode id e level).layers n =
    if n = g.nodeCount then level + 1 else g.layers n := by
  unfold layers
  rw [getElem?_withNode]
  split
  · simp [freshNode]
  · rfl

theorem isTombstone_withNode (n : Nat) : (g.withNode id e level).isTombstone n =
    if n = g.nodeCount then false else g.isTombstone n := by
  unfold isTombstone
  rw [getElem?_withNode]
  split <;> simp [freshNode]

theorem nodeId_withNode (n : Nat) : (g.withNode id e level).nodeId n =
    if n = g.nodeCount then some id else g.nodeId n := by
  unfold nodeId
  rw [getElem?_withNode]
  split <;> simp [freshNode]

theorem isLive_withNode (n : Nat) : (g.withNode id e level).IsLive n ↔
    n = g.nodeCount ∨ g.IsLive n := by
  unfold IsLive
  rw [nodeCount_withNode, isTombstone_withNode]
  by_cases hn : n = g.nodeCount
  · simp [hn]
  · simp only [hn, if_false, false_or]
    constructor <;> rintro ⟨h, ht⟩ <;> exact ⟨by omega, ht⟩

end withNode

/-! ## Marking a node -/

/-- The graph after `tombstone` marked a live node with id `id`. -/
def withTombstone (g : HnswGraph) (node : Nat) (id : VectorId) : HnswGraph :=
  { g with
    nodes := g.nodes.modify node (fun n => { n with tombstone := true })
    live := Function.update g.live id none
    liveCount := g.liveCount - 1 }

theorem tombstone_live {g : HnswGraph} {n : Nat} {id : VectorId} (h : g.IsLive n)
    (hid : g.nodeId n = some id) : g.tombstone n = (true, g.withTombstone n id) := by
  obtain ⟨node, hnode⟩ := exists_node h.1
  have ht : node.tombstone = false := by simpa [isTombstone, hnode] using h.2
  have hi : node.id = id := by simpa [nodeId, hnode] using hid
  simp [tombstone, hnode, ht, withTombstone, hi]

section withTombstone

variable (g : HnswGraph) (node : Nat) (id : VectorId)

theorem getElem?_withTombstone (n : Nat) : (g.withTombstone node id).nodes[n]? =
    g.nodes[n]?.map (fun x => if node = n then { x with tombstone := true } else x) := by
  simp [withTombstone, List.getElem?_modify]

/-- A getter that does not look at the mark. -/
theorem read_withTombstone {α : Type} (f : Node → α)
    (hf : ∀ x : Node, f { x with tombstone := true } = f x) (n : Nat) :
    (g.withTombstone node id).nodes[n]?.map f = g.nodes[n]?.map f := by
  rw [getElem?_withTombstone]
  cases g.nodes[n]? with
  | none => rfl
  | some x =>
    by_cases h : node = n <;> simp [h, hf]

@[simp] theorem nodeCount_withTombstone : (g.withTombstone node id).nodeCount = g.nodeCount := by
  simp [nodeCount, withTombstone]

@[simp] theorem entryPoint_withTombstone :
    (g.withTombstone node id).entryPoint = g.entryPoint := rfl

@[simp] theorem liveCount_withTombstone :
    (g.withTombstone node id).liveCount = g.liveCount - 1 := rfl

theorem live_withTombstone (id' : VectorId) : (g.withTombstone node id).live id' =
    if id' = id then none else g.live id' := by
  simp [withTombstone, Function.update_apply]

@[simp] theorem nodeId_withTombstone (n : Nat) :
    (g.withTombstone node id).nodeId n = g.nodeId n :=
  read_withTombstone g node id (fun x => x.id) (fun _ => rfl) n

@[simp] theorem nodeEmbedding_withTombstone (n : Nat) :
    (g.withTombstone node id).nodeEmbedding n = g.nodeEmbedding n :=
  read_withTombstone g node id (fun x => x.embedding.values) (fun _ => rfl) n

@[simp] theorem neighbors_withTombstone (n : Nat) (l : Nat) :
    (g.withTombstone node id).neighbors n l = g.neighbors n l := by
  have := read_withTombstone g node id (fun x => x.neighbors[l]?) (fun _ => rfl) n
  unfold neighbors
  cases hg : g.nodes[n]? <;> cases hg' : (g.withTombstone node id).nodes[n]? <;> simp_all

@[simp] theorem nodeLevel_withTombstone (n : Nat) :
    (g.withTombstone node id).nodeLevel n = g.nodeLevel n := by
  have := read_withTombstone g node id (fun x => x.level) (fun _ => rfl) n
  unfold nodeLevel
  cases hg : g.nodes[n]? <;> cases hg' : (g.withTombstone node id).nodes[n]? <;> simp_all

@[simp] theorem layers_withTombstone (n : Nat) :
    (g.withTombstone node id).layers n = g.layers n := by
  have := read_withTombstone g node id (fun x => x.neighbors.length) (fun _ => rfl) n
  unfold layers
  cases hg : g.nodes[n]? <;> cases hg' : (g.withTombstone node id).nodes[n]? <;> simp_all

theorem isTombstone_withTombstone {n : Nat} (h : n < g.nodeCount) :
    (g.withTombstone node id).isTombstone n = (decide (n = node) || g.isTombstone n) := by
  obtain ⟨x, hx⟩ := exists_node h
  unfold isTombstone
  rw [getElem?_withTombstone, hx]
  by_cases hn : node = n
  · simp [hn]
  · simp [hn, Ne.symm hn]

theorem isLive_withTombstone (n : Nat) :
    (g.withTombstone node id).IsLive n ↔ g.IsLive n ∧ n ≠ node := by
  unfold IsLive
  rw [nodeCount_withTombstone]
  by_cases h : n < g.nodeCount
  · rw [isTombstone_withTombstone g node id h]
    by_cases hn : n = node <;> simp [hn, h]
  · simp [h]

end withTombstone

/-! ## Moving the entry point -/

section setEntryPoint

variable (g : HnswGraph) (entry : Option Nat)

@[simp] theorem entryPoint_setEntryPoint : (g.setEntryPoint entry).entryPoint = entry := rfl

@[simp] theorem live_setEntryPoint : (g.setEntryPoint entry).live = g.live := rfl

@[simp] theorem liveCount_setEntryPoint : (g.setEntryPoint entry).liveCount = g.liveCount := rfl

@[simp] theorem nodes_setEntryPoint : (g.setEntryPoint entry).nodes = g.nodes := rfl

@[simp] theorem nodeCount_setEntryPoint : (g.setEntryPoint entry).nodeCount = g.nodeCount := rfl

@[simp] theorem neighbors_setEntryPoint (n l : Nat) :
    (g.setEntryPoint entry).neighbors n l = g.neighbors n l := rfl

@[simp] theorem nodeLevel_setEntryPoint (n : Nat) :
    (g.setEntryPoint entry).nodeLevel n = g.nodeLevel n := rfl

@[simp] theorem layers_setEntryPoint (n : Nat) :
    (g.setEntryPoint entry).layers n = g.layers n := rfl

@[simp] theorem isTombstone_setEntryPoint (n : Nat) :
    (g.setEntryPoint entry).isTombstone n = g.isTombstone n := rfl

@[simp] theorem nodeId_setEntryPoint (n : Nat) :
    (g.setEntryPoint entry).nodeId n = g.nodeId n := rfl

@[simp] theorem nodeEmbedding_setEntryPoint (n : Nat) :
    (g.setEntryPoint entry).nodeEmbedding n = g.nodeEmbedding n := rfl

@[simp] theorem isLive_setEntryPoint (n : Nat) :
    (g.setEntryPoint entry).IsLive n ↔ g.IsLive n := Iff.rfl

@[simp] theorem liveNodes_setEntryPoint : (g.setEntryPoint entry).liveNodes = g.liveNodes := rfl

@[simp] theorem setEntryPoint_self : g.setEntryPoint g.entryPoint = g := rfl

end setEntryPoint

/-! ## Listing the live nodes -/

theorem mem_liveNodes {g : HnswGraph} {x : LiveNode} : x ∈ g.liveNodes ↔
    ∃ node, g.nodes[x.idx]? = some node ∧ node.tombstone = false ∧ x.id = node.id ∧
      x.embedding = node.embedding.values ∧ x.level = node.level := by
  unfold liveNodes
  simp only [List.mem_map, List.mem_filter, Bool.not_eq_true']
  constructor
  · rintro ⟨⟨node, i⟩, ⟨hmem, ht⟩, rfl⟩
    exact ⟨node, List.mem_zipIdx_iff_getElem?.mp hmem, ht, rfl, rfl, rfl⟩
  · rintro ⟨node, hnode, ht, hid, hemb, hlevel⟩
    refine ⟨(node, x.idx), ⟨List.mem_zipIdx_iff_getElem?.mpr hnode, ht⟩, ?_⟩
    obtain ⟨i, id, emb, level⟩ := x
    simp_all

theorem length_liveNodes (g : HnswGraph) :
    g.liveNodes.length = g.nodes.countP (fun n => !n.tombstone) := by
  have hfst : g.nodes.zipIdx.map Prod.fst = g.nodes := List.zipIdx_map_fst 0 g.nodes
  rw [liveNodes, List.length_map, ← List.countP_eq_length_filter]
  conv => rhs; rw [← hfst, List.countP_map]
  rfl

theorem SameShape.length_liveNodes {g g' : HnswGraph} (h : SameShape g g') :
    g'.liveNodes.length = g.liveNodes.length := by
  have := congrArg (List.countP not) (h.map_nodes (fun n => n.tombstone) (fun _ => rfl))
  rw [HnswGraph.length_liveNodes, HnswGraph.length_liveNodes]
  simpa only [List.countP_map, Function.comp_def] using this

theorem length_liveNodes_withNode (g : HnswGraph) (id : VectorId) (e : Embedding) (level : Nat) :
    (g.withNode id e level).liveNodes.length = g.liveNodes.length + 1 := by
  simp [length_liveNodes, withNode, freshNode]

theorem length_liveNodes_withTombstone {g : HnswGraph} {n : Nat} (id : VectorId)
    (h : g.IsLive n) :
    (g.withTombstone n id).liveNodes.length + 1 = g.liveNodes.length := by
  obtain ⟨hlt, ht⟩ := h
  have hlt : n < g.nodes.length := hlt
  have hn : g.nodes[n]? = some g.nodes[n] := List.getElem?_eq_getElem hlt
  have htomb : g.nodes[n].tombstone = false := by simpa [isTombstone, hn] using ht
  have hsplit : g.nodes = g.nodes.take n ++ g.nodes[n] :: g.nodes.drop (n + 1) := by
    rw [← List.drop_eq_getElem_cons hlt, List.take_append_drop]
  rw [length_liveNodes, length_liveNodes, withTombstone]
  dsimp only
  rw [List.modify_eq_take_cons_drop hlt, List.countP_append, List.countP_cons]
  conv => rhs; rw [hsplit, List.countP_append, List.countP_cons]
  simp [htomb]
  omega

theorem liveNodes_spec {g : HnswGraph} {x : LiveNode} (h : x ∈ g.liveNodes) :
    g.IsLive x.idx ∧ g.nodeId x.idx = some x.id ∧ g.nodeLevel x.idx = x.level := by
  obtain ⟨node, hnode, ht, hid, -, hlevel⟩ := mem_liveNodes.mp h
  refine ⟨⟨(List.getElem?_eq_some_iff.mp hnode).1, ?_⟩, ?_, ?_⟩
  · simp [isTombstone, hnode, ht]
  · simp [nodeId, hnode, hid]
  · simp [nodeLevel, hnode, hlevel]

theorem exists_liveNode {g : HnswGraph} {n : Nat} (h : g.IsLive n) :
    ∃ x ∈ g.liveNodes, x.idx = n := by
  obtain ⟨node, hnode⟩ := exists_node h.1
  refine ⟨{ idx := n, id := node.id, embedding := node.embedding.values, level := node.level },
    mem_liveNodes.mpr ⟨node, hnode, ?_, rfl, rfl, rfl⟩, rfl⟩
  simpa [isTombstone, hnode] using h.2

/-! ## The live points -/

/-- The id and embedding of a node, if it is live. -/
def Node.point (n : Node) : Option (VectorId × Embedding) :=
  if n.tombstone then none else some (n.id, n.embedding)

/-- The live points in node order. -/
def points (g : HnswGraph) : List (VectorId × Embedding) := g.nodes.filterMap Node.point

theorem SameShape.points {g g' : HnswGraph} (h : SameShape g g') : g'.points = g.points := by
  have := congrArg (List.filterMap Node.point) h.nodes
  simp only [List.filterMap_map] at this
  exact this

@[simp] theorem points_setEntryPoint (g : HnswGraph) (entry : Option Nat) :
    (g.setEntryPoint entry).points = g.points := rfl

@[simp] theorem points_withNode (g : HnswGraph) (id : VectorId) (e : Embedding) (level : Nat) :
    (g.withNode id e level).points = g.points ++ [(id, e)] := by
  simp [points, withNode, Node.point, freshNode]

theorem mem_points {g : HnswGraph} {id : VectorId} {e : Embedding} : (id, e) ∈ g.points ↔
    ∃ (n : Nat) (node : Node), g.nodes[n]? = some node ∧ node.tombstone = false ∧ node.id = id ∧
      node.embedding = e := by
  unfold points Node.point
  rw [List.mem_filterMap]
  constructor
  · rintro ⟨node, hmem, hp⟩
    obtain ⟨n, hn⟩ := List.getElem?_of_mem hmem
    cases ht : node.tombstone with
    | true => simp [ht] at hp
    | false =>
      simp only [ht, Bool.false_eq_true, if_false, Option.some.injEq, Prod.mk.injEq] at hp
      exact ⟨n, node, hn, ht, hp.1, hp.2⟩
  · rintro ⟨n, node, hn, ht, rfl, rfl⟩
    exact ⟨node, List.mem_of_getElem? hn, by simp [ht]⟩

end HnswGraph

end EidosDB
