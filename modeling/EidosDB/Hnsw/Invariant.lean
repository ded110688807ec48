import EidosDB.Hnsw.Linking
import EidosDB.Hnsw.GreedySpec

/-! # The Structural Invariant of the Graph

    `LinkInv` speaks of the lists, `NodeInv` of the nodes and the live map,
    `EntryInv` of the entry point.  The three are kept by every call, for any
    scores and any sampled levels.

    An insert first adds the node and then links it layer by layer; what
    holds in between is `Linking`. -/

namespace EidosDB

open HnswGraph

variable {P : Platform} {metric : Metric} {config : HnswConfig} {dimension : Dimension}
  {g g' : HnswGraph}

/-! ## Links -/

/-- The lists are well formed. -/
structure LinkInv (config : HnswConfig) (g : HnswGraph) : Prop where
  layers : ∀ n, n < g.nodeCount → g.layers n = g.nodeLevel n + 1
  inRange : ∀ n l b, b ∈ g.neighbors n l → b < g.nodeCount
  irrefl : ∀ n l, n ∉ g.neighbors n l
  level : ∀ n l b, b ∈ g.neighbors n l → l ≤ g.nodeLevel b
  nodup : ∀ n l, (g.neighbors n l).Nodup
  degree : ∀ n l, (g.neighbors n l).length ≤ config.limit l

namespace LinkInv

theorem new (config : HnswConfig) : LinkInv config HnswGraph.new := by
  have hnil : ∀ n l, HnswGraph.new.neighbors n l = [] := fun n l =>
    neighbors_of_le (Nat.zero_le n) l
  refine ⟨fun n hn => absurd hn (Nat.not_lt_zero n), ?_, ?_, ?_, ?_, ?_⟩ <;> simp [hnil]

theorem withNode (h : LinkInv config g) (id : VectorId) (e : Embedding) (level : Nat) :
    LinkInv config (g.withNode id e level) := by
  refine ⟨?_, ?_, ?_, ?_, ?_, ?_⟩
  · intro n hn
    rw [nodeCount_withNode] at hn
    rw [layers_withNode, nodeLevel_withNode]
    split
    · rfl
    · exact h.layers n (by omega)
  · intro n l b hb
    rw [neighbors_withNode] at hb
    have := h.inRange n l b hb
    rw [nodeCount_withNode]
    omega
  · intro n l
    rw [neighbors_withNode]
    exact h.irrefl n l
  · intro n l b hb
    rw [neighbors_withNode] at hb
    rw [nodeLevel_withNode, if_neg (ne_of_lt (h.inRange n l b hb))]
    exact h.level n l b hb
  · intro n l
    rw [neighbors_withNode]
    exact h.nodup n l
  · intro n l
    rw [neighbors_withNode]
    exact h.degree n l

theorem withTombstone (h : LinkInv config g) (node : Nat) (id : VectorId) :
    LinkInv config (g.withTombstone node id) := by
  refine ⟨?_, ?_, ?_, ?_, ?_, ?_⟩ <;>
    simp only [nodeCount_withTombstone, layers_withTombstone, nodeLevel_withTombstone,
      neighbors_withTombstone]
  · exact h.layers
  · exact h.inRange
  · exact h.irrefl
  · exact h.level
  · exact h.nodup
  · exact h.degree

theorem setEntryPoint (h : LinkInv config g) (entry : Option Nat) :
    LinkInv config (g.setEntryPoint entry) :=
  ⟨h.layers, h.inRange, h.irrefl, h.level, h.nodup, h.degree⟩

/-- What holds of the start of a path and of every listed node holds of its
    end. -/
theorem reach_induct {layer a b : Nat} {motive : Nat → Prop} (hab : g.Reach layer a b)
    (ha : motive a) (hlisted : ∀ n x, x ∈ g.neighbors n layer → motive x) : motive b := by
  rcases Relation.ReflTransGen.cases_tail hab with rfl | ⟨x, -, hx, -⟩
  · exact ha
  · exact hlisted x b hx

end LinkInv

/-! ## Linking a new node -/

/-- What holds during an insert with `count` layers left; `base` is the graph
    with the new node and no link to it. -/
structure Linking (config : HnswConfig) (base : HnswGraph) (newNode count : Nat)
    (st : HnswIndex.LinkState) : Prop where
  shape : base.SameShape st.graph
  links : LinkInv config st.graph
  current_lt : st.current < st.graph.nodeCount
  current_ne : st.current ≠ newNode
  current_level : count ≤ st.graph.nodeLevel st.current + 1
  new_lt : newNode < st.graph.nodeCount
  new_level : count ≤ st.graph.nodeLevel newNode + 1
  new_unlisted : ∀ n l, l < count → newNode ∉ st.graph.neighbors n l
  frame : ∀ n l, n ∉ st.touched → st.graph.neighbors n l = base.neighbors n l
  touched_new : newNode ∈ st.touched
  touched_lt : ∀ n ∈ st.touched, n < st.graph.nodeCount

namespace Linking

open HnswIndex

variable {base : HnswGraph} {newNode count : Nat} {st st' : LinkState} {query : List F32}
  {candidates : List Candidate} {selected : List Nat}

/-- A candidate of the layer is an old node that has the layer. -/
theorem candidate (h : Linking config base newNode (count + 1) st)
    (hl : LayerLinked P metric config query newNode count st st' candidates selected)
    {c : Candidate} (hc : c ∈ candidates) :
    c.node < st.graph.nodeCount ∧ c.node ≠ newNode ∧ count ≤ st.graph.nodeLevel c.node := by
  refine LinkInv.reach_induct (motive := fun n => n < st.graph.nodeCount ∧ n ≠ newNode ∧
    count ≤ st.graph.nodeLevel n) (hl.search.reach c hc) ⟨h.current_lt, h.current_ne, ?_⟩ ?_
  · have := h.current_level
    omega
  · intro n x hx
    refine ⟨h.links.inRange n count x hx, ?_, h.links.level n count x hx⟩
    rintro rfl
    exact h.new_unlisted n count (Nat.lt_succ_self _) hx

theorem selected_node (h : Linking config base newNode (count + 1) st)
    (hl : LayerLinked P metric config query newNode count st st' candidates selected)
    {n : Nat} (hn : n ∈ selected) :
    n < st.graph.nodeCount ∧ n ≠ newNode ∧ count ≤ st.graph.nodeLevel n := by
  obtain ⟨c, hc, rfl⟩ := hl.selected_candidate hn
  exact h.candidate hl hc

/-- The lists after one layer. -/
theorem list_cases (h : Linking config base newNode (count + 1) st)
    (hl : LayerLinked P metric config query newNode count st st' candidates selected)
    (n l : Nat) :
    ((l = count → n ≠ newNode ∧ n ∉ selected) ∧
      st'.graph.neighbors n l = st.graph.neighbors n l) ∨
    (l = count ∧ n = newNode ∧ st'.graph.neighbors n l = selected) ∨
    (l = count ∧ n ≠ newNode ∧ n ∈ selected ∧ st'.graph.neighbors n l =
      relink P metric st.graph (config.limit count) newNode count n) := by
  have hlayers : ∀ m, m < st.graph.nodeCount → count ≤ st.graph.nodeLevel m →
      count < st.graph.layers m := by
    intro m hm hlevel
    rw [h.links.layers m hm]
    omega
  refine hl.list_cases (fun hn => (h.selected_node hl hn).2.1 rfl) ?_ ?_ n l
  · exact hlayers newNode h.new_lt (Nat.succ_le_succ_iff.mp h.new_level)
  · intro m hm
    obtain ⟨hlt, -, hlevel⟩ := h.selected_node hl hm
    exact hlayers m hlt hlevel

/-- Who is listed after one layer. -/
theorem mem_cases (h : Linking config base newNode (count + 1) st)
    (hl : LayerLinked P metric config query newNode count st st' candidates selected)
    {n l b : Nat} (hb : b ∈ st'.graph.neighbors n l) :
    b ∈ st.graph.neighbors n l ∨ (l = count ∧ n = newNode ∧ b ∈ selected) ∨
      (l = count ∧ n ∈ selected ∧ n ≠ newNode ∧ b = newNode) := by
  rcases h.list_cases hl n l with ⟨-, heq⟩ | ⟨hlc, hn, heq⟩ | ⟨rfl, hne, hsel, heq⟩
  · exact Or.inl (heq ▸ hb)
  · exact Or.inr (Or.inl ⟨hlc, hn, heq ▸ hb⟩)
  · rcases mem_relink (heq ▸ hb) with hb | hb
    · exact Or.inl hb
    · exact Or.inr (Or.inr ⟨rfl, hsel, hne, hb⟩)

theorem links_step (h : Linking config base newNode (count + 1) st)
    (hl : LayerLinked P metric config query newNode count st st' candidates selected) :
    LinkInv config st'.graph := by
  have hshape := hl.linked.shape
  have hnew : count ≤ st.graph.nodeLevel newNode := Nat.succ_le_succ_iff.mp h.new_level
  refine ⟨?_, ?_, ?_, ?_, ?_, ?_⟩
  · intro n hn
    rw [hshape.nodeCount] at hn
    rw [hshape.layers, hshape.nodeLevel, h.links.layers n hn]
  · intro n l b hb
    rw [hshape.nodeCount]
    rcases h.mem_cases hl hb with hb | ⟨-, -, hb⟩ | ⟨-, -, -, rfl⟩
    · exact h.links.inRange n l b hb
    · exact (h.selected_node hl hb).1
    · exact h.new_lt
  · intro n l hb
    rcases h.mem_cases hl hb with hb | ⟨-, rfl, hb⟩ | ⟨-, -, hne, hb⟩
    · exact h.links.irrefl n l hb
    · exact (h.selected_node hl hb).2.1 rfl
    · exact hne hb
  · intro n l b hb
    rw [hshape.nodeLevel]
    rcases h.mem_cases hl hb with hb | ⟨rfl, -, hb⟩ | ⟨rfl, -, -, rfl⟩
    · exact h.links.level n l b hb
    · exact (h.selected_node hl hb).2.2
    · exact hnew
  · intro n l
    rcases h.list_cases hl n l with ⟨-, heq⟩ | ⟨-, -, heq⟩ | ⟨rfl, -, -, heq⟩
    · exact heq ▸ h.links.nodup n l
    · exact heq ▸ hl.selected_nodup
    · exact heq ▸ relink_nodup (h.links.nodup n l) (h.new_unlisted n l (Nat.lt_succ_self _))
  · intro n l
    rcases h.list_cases hl n l with ⟨-, heq⟩ | ⟨rfl, -, heq⟩ | ⟨rfl, -, -, heq⟩
    · exact heq ▸ h.links.degree n l
    · exact heq ▸ hl.length_selected_le
    · exact heq ▸ length_relink_le

/-- One layer keeps `Linking`. -/
theorem step (h : Linking config base newNode (count + 1) st)
    (hl : LayerLinked P metric config query newNode count st st' candidates selected) :
    Linking config base newNode count st' := by
  have hshape := hl.linked.shape
  have hcurrent : st'.current < st.graph.nodeCount ∧ st'.current ≠ newNode ∧
      count ≤ st.graph.nodeLevel st'.current + 1 := by
    rcases hl.current with heq | ⟨c, hc, heq⟩
    · have := h.current_level
      exact heq ▸ ⟨h.current_lt, h.current_ne, by omega⟩
    · obtain ⟨hlt, hne, hlevel⟩ := h.candidate hl hc
      exact heq ▸ ⟨hlt, hne, by omega⟩
  have hselected : ∀ n ∈ selected, n ∈ st'.touched := fun n hn =>
    (hl.touched n).mpr (Or.inr hn)
  refine ⟨h.shape.trans hshape, h.links_step hl, ?_, hcurrent.2.1, ?_, ?_, ?_, ?_, ?_,
    (hl.touched _).mpr (Or.inl h.touched_new), ?_⟩
  · rw [hshape.nodeCount]
    exact hcurrent.1
  · rw [hshape.nodeLevel]
    exact hcurrent.2.2
  · rw [hshape.nodeCount]
    exact h.new_lt
  · rw [hshape.nodeLevel]
    have := h.new_level
    omega
  · intro n l hlt hb
    rcases h.mem_cases hl hb with hb | ⟨rfl, -⟩ | ⟨rfl, -⟩
    · exact h.new_unlisted n l (by omega) hb
    · exact absurd hlt (lt_irrefl _)
    · exact absurd hlt (lt_irrefl _)
  · intro n l hn
    have hold : n ∉ st.touched := fun hmem => hn ((hl.touched n).mpr (Or.inl hmem))
    rw [← h.frame n l hold]
    rcases h.list_cases hl n l with ⟨-, heq⟩ | ⟨-, rfl, -⟩ | ⟨-, -, hsel, -⟩
    · exact heq
    · exact absurd h.touched_new hold
    · exact absurd (hselected n hsel) hn
  · intro n hn
    rw [hshape.nodeCount]
    rcases (hl.touched n).mp hn with hn | hn
    · exact h.touched_lt n hn
    · exact (h.selected_node hl hn).1

end Linking

/-! ## Nodes and the live map -/

/-- The stored nodes and the live map agree. -/
structure NodeInv (dimension : Dimension) (g : HnswGraph) : Prop where
  dim : ∀ node ∈ g.nodes, node.embedding.dimension = dimension.get
  level_le : ∀ node ∈ g.nodes, node.level ≤ maxLevel
  live_iff : ∀ id n, g.live id = some n ↔ g.IsLive n ∧ g.nodeId n = some id
  older_dead : ∀ a b, a < b → b < g.nodeCount → g.nodeId a = g.nodeId b →
    g.isTombstone a = true
  liveCount : g.liveCount = g.liveNodes.length

namespace NodeInv

theorem new (dimension : Dimension) : NodeInv dimension HnswGraph.new := by
  refine ⟨fun _ h => absurd h (by simp [HnswGraph.new]),
    fun _ h => absurd h (by simp [HnswGraph.new]), ?_,
    fun _ b _ hb => absurd hb (Nat.not_lt_zero b), rfl⟩
  intro id n
  simp [HnswGraph.new, IsLive, nodeCount]

theorem sameShape (h : NodeInv dimension g) (hs : g.SameShape g') : NodeInv dimension g' := by
  have hall : ∀ (f : Node → Nat) (p : Nat → Prop), (∀ n, f n.shape = f n) →
      (∀ node ∈ g.nodes, p (f node)) → ∀ node ∈ g'.nodes, p (f node) := by
    intro f p hf hg
    rw [← List.forall_mem_map] at hg ⊢
    rwa [hs.map_nodes f hf]
  refine ⟨hall (fun n => n.embedding.dimension) (· = dimension.get) (fun _ => rfl) h.dim,
    hall (fun n => n.level) (· ≤ maxLevel) (fun _ => rfl) h.level_le, ?_, ?_, ?_⟩
  · intro id n
    rw [hs.live, hs.isLive, hs.nodeId]
    exact h.live_iff id n
  · intro a b hab hb hid
    rw [hs.nodeCount] at hb
    rw [hs.nodeId, hs.nodeId] at hid
    rw [hs.isTombstone]
    exact h.older_dead a b hab hb hid
  · rw [hs.liveCount, hs.length_liveNodes]
    exact h.liveCount

theorem setEntryPoint (h : NodeInv dimension g) (entry : Option Nat) :
    NodeInv dimension (g.setEntryPoint entry) :=
  ⟨h.dim, h.level_le, h.live_iff, h.older_dead, h.liveCount⟩

theorem withNode (h : NodeInv dimension g) {id : VectorId} {e : Embedding} {level : Nat}
    (hdim : e.dimension = dimension.get) (hlevel : level ≤ maxLevel) (hid : g.live id = none) :
    NodeInv dimension (g.withNode id e level) := by
  have hdead : ∀ n, n < g.nodeCount → g.nodeId n = some id → g.isTombstone n = true := by
    intro n hn hnid
    by_contra ht
    have := (h.live_iff id n).mpr ⟨⟨hn, by simpa using ht⟩, hnid⟩
    rw [hid] at this
    exact absurd this (by simp)
  refine ⟨?_, ?_, ?_, ?_, ?_⟩
  · intro node hnode
    rcases List.mem_append.mp hnode with hnode | hnode
    · exact h.dim node hnode
    · rw [List.mem_singleton.mp hnode]
      exact hdim
  · intro node hnode
    rcases List.mem_append.mp hnode with hnode | hnode
    · exact h.level_le node hnode
    · rw [List.mem_singleton.mp hnode]
      exact hlevel
  · intro id' n
    rw [live_withNode, isLive_withNode, nodeId_withNode]
    by_cases hn : n = g.nodeCount
    · subst hn
      have hout : g.live id' ≠ some g.nodeCount := fun hl =>
        lt_irrefl _ ((h.live_iff id' _).mp hl).1.1
      by_cases hi : id' = id
      · simp [hi]
      · simp [hi, Ne.symm hi, hout]
    · simp only [hn, if_false, false_or]
      by_cases hi : id' = id
      · subst hi
        rw [if_pos rfl]
        constructor
        · intro heq
          exact absurd (Option.some.inj heq).symm hn
        · rintro ⟨hlive, hnid⟩
          have := hdead n hlive.1 hnid
          rw [hlive.2] at this
          exact absurd this (by simp)
      · rw [if_neg hi]
        exact h.live_iff id' n
  · intro a b hab hb
    rw [nodeCount_withNode] at hb
    have ha : a ≠ g.nodeCount := by omega
    rw [nodeId_withNode, nodeId_withNode, isTombstone_withNode, if_neg ha, if_neg ha]
    by_cases hbn : b = g.nodeCount
    · rw [if_pos hbn]
      intro hid'
      exact hdead a (by omega) hid'
    · rw [if_neg hbn]
      exact h.older_dead a b hab (by omega)
  · rw [liveCount_withNode, length_liveNodes_withNode, h.liveCount]

theorem withTombstone (h : NodeInv dimension g) {n : Nat} {id : VectorId} (hlive : g.IsLive n)
    (hid : g.nodeId n = some id) : NodeInv dimension (g.withTombstone n id) := by
  have hnodes : ∀ x ∈ (g.withTombstone n id).nodes, ∃ y ∈ g.nodes,
      x.embedding = y.embedding ∧ x.level = y.level := by
    intro x hx
    obtain ⟨i, hi⟩ := List.getElem?_of_mem hx
    rw [getElem?_withTombstone, Option.map_eq_some_iff] at hi
    obtain ⟨y, hy, rfl⟩ := hi
    refine ⟨y, List.mem_of_getElem? hy, ?_⟩
    split <;> exact ⟨rfl, rfl⟩
  refine ⟨?_, ?_, ?_, ?_, ?_⟩
  · intro x hx
    obtain ⟨y, hy, he, -⟩ := hnodes x hx
    rw [he]
    exact h.dim y hy
  · intro x hx
    obtain ⟨y, hy, -, hl⟩ := hnodes x hx
    rw [hl]
    exact h.level_le y hy
  · intro id' m
    rw [live_withTombstone, isLive_withTombstone, nodeId_withTombstone]
    by_cases hi : id' = id
    · subst hi
      rw [if_pos rfl]
      constructor
      · intro heq
        exact absurd heq (by simp)
      · rintro ⟨⟨hm, hne⟩, hmid⟩
        have hm' := (h.live_iff id' m).mpr ⟨hm, hmid⟩
        have hn' := (h.live_iff id' n).mpr ⟨hlive, hid⟩
        exact absurd (Option.some.inj (hm'.symm.trans hn')) hne
    · rw [if_neg hi, h.live_iff id' m]
      constructor
      · rintro ⟨hm, hmid⟩
        refine ⟨⟨hm, ?_⟩, hmid⟩
        rintro rfl
        exact hi (Option.some.inj (hmid.symm.trans hid))
      · rintro ⟨⟨hm, -⟩, hmid⟩
        exact ⟨hm, hmid⟩
  · intro a b hab hb
    rw [nodeCount_withTombstone] at hb
    rw [nodeId_withTombstone, nodeId_withTombstone,
      isTombstone_withTombstone g n id (lt_trans hab hb)]
    intro heq
    simp [h.older_dead a b hab hb heq]
  · have := length_liveNodes_withTombstone id hlive
    rw [liveCount_withTombstone, h.liveCount]
    omega

end NodeInv

/-! ## The entry point -/

/-- The entry point is a live node of maximal level, if there is one. -/
structure EntryInv (g : HnswGraph) : Prop where
  none_iff : g.entryPoint = none ↔ ∀ n, ¬ g.IsLive n
  live : ∀ e, g.entryPoint = some e → g.IsLive e
  top : ∀ e n, g.entryPoint = some e → g.IsLive n → g.nodeLevel n ≤ g.nodeLevel e

/-- The entry point once a node of this level was added. -/
def raisedEntry (g : HnswGraph) (level : Nat) : Option Nat :=
  match g.entryPoint with
  | none => some g.nodeCount
  | some entry => if g.nodeLevel entry < level then some g.nodeCount else some entry

namespace EntryInv

theorem new : EntryInv HnswGraph.new :=
  ⟨by simp [HnswGraph.new, IsLive, nodeCount], by simp [HnswGraph.new], by simp [HnswGraph.new]⟩

theorem sameShape (h : EntryInv g) (hs : g.SameShape g') : EntryInv g' := by
  refine ⟨?_, ?_, ?_⟩
  · simp only [hs.entryPoint, hs.isLive]
    exact h.none_iff
  · simp only [hs.entryPoint, hs.isLive]
    exact h.live
  · simp only [hs.entryPoint, hs.isLive, hs.nodeLevel]
    exact h.top

theorem lt_nodeCount (h : EntryInv g) {e : Nat} (he : g.entryPoint = some e) : e < g.nodeCount :=
  (h.live e he).1

/-- An entry point that is a live node of maximal level. -/
theorem of_top {e : Nat} (hlive : g.IsLive e)
    (htop : ∀ n, g.IsLive n → g.nodeLevel n ≤ g.nodeLevel e) :
    EntryInv (g.setEntryPoint (some e)) := by
  refine ⟨⟨fun h => absurd h (by simp), fun h => absurd hlive (h e)⟩, ?_, ?_⟩
  · rintro e' he'
    cases he'
    exact hlive
  · rintro e' n he' hn
    cases he'
    exact htop n hn

theorem withNode (h : EntryInv g) (id : VectorId) (e : Embedding) (level : Nat) :
    EntryInv ((g.withNode id e level).setEntryPoint (raisedEntry g level)) := by
  have hnewLive : (g.withNode id e level).IsLive g.nodeCount :=
    (isLive_withNode g id e level _).mpr (Or.inl rfl)
  unfold raisedEntry
  cases hep : g.entryPoint with
  | none =>
    refine of_top hnewLive fun n hn => ?_
    rcases (isLive_withNode g id e level n).mp hn with rfl | hn
    · exact le_refl _
    · exact absurd hn (h.none_iff.mp hep n)
  | some entry =>
    have hentry := h.lt_nodeCount hep
    have hold : ∀ n, g.IsLive n →
        (g.withNode id e level).nodeLevel n ≤ g.nodeLevel entry := by
      intro n hn
      rw [nodeLevel_withNode, if_neg (ne_of_lt hn.1)]
      exact h.top entry n hep hn
    have hnewLevel : (g.withNode id e level).nodeLevel g.nodeCount = level := by
      rw [nodeLevel_withNode, if_pos rfl]
    dsimp only
    split
    · next hlt =>
      refine of_top hnewLive fun n hn => ?_
      rw [hnewLevel]
      rcases (isLive_withNode g id e level n).mp hn with rfl | hn
      · exact hnewLevel.le
      · exact le_trans (hold n hn) (le_of_lt hlt)
    · next hge =>
      refine of_top ((isLive_withNode g id e level _).mpr (Or.inr (h.live entry hep)))
        fun n hn => ?_
      rw [show (g.withNode id e level).nodeLevel entry = g.nodeLevel entry by
        rw [nodeLevel_withNode, if_neg (ne_of_lt hentry)]]
      rcases (isLive_withNode g id e level n).mp hn with rfl | hn
      · rw [hnewLevel]
        exact not_lt.mp hge
      · exact hold n hn

end EntryInv

end EidosDB
