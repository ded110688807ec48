import EidosDB.Hnsw.Snapshot

/-! # Damaged Snapshots

    Restoring an index checks the vectors of a snapshot, and neither its entry
    point nor its lists.  The beam search skips a listed number that is not
    stored, but marks the node it starts from without a check.  It starts
    where the greedy descent ends, which scores a missing node against an
    empty vector under the nil id and may well prefer it.

    The descent is a machine on a layer and a node.  From a missing node it
    only goes down, so it ends at one exactly if it ever stands on one. -/

namespace EidosDB

open Relation

namespace HnswGraph

/-! ## The descent as a machine -/

section machine

variable (P : Platform) (g : HnswGraph) (metric : Metric) (query : List F32)

/-- Where a pass from `c` over `l` ends: every number that improves on the last
    one taken is taken in turn. -/
def passEnd (c : Nat) (l : List Nat) : Nat :=
  l.foldl (fun c b => if g.Improves P metric query c b then b else c) c

/-- One step at a layer and a node: a pass that improves moves, and one that
    does not goes down a layer. -/
inductive Descends : Nat × Nat → Nat × Nat → Prop
  | move {layer c : Nat} : ¬ LocalOptimum P g metric query layer c →
      Descends (layer, c) (layer, passEnd P g metric query c (g.neighbors c layer))
  | down {layer c : Nat} : LocalOptimum P g metric query (layer + 1) c →
      Descends (layer + 1, c) (layer, c)

variable {P g metric query}

theorem descends_unique : Relator.RightUnique (Descends P g metric query) := by
  intro p q q' h h'
  cases h with
  | move hmove =>
    cases h' with
    | move _ => rfl
    | down hdown => exact absurd hdown hmove
  | down hdown =>
    cases h' with
    | move hmove => exact absurd hdown hmove
    | down _ => rfl

theorem layer_le_of_descends {p q : Nat × Nat} (h : ReflTransGen (Descends P g metric query) p q) :
    q.1 ≤ p.1 := by
  induction h with
  | refl => exact le_refl _
  | tail _ hstep ih =>
    cases hstep with
    | move _ => exact ih
    | down _ => exact Nat.le_of_succ_le ih

/-- Where a layer is done, the machine leaves it at once. -/
theorem eq_of_descends_optimum {layer c : Nat} (hopt : LocalOptimum P g metric query layer c)
    {q : Nat × Nat} (h : ReflTransGen (Descends P g metric query) (layer, c) q)
    (hlayer : layer ≤ q.1) : q = (layer, c) := by
  rcases ReflTransGen.cases_head h with rfl | ⟨p, hfirst, hrest⟩
  · rfl
  · cases hfirst with
    | move hmove => exact absurd hopt hmove
    | down _ =>
      have hle := layer_le_of_descends hrest
      dsimp only at hle hlayer
      omega

/-- From a missing node the machine only goes down. -/
theorem node_eq_of_descends_missing {p q : Nat × Nat} (hmissing : g.nodeCount ≤ p.2)
    (h : ReflTransGen (Descends P g metric query) p q) : q.2 = p.2 := by
  induction h with
  | refl => rfl
  | tail _ hstep ih =>
    cases hstep with
    | move hmove =>
      refine absurd ?_ hmove
      intro b hb
      have hle : g.nodeCount ≤ _ := ih ▸ hmissing
      rw [neighbors_of_le hle] at hb
      cases hb
    | down _ => exact ih

/-! ## The source's loops run the machine -/

theorem passEnd_of_optimum {c : Nat} {l : List Nat}
    (h : ∀ b ∈ l, g.Improves P metric query c b = false) : passEnd P g metric query c l = c := by
  induction l with
  | nil => rfl
  | cons b rest ih =>
    have hb : ¬ g.Improves P metric query c b = true := by
      rw [h b List.mem_cons_self]
      exact nofun
    unfold passEnd
    rw [List.foldl_cons, if_neg hb]
    exact ih fun x hx => h x (List.mem_cons_of_mem _ hx)

variable (P g metric query) in
theorem greedyPass_eq (l : List Nat) (c : Nat) (improved : Bool) :
    ∃ improved', greedyPass P g metric query l (c, g.scoreOf P metric query c, improved) =
      (passEnd P g metric query c l, g.scoreOf P metric query (passEnd P g metric query c l),
        improved') := by
  induction l generalizing c improved with
  | nil => exact ⟨improved, rfl⟩
  | cons b rest ih =>
    unfold passEnd
    rw [List.foldl_cons]
    by_cases htest : g.Improves P metric query c b = true
    · rw [if_pos htest]
      obtain ⟨improved', hrest⟩ := ih b true
      refine ⟨improved', ?_⟩
      rw [← passEnd, ← hrest]
      conv => lhs; unfold greedyPass
      exact if_pos htest
    · rw [if_neg htest]
      obtain ⟨improved', hrest⟩ := ih c improved
      refine ⟨improved', ?_⟩
      rw [← passEnd, ← hrest]
      conv => lhs; unfold greedyPass
      exact if_neg htest

theorem greedyLoop_descends (P : Platform) (g : HnswGraph) (metric : Metric) (query : List F32)
    (layer fuel c : Nat) (hfuel : closerCount P g metric query c < fuel) :
    ∃ c', greedyLoop P g metric query layer fuel (c, g.scoreOf P metric query c)
        = (c', g.scoreOf P metric query c') ∧
      ReflTransGen (Descends P g metric query) (layer, c) (layer, c') ∧
      LocalOptimum P g metric query layer c' := by
  induction fuel generalizing c with
  | zero => omega
  | succ fuel ih =>
    unfold greedyLoop
    rcases greedyPass_spec P g metric query (g.neighbors c layer) c false with
      ⟨hpass, hopt⟩ | ⟨c₁, -, hpass, hcloser⟩
    · refine ⟨c, ?_, .refl, hopt⟩
      simp [hpass]
    · obtain ⟨improved, hend⟩ := greedyPass_eq P g metric query
        (g.neighbors c layer) c false
      obtain rfl : passEnd P g metric query c (g.neighbors c layer) = c₁ :=
        congrArg Prod.fst (hend.symm.trans hpass)
      -- a pass that ends closer had something to improve on
      have hmove : ¬ LocalOptimum P g metric query layer c := by
        intro hopt
        rw [passEnd_of_optimum hopt] at hcloser
        exact Closer.irrefl c hcloser
      obtain ⟨c', hloop, hreach, hopt⟩ := ih _
        (Nat.lt_of_lt_of_le (closerCount_lt hcloser) (Nat.le_of_lt_succ hfuel))
      refine ⟨c', ?_, .head (.move hmove) hreach, hopt⟩
      simp [hpass, hloop]

theorem greedyLayers_descends (P : Platform) (g : HnswGraph) (metric : Metric) (query : List F32)
    (toLayer count c : Nat) :
    ∃ c', greedyLayers P g metric query toLayer (count + 1) (c, g.scoreOf P metric query c)
        = (c', g.scoreOf P metric query c') ∧
      ReflTransGen (Descends P g metric query) (toLayer + count, c) (toLayer, c') ∧
      LocalOptimum P g metric query toLayer c' := by
  induction count generalizing c with
  | zero =>
    obtain ⟨c', hloop, hreach, hopt⟩ := greedyLoop_descends P g metric query
      toLayer g.greedyFuel c (closerCount_lt_fuel c)
    refine ⟨c', ?_, hreach, hopt⟩
    rw [greedyLayers, greedyLayers, Nat.add_zero, hloop]
  | succ count ih =>
    obtain ⟨c₁, hloop, hreach, hopt⟩ := greedyLoop_descends P g metric query
      (toLayer + count + 1) g.greedyFuel c (closerCount_lt_fuel c)
    obtain ⟨c', hlayers, hrest, hopt'⟩ := ih c₁
    refine ⟨c', ?_, hreach.trans (.head (.down hopt) hrest), hopt'⟩
    rw [greedyLayers, ← Nat.add_assoc, hloop, hlayers]

variable (P g metric query) in
/-- The descent ends where the machine is done with the last layer. -/
theorem greedyDescent_descends (entry : Nat) {fromLayer toLayer : Nat} (h : toLayer ≤ fromLayer) :
    ReflTransGen (Descends P g metric query) (fromLayer, entry)
        (toLayer, g.greedyDescent P metric query entry fromLayer toLayer) ∧
      LocalOptimum P g metric query toLayer
        (g.greedyDescent P metric query entry fromLayer toLayer) := by
  obtain ⟨c', hlayers, hreach, hopt⟩ := greedyLayers_descends P g metric query
    toLayer (fromLayer - toLayer) entry
  have hend : g.greedyDescent P metric query entry fromLayer toLayer = c' := by
    unfold greedyDescent
    rw [Nat.succ_sub h]
    exact congrArg Prod.fst hlayers
  rw [Nat.add_sub_cancel' h] at hreach
  rw [hend]
  exact ⟨hreach, hopt⟩

/-! ## Where the beam search starts -/

/-- The entry point is below `bound`, and so is every number that the descent
    from it stands on, down to the layer `lowest`. -/
structure DescendsBelow (P : Platform) (g : HnswGraph) (metric : Metric) (query : List F32)
    (entry lowest bound : Nat) : Prop where
  entry_lt : entry < bound
  stands_lt : ∀ layer c, lowest ≤ layer →
    ReflTransGen (Descends P g metric query) (g.nodeLevel entry, entry) (layer, c) → c < bound

/-- The start of the beam search after a descent down to `lowest`. -/
def beamEntry (P : Platform) (g : HnswGraph) (metric : Metric) (query : List F32)
    (entry lowest : Nat) : Nat :=
  if lowest ≤ g.nodeLevel entry
  then g.greedyDescent P metric query entry (g.nodeLevel entry) lowest else entry

/-- The beam search starts at a stored node exactly if the descent never
    stands on a missing one. -/
theorem beamEntry_lt_iff {entry lowest : Nat} :
    beamEntry P g metric query entry lowest < g.nodeCount ↔
      DescendsBelow P g metric query entry lowest g.nodeCount := by
  unfold beamEntry
  by_cases hle : lowest ≤ g.nodeLevel entry
  · rw [if_pos hle]
    obtain ⟨hreach, hopt⟩ := greedyDescent_descends P g metric query entry hle
    constructor
    · intro hend
      have hstands : ∀ layer c, lowest ≤ layer →
          ReflTransGen (Descends P g metric query) (g.nodeLevel entry, entry) (layer, c) →
          c < g.nodeCount := by
        intro layer c hlayer hc
        by_contra hmissing
        -- the runs to `c` and to the end are one run
        rcases ReflTransGen.total_of_right_unique descends_unique hc hreach with h | h
        · have hsame := node_eq_of_descends_missing (not_lt.mp hmissing) h
          dsimp only at hsame
          omega
        · have hsame := congrArg Prod.snd (eq_of_descends_optimum hopt h hlayer)
          dsimp only at hsame
          omega
      exact ⟨hstands _ _ hle .refl, hstands⟩
    · intro h
      exact h.stands_lt _ _ (le_refl _) hreach
  · rw [if_neg hle]
    constructor
    · intro hentry
      refine ⟨hentry, fun layer c hlayer hc => ?_⟩
      have hbelow := layer_le_of_descends hc
      dsimp only at hbelow
      omega
    · exact DescendsBelow.entry_lt

/-- A descent along lists that hold stored numbers only. -/
theorem descendsBelow_of_links {entry lowest : Nat} (hentry : entry < g.nodeCount)
    (hlinks : ∀ layer a b, lowest ≤ layer → g.Link layer a b → b < g.nodeCount) :
    DescendsBelow P g metric query entry lowest g.nodeCount := by
  rw [← beamEntry_lt_iff]
  unfold beamEntry
  split
  · have hreach : g.ReachAbove lowest entry
        (g.greedyDescent P metric query entry (g.nodeLevel entry) lowest) :=
      greedyDescent_reach entry _ lowest
    rcases ReflTransGen.cases_tail hreach with hsame | ⟨a, -, layer, hlayer, hlink⟩
    · rw [hsame]
      exact hentry
    · exact hlinks layer a _ hlayer hlink
  · exact hentry

theorem beamSearch_eq_none_iff {entry ef layer : Nat} {isAdmissible : VectorId → Bool} :
    g.beamSearch P metric query entry ef layer isAdmissible = none ↔ ¬ entry < g.nodeCount := by
  unfold beamSearch
  split
  next h => exact iff_of_false nofun (not_not.mpr h)
  next h => exact iff_of_true rfl h

end machine

theorem addNode_eq_ok {g g' : HnswGraph} {id : VectorId} {e : Embedding} {level n : Nat}
    (h : g.addNode id e level = .ok (n, g')) :
    n = g.nodeCount ∧ g' = g.withNode id e level ∧ g.live id = none := by
  have hpush : addNode.push g id e level = .ok (n, g') := by
    unfold addNode at h
    split at h
    · split_ifs at h
      exact h
    · exact h
  unfold addNode.push at hpush
  split_ifs at hpush with hlive
  cases hpush
  exact ⟨rfl, rfl, by simpa using hlive⟩

end HnswGraph

namespace HnswIndex

variable {P : Platform} {s : HnswIndex}

/-! ## Panics -/

theorem linkLayers_ne_none_iff {metric : Metric} {config : HnswConfig} {query : List F32}
    {newNode count : Nat} {st : LinkState} :
    linkLayers P metric config query newNode (count + 1) st ≠ none ↔
      st.current < st.graph.nodeCount := by
  constructor
  · intro hsome
    by_contra hmissing
    apply hsome
    have hnone : layerCandidates P metric config query st count = none :=
      HnswGraph.beamSearch_eq_none_iff.mpr hmissing
    rw [linkLayers, linkLayer, hnone]
    rfl
  · intro hlt
    obtain ⟨st', hloop, -⟩ := linkLayers_induct P metric config query newNode
      (motive := fun _ st => st.current < st.graph.nodeCount) (fun _ _ h => h)
      (fun count st st' candidates selected h hlinked => by
        rw [hlinked.linked.shape.nodeCount]
        rcases hlinked.current with hsame | ⟨c, hc, hcurrent⟩
        · rw [hsame]
          exact h
        · rw [hcurrent]
          exact hlinked.search.inRange c hc)
      (count + 1) st hlt
    rw [hloop]
    exact Option.some_ne_none st'

/-- A search that passes its checks panics exactly if its descent leaves the
    stored nodes. -/
theorem searchFiltered_eq_none_iff {query : Embedding} {k : Nat} {metric : Metric}
    {isAdmissible : VectorId → Bool} {entry : Nat}
    (hdim : query.dimension = s.dimension.get) (hmetric : metric = s.config.metric)
    (hentry : s.graph.entryPoint = some entry) :
    s.searchFiltered P query k metric isAdmissible = none ↔
      ¬ HnswGraph.DescendsBelow P s.graph metric query.values entry 1 s.graph.nodeCount := by
  unfold searchFiltered
  rw [if_neg (not_not.mpr hdim), if_neg (not_not.mpr hmetric), hentry]
  dsimp only
  rw [Option.map_eq_none_iff, HnswGraph.beamSearch_eq_none_iff]
  exact not_congr HnswGraph.beamEntry_lt_iff

/-- So does an insert of a point that the graph accepts. -/
theorem insertAt_eq_none_iff {id : VectorId} {e : Embedding} {level : Nat} :
    insertAt P s id e level = none ↔ ∃ n graph entry,
      s.graph.addNode id e level = .ok (n, graph) ∧ s.graph.entryPoint = some entry ∧
      ¬ HnswGraph.DescendsBelow P graph s.config.metric e.values entry (level + 1)
        graph.nodeCount := by
  unfold insertAt
  cases hadd : s.graph.addNode id e level with
  | error error =>
    refine iff_of_false nofun ?_
    rintro ⟨n, graph, entry, hok, -⟩
    cases hok
  | ok r =>
    obtain ⟨n, graph⟩ := r
    obtain ⟨rfl, rfl, -⟩ := HnswGraph.addNode_eq_ok hadd
    dsimp only
    rw [HnswGraph.entryPoint_withNode]
    cases hentry : s.graph.entryPoint with
    | none =>
      refine iff_of_false nofun ?_
      rintro ⟨_, _, entry, -, hnone, -⟩
      cases hnone
    | some entry =>
      dsimp only
      rw [Option.map_eq_none_iff, ← not_ne_iff, linkLayers_ne_none_iff]
      constructor
      · intro hmissing
        exact ⟨_, _, entry, rfl, rfl, fun h => hmissing (HnswGraph.beamEntry_lt_iff.mpr h)⟩
      · rintro ⟨_, _, _, hok, hsame, hbelow⟩ hlt
        cases hok
        cases hsame
        exact hbelow (HnswGraph.beamEntry_lt_iff.mp hlt)

/-! ## Restored indices -/

variable {config : HnswConfig} {dimension : Dimension} {snapshot : GraphSnapshot}
  {embeddings : Nat → Option (List F32)}

/-- A restored index has the entry point of the snapshot, and its nodes. -/
theorem restored_entry (h : fromSnapshot config dimension snapshot embeddings = .ok s) :
    s.graph.entryPoint = snapshot.entryPoint ∧ s.graph.nodeCount = snapshot.nodes.length := by
  constructor
  · unfold fromSnapshot at h
    cases hnodes : restoreNodes embeddings 0 snapshot.nodes HnswGraph.new with
    | error e =>
      rw [hnodes] at h
      cases h
    | ok graph =>
      rw [hnodes] at h
      cases h
      rfl
  · obtain ⟨-, -, values, -, hlen, hmap⟩ := restored_values h
    rw [← hlen, ← hmap, List.length_map]
    rfl

/-- Neither a search nor an insert of a point of the right dimension indexes out
    of bounds. -/
structure InBounds (P : Platform) (levelFloat : LevelFloat) (s : HnswIndex) : Prop where
  search : ∀ (query : Embedding) k metric isAdmissible, query.dimension = s.dimension.get →
    s.searchFiltered P query k metric isAdmissible ≠ none
  insert : ∀ id (e : Embedding), e.dimension = s.dimension.get →
    s.insert P levelFloat id e ≠ none

/-- The level of the next node. -/
def nextLevel (levelFloat : LevelFloat) (s : HnswIndex) : Nat :=
  (s.rng.nextLevel levelFloat s.config.m).1

/-- If the snapshot has an entry point, it is that of a node of the snapshot, and
    no descent from it stands on a number that has no node: for a query down to
    layer 1, and for a new point, in the graph with its node, down to the layer
    above its own. -/
structure Undamaged (P : Platform) (levelFloat : LevelFloat) (snapshot : GraphSnapshot)
    (s : HnswIndex) : Prop where
  search : ∀ entry, snapshot.entryPoint = some entry →
    ∀ query : Embedding, query.dimension = s.dimension.get →
      HnswGraph.DescendsBelow P s.graph s.config.metric query.values entry 1
        snapshot.nodes.length
  insert : ∀ entry, snapshot.entryPoint = some entry →
    ∀ id (e : Embedding) n graph, e.dimension = s.dimension.get →
      s.graph.addNode id e (s.nextLevel levelFloat) = .ok (n, graph) →
      HnswGraph.DescendsBelow P graph s.config.metric e.values entry
        (s.nextLevel levelFloat + 1) (snapshot.nodes.length + 1)

theorem insert_eq_none_iff {levelFloat : LevelFloat} {id : VectorId} {e : Embedding}
    (hdim : e.dimension = s.dimension.get) : s.insert P levelFloat id e = none ↔
      ∃ n graph entry, s.graph.addNode id e (s.nextLevel levelFloat) = .ok (n, graph) ∧
        s.graph.entryPoint = some entry ∧
        ¬ HnswGraph.DescendsBelow P graph s.config.metric e.values entry
          (s.nextLevel levelFloat + 1) graph.nodeCount := by
  unfold insert insertTracked
  rw [Option.map_eq_none_iff, if_neg (not_not.mpr hdim)]
  by_cases hlive : (s.graph.idToNode id).isSome = true
  · -- the id is refused here, and would be refused by the graph
    rw [if_pos hlive]
    refine iff_of_false nofun ?_
    rintro ⟨n, graph, entry, hok, -⟩
    obtain ⟨-, -, hfree⟩ := HnswGraph.addNode_eq_ok hok
    rw [HnswGraph.idToNode, hfree] at hlive
    cases hlive
  · rw [if_neg hlive]
    exact insertAt_eq_none_iff

/-- A snapshot whose entry point and whose lists above layer 0 name nodes of the
    snapshot is undamaged. -/
theorem undamaged_of_links (levelFloat : LevelFloat)
    (h : fromSnapshot config dimension snapshot embeddings = .ok s)
    (hentry : ∀ entry, snapshot.entryPoint = some entry → entry < snapshot.nodes.length)
    (hlinks : ∀ layer a b, 1 ≤ layer → s.graph.Link layer a b → b < snapshot.nodes.length) :
    Undamaged P levelFloat snapshot s := by
  obtain ⟨-, hcount⟩ := restored_entry h
  refine ⟨?_, ?_⟩
  · intro entry he query _
    rw [← hcount]
    exact HnswGraph.descendsBelow_of_links (hcount ▸ hentry entry he)
      fun layer a b hlayer hlink => hcount ▸ hlinks layer a b hlayer hlink
  · intro entry he id e n graph _ hadd
    obtain ⟨-, rfl, -⟩ := HnswGraph.addNode_eq_ok hadd
    have hnodes : (s.graph.withNode id e (s.nextLevel levelFloat)).nodeCount =
        snapshot.nodes.length + 1 := by
      rw [HnswGraph.nodeCount_withNode, hcount]
    rw [← hnodes]
    apply HnswGraph.descendsBelow_of_links
    · rw [hnodes]
      exact Nat.lt_succ_of_lt (hentry entry he)
    · intro layer a b hlayer hlink
      rw [HnswGraph.Link, HnswGraph.neighbors_withNode] at hlink
      rw [hnodes]
      exact Nat.lt_succ_of_lt (hlinks layer a b (Nat.le_trans (Nat.le_add_left 1 _) hlayer) hlink)

/-- So the snapshots an index takes of itself are undamaged. -/
theorem undamaged_snapshot (levelFloat : LevelFloat) (h : Inv config dimension s) :
    Undamaged P levelFloat s.snapshot s := by
  have hrestored : fromSnapshot config dimension s.snapshot s.graph.nodeEmbedding = .ok s :=
    fromSnapshot_snapshot h fun _ _ => rfl
  have hcount := (restored_entry hrestored).2
  have hentry := (restored_entry hrestored).1
  apply undamaged_of_links levelFloat hrestored
  · intro entry he
    rw [← hcount]
    exact h.entry.lt_nodeCount (hentry.trans he)
  · intro layer a b _ hlink
    rw [← hcount]
    exact h.links.inRange a layer b hlink

/-- No nodes, and an entry point. -/
def missingEntry : GraphSnapshot :=
  { nodes := [], entryPoint := some 7, entryLevel := 0, rngState := 50, liveCount := 0 }

end HnswIndex

end EidosDB
