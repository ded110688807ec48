import EidosDB.Hnsw.Invariant

/-! # What Each Call Does

    One inversion lemma for each writing call of the index, under the
    invariant: an insert is rejected and changes nothing, or is accepted and
    does what `Inserted` says; a remove marks one node; a compaction is the
    run of inserts of the live points from an empty index.  No call panics. -/

namespace EidosDB

open HnswGraph

variable {P : Platform} {config : HnswConfig} {dimension : Dimension}

namespace HnswIndex

/-- The invariant of an index with these parameters. -/
structure Inv (config : HnswConfig) (dimension : Dimension) (s : HnswIndex) : Prop where
  config_eq : s.config = config
  dimension_eq : s.dimension = dimension
  links : LinkInv config s.graph
  nodes : NodeInv dimension s.graph
  entry : EntryInv s.graph

theorem inv_new (config : HnswConfig) (dimension : Dimension) :
    Inv config dimension (new config dimension) :=
  ⟨rfl, rfl, LinkInv.new config, NodeInv.new dimension, EntryInv.new⟩

/-- The generator takes no part in the invariant. -/
theorem Inv.setRng {s : HnswIndex} (h : Inv config dimension s) (rng : SplitMix64) :
    Inv config dimension { s with rng := rng } :=
  ⟨h.config_eq, h.dimension_eq, h.links, h.nodes, h.entry⟩

/-! ## Insert -/

/-- What an accepted insert does. -/
structure Inserted (s : HnswIndex) (id : VectorId) (embedding : Embedding) (level : Nat)
    (delta : InsertDelta) (s' : HnswIndex) : Prop where
  config_eq : s'.config = s.config
  dimension_eq : s'.dimension = s.dimension
  shape : ((s.graph.withNode id embedding level).setEntryPoint
    (raisedEntry s.graph level)).SameShape s'.graph
  newNodeIdx : delta.newNodeIdx = s.graph.nodeCount
  touched_new : s.graph.nodeCount ∈ delta.touchedNodes
  touched_lt : ∀ n ∈ delta.touchedNodes, n < s'.graph.nodeCount
  frame : ∀ n l, n ∉ delta.touchedNodes → s'.graph.neighbors n l = s.graph.neighbors n l
  entryChanged : delta.entryChanged = decide (s'.graph.entryPoint ≠ s.graph.entryPoint)

section insertAt

variable {s : HnswIndex} {id : VectorId} {e : Embedding} {level : Nat}

/-- The state at the start of the layer loop is a `Linking` state. -/
theorem linking_start (h : Inv config dimension s) {entry current : Nat}
    (hentry : s.graph.entryPoint = some entry)
    (hreach : s.graph.ReachAbove (level + 1) entry current) :
    Linking config (s.graph.withNode id e level) s.graph.nodeCount
      (min level (s.graph.nodeLevel entry) + 1)
      { graph := s.graph.withNode id e level, current := current
        touched := touch [] s.graph.nodeCount } := by
  have hentryLt := h.entry.lt_nodeCount hentry
  have hcurrent : current < s.graph.nodeCount ∧
      min level (s.graph.nodeLevel entry) ≤ s.graph.nodeLevel current := by
    rcases Relation.ReflTransGen.cases_tail hreach with rfl | ⟨x, -, l, hl, hx⟩
    · exact ⟨hentryLt, min_le_right _ _⟩
    · have := h.links.level x l current hx
      have := min_le_left level (s.graph.nodeLevel entry)
      exact ⟨h.links.inRange x l current hx, by omega⟩
  have hne : current ≠ s.graph.nodeCount := ne_of_lt hcurrent.1
  have htouched : s.graph.nodeCount ∈ touch [] s.graph.nodeCount := mem_touch.mpr (Or.inr rfl)
  refine ⟨.refl _, h.links.withNode id e level, ?_, hne, ?_, ?_, ?_, ?_, fun _ _ _ => rfl,
    htouched, ?_⟩
  · rw [nodeCount_withNode]
    exact lt_trans hcurrent.1 (Nat.lt_succ_self _)
  · rw [nodeLevel_withNode, if_neg hne]
    exact Nat.succ_le_succ hcurrent.2
  · rw [nodeCount_withNode]
    exact Nat.lt_succ_self _
  · rw [nodeLevel_withNode, if_pos rfl]
    exact Nat.succ_le_succ (min_le_left _ _)
  · intro n l _ hn
    rw [neighbors_withNode] at hn
    exact lt_irrefl _ (h.links.inRange n l _ hn)
  · intro n hn
    have hn : n ∈ touch [] s.graph.nodeCount := hn
    rw [nodeCount_withNode]
    rcases mem_touch.mp hn with hn | rfl
    · exact absurd hn (by simp)
    · exact Nat.lt_succ_self _

theorem reachAbove_withNode (id : VectorId) (e : Embedding) (level : Nat) {g : HnswGraph}
    (lo : Nat) :
    (g.withNode id e level).ReachAbove lo = g.ReachAbove lo := by
  unfold ReachAbove Link
  simp only [neighbors_withNode]

/-- Where the search for the first linked layer starts; `g` has the new node. -/
def linkEntry (P : Platform) (config : HnswConfig) (g : HnswGraph) (e : Embedding)
    (level entry : Nat) : Nat :=
  if level < g.nodeLevel entry
  then g.greedyDescent P config.metric e.values entry (g.nodeLevel entry) (level + 1) else entry

/-- The state at the start of the layer loop. -/
def linkStart (P : Platform) (config : HnswConfig) (g : HnswGraph) (id : VectorId) (e : Embedding)
    (level entry : Nat) : LinkState :=
  { graph := g.withNode id e level
    current := linkEntry P config (g.withNode id e level) e level entry
    touched := touch [] g.nodeCount }

/-- An insert that passed its checks is accepted.  A property of the graph
    during the layer loop that holds at its start and is kept by each layer
    holds of the links in the end. -/
theorem insertAt_induct (level : Nat) {motive : Nat → LinkState → Prop} (h : Inv config dimension s)
    (hdim : e.dimension = dimension.get) (hid : s.graph.live id = none)
    (hstart : ∀ entry, s.graph.entryPoint = some entry →
      s.graph.ReachAbove (level + 1) entry (linkStart P config s.graph id e level entry).current →
      motive (min level (s.graph.nodeLevel entry) + 1)
        (linkStart P config s.graph id e level entry))
    (hstep : ∀ count st st' candidates selected,
      Linking config (s.graph.withNode id e level) s.graph.nodeCount (count + 1) st →
      LayerLinked P config.metric config e.values s.graph.nodeCount count st st' candidates
        selected →
      motive (count + 1) st → motive count st') :
    ∃ delta st, insertAt P s id e level = some (.ok delta,
        { s with graph := st.graph.setEntryPoint (raisedEntry s.graph level) }) ∧
      Inserted s id e level delta
        { s with graph := st.graph.setEntryPoint (raisedEntry s.graph level) } ∧
      LinkInv config st.graph ∧
      ((s.graph.entryPoint = none ∧ st.graph = s.graph.withNode id e level) ∨
        (s.graph.entryPoint ≠ none ∧ motive 0 st)) := by
  have hadd : s.graph.addNode id e level =
      .ok (s.graph.nodeCount, s.graph.withNode id e level) :=
    addNode_ok level (fun n hn => (h.nodes.dim n hn).trans hdim.symm) hid
  cases hep : s.graph.entryPoint with
  | none =>
    -- the first node: it is the entry point, and no layer is linked
    have hraised : raisedEntry s.graph level = some s.graph.nodeCount := by
      rw [raisedEntry, hep]
    refine ⟨{ newNodeIdx := s.graph.nodeCount, touchedNodes := [s.graph.nodeCount]
              entryChanged := true },
      { graph := s.graph.withNode id e level, current := 0, touched := [] }, ?_,
      ⟨rfl, rfl, .refl _, rfl, List.mem_singleton.mpr rfl, ?_, ?_, ?_⟩,
      h.links.withNode id e level, Or.inl ⟨rfl, rfl⟩⟩
    · rw [insertAt, hadd, hraised]
      simp [hep]
    · intro n hn
      rw [List.mem_singleton.mp hn]
      simp
    · intro n l _
      simp
    · simp [hraised, hep]
  | some entry =>
    have hentryInv := h.entry
    obtain rfl := h.config_eq
    set base := s.graph.withNode id e level with hbase
    have hentryLt := hentryInv.lt_nodeCount hep
    have hentryLevel : base.nodeLevel entry = s.graph.nodeLevel entry := by
      rw [hbase, nodeLevel_withNode, if_neg (ne_of_lt hentryLt)]
    have hreach : s.graph.ReachAbove (level + 1) entry
        (linkStart P s.config s.graph id e level entry).current := by
      unfold linkStart linkEntry
      dsimp only
      split
      · rw [← reachAbove_withNode id e level]
        exact greedyDescent_reach entry _ _
      · exact Relation.ReflTransGen.refl
    obtain ⟨st, hloop, hlinking, hmotive⟩ := linkLayers_induct P s.config.metric s.config
      e.values s.graph.nodeCount
      (motive := fun count st => Linking s.config base s.graph.nodeCount count st ∧ motive count st)
      (fun _ _ hm => hm.1.current_lt)
      (fun count st st' candidates selected hm hl =>
        ⟨hm.1.step hl, hstep count st st' candidates selected hm.1 hl hm.2⟩)
      _ _ ⟨linking_start h hep hreach, hstart entry hep hreach⟩
    have hgraph : (if decide (s.graph.nodeLevel entry < level) = true
        then st.graph.setEntryPoint (some s.graph.nodeCount) else st.graph) =
        st.graph.setEntryPoint (raisedEntry s.graph level) := by
      have hsame : st.graph.entryPoint = some entry := hlinking.shape.entryPoint.trans hep
      unfold raisedEntry
      rw [hep]
      by_cases hlt : s.graph.nodeLevel entry < level
      · simp [hlt]
      · simp only [hlt, decide_false, Bool.false_eq_true, if_false]
        rw [← hsame, setEntryPoint_self]
    have hcall : insertAt P s id e level = some
        (.ok { newNodeIdx := s.graph.nodeCount, touchedNodes := st.touched
               entryChanged := decide (s.graph.nodeLevel entry < level) ||
                 decide (st.graph.entryPoint ≠ s.graph.entryPoint) },
          { s with graph := st.graph.setEntryPoint (raisedEntry s.graph level) }) := by
      rw [← hgraph]
      unfold insertAt
      rw [hadd]
      have hbaseEntry : base.entryPoint = some entry := hep
      dsimp only
      rw [hbaseEntry]
      dsimp only
      rw [hentryLevel]
      show Option.map _ (linkLayers P s.config.metric s.config e.values s.graph.nodeCount
        (min level (s.graph.nodeLevel entry) + 1)
        { graph := base, current := _, touched := touch [] s.graph.nodeCount }) = _
      rw [← hentryLevel]
      rw [← hentryLevel] at hloop
      exact congrArg (Option.map _) hloop
    refine ⟨_, st, hcall, ⟨rfl, rfl, ?_, rfl, hlinking.touched_new, hlinking.touched_lt, ?_, ?_⟩,
      hlinking.links, Or.inr ⟨by simp, hmotive⟩⟩
    · have hs := hlinking.shape
      exact ⟨hs.nodes, hs.live, rfl, hs.liveCount⟩
    · intro n l hn
      rw [neighbors_setEntryPoint, hlinking.frame n l hn, hbase, neighbors_withNode]
    · have hsame : st.graph.entryPoint = some entry := hlinking.shape.entryPoint.trans hep
      have hne : s.graph.nodeCount ≠ entry := (ne_of_lt hentryLt).symm
      rw [entryPoint_setEntryPoint, hsame, raisedEntry, hep]
      by_cases hlt : s.graph.nodeLevel entry < level <;> simp [hlt, hne]

/-- The invariant after an accepted insert. -/
theorem Inserted.inv {delta : InsertDelta} {s' : HnswIndex} (h : Inv config dimension s)
    (hdim : e.dimension = dimension.get) (hlevel : level ≤ maxLevel)
    (hid : s.graph.live id = none) (hi : Inserted s id e level delta s')
    (hlinks : LinkInv config s'.graph) : Inv config dimension s' :=
  ⟨hi.config_eq.trans h.config_eq, hi.dimension_eq.trans h.dimension_eq, hlinks,
    ((h.nodes.withNode hdim hlevel hid).setEntryPoint _).sameShape hi.shape,
    (h.entry.withNode id e level).sameShape hi.shape⟩

theorem insertAt_spec (h : Inv config dimension s) (hdim : e.dimension = dimension.get)
    (hlevel : level ≤ maxLevel) (hid : s.graph.live id = none) :
    ∃ delta s', insertAt P s id e level = some (.ok delta, s') ∧
      Inserted s id e level delta s' ∧ s'.rng = s.rng ∧ Inv config dimension s' := by
  obtain ⟨delta, st, hcall, hi, hlinks, -⟩ := insertAt_induct (P := P) level
    (motive := fun _ _ => True) h hdim hid (fun _ _ _ => trivial)
    (fun _ _ _ _ _ _ _ _ => trivial)
  exact ⟨delta, _, hcall, hi, rfl, hi.inv h hdim hlevel hid (hlinks.setEntryPoint _)⟩

end insertAt

/-- The three outcomes of an insert: two rejections that change nothing, and
    the linking at the level the generator draws. -/
theorem insertTracked_cases (s : HnswIndex) (levelFloat : LevelFloat) (id : VectorId)
    (e : Embedding) :
    (e.dimension ≠ s.dimension.get ∧ insertTracked P levelFloat s id e =
      some (.error (.dimensionMismatch s.dimension.get e.dimension), s)) ∨
    (e.dimension = s.dimension.get ∧ (∃ n, s.graph.live id = some n) ∧
      insertTracked P levelFloat s id e = some (.error (.duplicateId id), s)) ∨
    (e.dimension = s.dimension.get ∧ s.graph.live id = none ∧
      insertTracked P levelFloat s id e =
        insertAt P { s with rng := (s.rng.nextLevel levelFloat s.config.m).2 } id e
          (s.rng.nextLevel levelFloat s.config.m).1) := by
  unfold insertTracked idToNode
  by_cases hdim : e.dimension = s.dimension.get
  · rw [if_neg (not_not.mpr hdim)]
    cases hlive : s.graph.live id with
    | none => exact Or.inr (Or.inr ⟨hdim, rfl, by simp⟩)
    | some n => exact Or.inr (Or.inl ⟨hdim, ⟨n, rfl⟩, by simp⟩)
  · exact Or.inl ⟨hdim, by rw [if_pos hdim]⟩

/-- What `insert_tracked` does to an index that meets the invariant. -/
inductive InsertOutcome (s : HnswIndex) (id : VectorId) (e : Embedding) :
    Except IndexError InsertDelta → HnswIndex → Prop where
  | mismatch (hdim : e.dimension ≠ s.dimension.get) :
      InsertOutcome s id e (.error (.dimensionMismatch s.dimension.get e.dimension)) s
  | duplicate (hdim : e.dimension = s.dimension.get) (n : Nat) (hlive : s.graph.live id = some n) :
      InsertOutcome s id e (.error (.duplicateId id)) s
  | accepted (hdim : e.dimension = s.dimension.get) (hid : s.graph.live id = none) {level : Nat}
      (hlevel : level ≤ maxLevel) {delta : InsertDelta} {s' : HnswIndex}
      (hinserted : Inserted s id e level delta s') : InsertOutcome s id e (.ok delta) s'

theorem insertTracked_spec {s : HnswIndex} (h : Inv config dimension s) (levelFloat : LevelFloat)
    (id : VectorId) (e : Embedding) :
    ∃ r s', insertTracked P levelFloat s id e = some (r, s') ∧ InsertOutcome s id e r s' ∧
      Inv config dimension s' := by
  rcases insertTracked_cases (P := P) s levelFloat id e with
    ⟨hdim, hcall⟩ | ⟨hdim, ⟨n, hn⟩, hcall⟩ | ⟨hdim, hid, hcall⟩
  · exact ⟨_, s, hcall, .mismatch hdim, h⟩
  · exact ⟨_, s, hcall, .duplicate hdim n hn, h⟩
  · have hlevel := SplitMix64.nextLevel_le levelFloat s.config.m s.rng
    generalize s.rng.nextLevel levelFloat s.config.m = drawn at hcall hlevel
    obtain ⟨delta, s', hat, hi, -, hinv⟩ := insertAt_spec (P := P) (h.setRng drawn.2)
      (hdim.trans (congrArg Dimension.get h.dimension_eq)) hlevel hid
    have hi : Inserted s id e drawn.1 delta s' :=
      ⟨hi.config_eq, hi.dimension_eq, hi.shape, hi.newNodeIdx, hi.touched_new, hi.touched_lt,
        hi.frame, hi.entryChanged⟩
    exact ⟨_, s', hcall.trans hat, .accepted hdim hid hlevel hi, hinv⟩

/-! ## Remove -/

/-- Of the first two elements the later one stays if it is as high. -/
theorem maxByLevel_cons_cons (b a : LiveNode) (rest : List LiveNode) :
    maxByLevel (b :: a :: rest) =
      maxByLevel ((if b.level ≤ a.level then a else b) :: rest) := by
  unfold maxByLevel
  simp only [List.foldl_cons]
  split <;> rfl

theorem maxByLevel_cons (l : List LiveNode) (b : LiveNode) :
    ∃ x ∈ b :: l, maxByLevel (b :: l) = some x ∧ ∀ y ∈ b :: l, y.level ≤ x.level := by
  -- `b` is the highest element so far
  induction l generalizing b with
  | nil => exact ⟨b, List.mem_cons_self, rfl, by simp⟩
  | cons a rest ih =>
    rw [maxByLevel_cons_cons]
    by_cases hle : b.level ≤ a.level
    · rw [if_pos hle]
      obtain ⟨x, hx, heq, hall⟩ := ih a
      refine ⟨x, List.mem_cons_of_mem _ hx, heq, ?_⟩
      intro y hy
      rcases List.mem_cons.mp hy with rfl | hy
      · exact le_trans hle (hall a List.mem_cons_self)
      · exact hall y hy
    · rw [if_neg hle]
      obtain ⟨x, hx, heq, hall⟩ := ih b
      refine ⟨x, ?_, heq, ?_⟩
      · rcases List.mem_cons.mp hx with rfl | hx
        · exact List.mem_cons_self
        · exact List.mem_cons_of_mem _ (List.mem_cons_of_mem _ hx)
      · intro y hy
        have hb := hall b List.mem_cons_self
        rcases List.mem_cons.mp hy with rfl | hy
        · exact hb
        · rcases List.mem_cons.mp hy with rfl | hy
          · omega
          · exact hall y (List.mem_cons_of_mem _ hy)

theorem maxByLevel_spec (l : List LiveNode) :
    (maxByLevel l = none ∧ l = []) ∨
      ∃ x ∈ l, maxByLevel l = some x ∧ ∀ y ∈ l, y.level ≤ x.level := by
  cases l with
  | nil => exact Or.inl ⟨rfl, rfl⟩
  | cons a rest => exact Or.inr (maxByLevel_cons rest a)

/-- The entry point once `node`, the live node of `id`, was marked. -/
def electedEntry (g : HnswGraph) (node : Nat) (id : VectorId) : Option Nat :=
  if g.entryPoint = some node
  then (maxByLevel (g.withTombstone node id).liveNodes).map (fun x => x.idx)
  else g.entryPoint

/-- What `remove_tracked` does to an index that meets the invariant. -/
inductive RemoveOutcome (s : HnswIndex) (id : VectorId) :
    Except IndexError (Option RemoveDelta) → HnswIndex → Prop where
  | absent (hlive : s.graph.live id = none) : RemoveOutcome s id (.ok none) s
  | removed {node : Nat} (hlive : s.graph.live id = some node) :
      RemoveOutcome s id
        (.ok (some { touchedNodes := [node]
                     entryChanged := decide (s.graph.entryPoint = some node) }))
        { s with graph := (s.graph.withTombstone node id).setEntryPoint
                            (electedEntry s.graph node id) }

theorem removeTracked_outcome {s : HnswIndex} (h : Inv config dimension s) (id : VectorId) :
    RemoveOutcome s id (s.removeTracked id).1 (s.removeTracked id).2 := by
  unfold removeTracked idToNode
  cases hlive : s.graph.live id with
  | none => exact .absent hlive
  | some node =>
    obtain ⟨hnode, hid⟩ := (h.nodes.live_iff id node).mp hlive
    have hgraph : (if decide (s.graph.entryPoint = some node) = true
        then (s.graph.withTombstone node id).setEntryPoint
          ((maxByLevel (s.graph.withTombstone node id).liveNodes).map (fun x => x.idx))
        else s.graph.withTombstone node id) =
        (s.graph.withTombstone node id).setEntryPoint (electedEntry s.graph node id) := by
      unfold electedEntry
      by_cases he : s.graph.entryPoint = some node
      · simp [he]
      · simp only [he, decide_false, Bool.false_eq_true, if_false]
        exact (setEntryPoint_self _).symm
    simp only [tombstone_live hnode hid, Bool.not_true, Bool.false_eq_true, if_false, hgraph]
    exact .removed hlive

theorem entryInv_removed {g : HnswGraph} (h : EntryInv g) (node : Nat) (id : VectorId) :
    EntryInv ((g.withTombstone node id).setEntryPoint (electedEntry g node id)) := by
  unfold electedEntry
  split
  · rcases maxByLevel_spec (g.withTombstone node id).liveNodes with ⟨hnone, hnil⟩ | ⟨x, hx, heq, hall⟩
    · rw [hnone]
      refine ⟨⟨fun _ n hn => ?_, fun _ => rfl⟩, fun e he => absurd he (by simp),
        fun e n he => absurd he (by simp)⟩
      obtain ⟨y, hy, -⟩ := exists_liveNode (g := g.withTombstone node id) hn
      rw [hnil] at hy
      exact absurd hy (by simp)
    · rw [heq]
      obtain ⟨hlive, -, hlevel⟩ := liveNodes_spec hx
      refine EntryInv.of_top hlive fun n hn => ?_
      obtain ⟨y, hy, rfl⟩ := exists_liveNode hn
      rw [hlevel, (liveNodes_spec hy).2.2]
      exact hall y hy
  · next hne =>
    refine ⟨?_, ?_, ?_⟩
    · rw [entryPoint_setEntryPoint, h.none_iff]
      simp only [isLive_setEntryPoint, isLive_withTombstone]
      refine ⟨fun hall n hn => hall n hn.1, fun hall n hn => ?_⟩
      -- the marked node alone may have been live, but then it was the entry
      cases hep : g.entryPoint with
      | none => exact absurd hn (h.none_iff.mp hep n)
      | some e =>
        refine hall e ⟨h.live e hep, ?_⟩
        rintro rfl
        exact hne hep
    · intro e he
      rw [isLive_setEntryPoint, isLive_withTombstone]
      refine ⟨h.live e he, ?_⟩
      rintro rfl
      exact hne he
    · intro e n he hn
      rw [isLive_setEntryPoint, isLive_withTombstone] at hn
      rw [nodeLevel_setEntryPoint, nodeLevel_setEntryPoint, nodeLevel_withTombstone,
        nodeLevel_withTombstone]
      exact h.top e n he hn.1

theorem RemoveOutcome.inv {s s' : HnswIndex} (h : Inv config dimension s) {id : VectorId}
    {r : Except IndexError (Option RemoveDelta)} (hr : RemoveOutcome s id r s') :
    Inv config dimension s' := by
  cases hr with
  | absent => exact h
  | @removed node hlive =>
    obtain ⟨hnode, hid⟩ := (h.nodes.live_iff id node).mp hlive
    exact ⟨h.config_eq, h.dimension_eq, (h.links.withTombstone node id).setEntryPoint _,
      (h.nodes.withTombstone hnode hid).setEntryPoint _, entryInv_removed h.entry _ id⟩

/-! ## Compact -/

theorem mapM_ok {α β ε : Type} {f : α → Except ε β} {h : α → β} (l : List α)
    (hf : ∀ x ∈ l, f x = .ok (h x)) : l.mapM f = .ok (l.map h) := by
  induction l with
  | nil => rfl
  | cons a rest ih =>
    rw [List.mapM_cons, hf a List.mem_cons_self, ih fun x hx => hf x (List.mem_cons_of_mem _ hx)]
    rfl

/-- Every stored embedding is valid, so the live points can be read. -/
theorem livePoints_eq (s : HnswIndex) : s.livePoints = .ok s.graph.points := by
  unfold livePoints liveNodes
  rw [List.mapM_map, mapM_ok (h := fun p => (p.1.id, p.1.embedding)) _ fun p _ => by
    simp [Except.map]]
  congr 1
  have hfst : s.graph.nodes.zipIdx.map Prod.fst = s.graph.nodes :=
    List.zipIdx_map_fst 0 s.graph.nodes
  conv => rhs; rw [points, ← hfst, List.filterMap_map]
  induction s.graph.nodes.zipIdx with
  | nil => rfl
  | cons p rest ih =>
    cases ht : p.1.tombstone <;> simp [ht, Node.point, ih]

theorem live_inserted {s s' : HnswIndex} {id : VectorId} {e : Embedding} {level : Nat}
    {delta : InsertDelta} (h : Inserted s id e level delta s') (id' : VectorId) :
    s'.graph.live id' = if id' = id then some s.graph.nodeCount else s.graph.live id' := by
  rw [h.shape.live, live_setEntryPoint, live_withNode]

/-- Inserting points with distinct new ids succeeds.  A property of the index
    and of the points still to come that each insert keeps holds at the end. -/
theorem bulkInsert_induct {motive : List (VectorId × Embedding) → HnswIndex → Prop}
    {levelFloat : LevelFloat}
    (hstep : ∀ id e rest s delta s' level, Inv config dimension s → Inv config dimension s' →
      motive ((id, e) :: rest) s → insertTracked P levelFloat s id e = some (.ok delta, s') →
      Inserted s id e level delta s' → motive rest s')
    (items : List (VectorId × Embedding)) (s : HnswIndex) (h : Inv config dimension s)
    (hdim : ∀ p ∈ items, p.2.dimension = dimension.get)
    (hfresh : ∀ p ∈ items, s.graph.live p.1 = none) (hnodup : (items.map Prod.fst).Nodup)
    (hm : motive items s) :
    ∃ s', bulkInsert P levelFloat s items = some (.ok (), s') ∧ Inv config dimension s' ∧
      motive [] s' := by
  induction items generalizing s with
  | nil => exact ⟨s, rfl, h, hm⟩
  | cons p rest ih =>
    obtain ⟨id, e⟩ := p
    obtain ⟨r, s₁, hcall, houtcome, hinv⟩ := insertTracked_spec (P := P) h levelFloat id e
    have hid : s.graph.live id = none := hfresh (id, e) List.mem_cons_self
    cases houtcome with
    | mismatch hd =>
      rw [h.dimension_eq] at hd
      exact absurd (hdim (id, e) List.mem_cons_self) hd
    | duplicate _ n hn =>
      rw [hid] at hn
      exact absurd hn (by simp)
    | @accepted _ _ level _ delta s' hi =>
      rw [List.map_cons, List.nodup_cons] at hnodup
      have hfresh' : ∀ p ∈ rest, s₁.graph.live p.1 = none := by
        intro p hp
        have hne : p.1 ≠ id := fun heq => hnodup.1 (List.mem_map.mpr ⟨p, hp, heq⟩)
        rw [live_inserted hi, if_neg hne]
        exact hfresh p (List.mem_cons_of_mem _ hp)
      obtain ⟨s', hrest, hinv', hm'⟩ := ih s₁ hinv
        (fun p hp => hdim p (List.mem_cons_of_mem _ hp)) hfresh' hnodup.2
        (hstep id e rest s delta s₁ level h hinv hm hcall hi)
      exact ⟨s', by simp [bulkInsert, insert, hcall, Except.map, hrest], hinv', hm'⟩

theorem nodup_points {g : HnswGraph} (h : NodeInv dimension g) :
    (g.points.map Prod.fst).Nodup := by
  unfold List.Nodup points
  rw [List.pairwise_map, List.pairwise_filterMap, List.pairwise_iff_getElem]
  intro i j hi hj hij a ha b hb hab
  unfold Node.point at ha hb
  -- the older of two nodes with one id is marked, hence not a point
  cases hti : g.nodes[i].tombstone with
  | true => simp [hti] at ha
  | false =>
    cases htj : g.nodes[j].tombstone with
    | true => simp [htj] at hb
    | false =>
      simp only [hti, htj, Bool.false_eq_true, if_false, Option.some.injEq] at ha hb
      have hdead := h.older_dead i j hij hj (by
        rw [nodeId, nodeId, List.getElem?_eq_getElem hi, List.getElem?_eq_getElem hj]
        simp only [Option.map_some, Option.some.injEq]
        rw [← ha, ← hb] at hab
        exact hab)
      simp [isTombstone, List.getElem?_eq_getElem hi, hti] at hdead

/-- A compaction inserts the live points into an empty index. -/
theorem compact_eq (levelFloat : LevelFloat) {s : HnswIndex} (h : Inv config dimension s) :
    compact P levelFloat s = bulkInsert P levelFloat (new config dimension) s.graph.points := by
  have hstart : ({ s with rng := SplitMix64.new s.config.seed, graph := HnswGraph.new } : HnswIndex)
      = new config dimension := by
    rw [← h.config_eq, ← h.dimension_eq]
    rfl
  unfold compact
  rw [livePoints_eq]
  dsimp only
  rw [hstart]

/-- A property of the index and of the live points still to come that each
    insert of a compaction keeps holds at its end. -/
theorem compact_induct {motive : List (VectorId × Embedding) → HnswIndex → Prop}
    (levelFloat : LevelFloat) {s : HnswIndex} (h : Inv config dimension s)
    (hinit : motive s.graph.points (new config dimension))
    (hstep : ∀ id e rest s delta s' level, Inv config dimension s → Inv config dimension s' →
      motive ((id, e) :: rest) s → insertTracked P levelFloat s id e = some (.ok delta, s') →
      Inserted s id e level delta s' → motive rest s') :
    ∃ s', compact P levelFloat s = some (.ok (), s') ∧ Inv config dimension s' ∧ motive [] s' := by
  have hdim : ∀ p ∈ s.graph.points, p.2.dimension = dimension.get := by
    rintro ⟨id, e⟩ hp
    obtain ⟨n, node, hn, -, -, rfl⟩ := mem_points.mp hp
    exact h.nodes.dim node (List.mem_of_getElem? hn)
  rw [compact_eq levelFloat h]
  exact bulkInsert_induct hstep s.graph.points _ (inv_new config dimension) hdim
    (fun _ _ => rfl) (nodup_points h.nodes) hinit

theorem Inserted.nodes_map {α : Type} (f : Node → α) (hf : ∀ n, f n.shape = f n)
    {s s' : HnswIndex} {id : VectorId} {e : Embedding} {level : Nat} {delta : InsertDelta}
    (h : Inserted s id e level delta s') :
    s'.graph.nodes.map f = s.graph.nodes.map f ++ [f (freshNode id e level)] := by
  rw [h.shape.map_nodes f hf, nodes_setEntryPoint, HnswGraph.withNode, List.map_append,
    List.map_singleton]

/-- The nodes after a compaction are the live points, in order. -/
theorem compact_spec {s : HnswIndex} (h : Inv config dimension s) (levelFloat : LevelFloat) :
    ∃ s', compact P levelFloat s = some (.ok (), s') ∧ Inv config dimension s' ∧
      s'.graph.nodes.map (fun n => (n.id, n.embedding)) = s.graph.points ∧
      s'.graph.points = s.graph.points := by
  obtain ⟨s', hcall, hinv, hnodes, hpoints⟩ := compact_induct (P := P) levelFloat
    (motive := fun rest s' =>
      s'.graph.nodes.map (fun n => (n.id, n.embedding)) ++ rest = s.graph.points ∧
      s'.graph.points ++ rest = s.graph.points) h ⟨rfl, rfl⟩ (by
    rintro id e rest s₁ delta s₂ level - - ⟨hnodes, hpoints⟩ - hi
    rw [hi.nodes_map (fun n => (n.id, n.embedding)) (fun _ => rfl), hi.shape.points,
      points_setEntryPoint, points_withNode, List.append_assoc, List.append_assoc]
    exact ⟨hnodes, hpoints⟩)
  rw [List.append_nil] at hnodes hpoints
  exact ⟨s', hcall, hinv, hnodes, hpoints⟩

/-! ## Runs -/

/-- A call on an index that meets the invariant answers, and keeps it. -/
theorem step_spec {s : HnswIndex} (h : Inv config dimension s) (levelFloat : LevelFloat)
    (op : HnswOp) :
    ∃ answer s', s.step P levelFloat op = some (answer, s') ∧ Inv config dimension s' := by
  cases op with
  | insert id e =>
    obtain ⟨r, s', hcall, -, hinv⟩ := insertTracked_spec (P := P) h levelFloat id e
    exact ⟨_, s', by rw [step, insert, hcall]; rfl, hinv⟩
  | remove id => exact ⟨_, _, rfl, (removeTracked_outcome h id).inv h⟩
  | compact =>
    obtain ⟨s', hcall, hinv, -⟩ := compact_spec (P := P) h levelFloat
    exact ⟨_, s', by rw [step, hcall]; rfl, hinv⟩

theorem reachable_inv {s : HnswIndex} (h : Reachable P config dimension s) :
    Inv config dimension s := by
  induction h with
  | init => exact inv_new config dimension
  | step levelFloat op _ hcall ih =>
    obtain ⟨answer, s', hcall', hinv⟩ := step_spec (P := P) ih levelFloat op
    rw [hcall] at hcall'
    cases hcall'
    exact hinv

/-- No call of a run panics. -/
theorem run_isSome {s : HnswIndex} (h : Inv config dimension s)
    (calls : List (LevelFloat × HnswOp)) : ∃ answers s', s.run P calls = some (answers, s') := by
  induction calls generalizing s with
  | nil => exact ⟨[], s, rfl⟩
  | cons call rest ih =>
    obtain ⟨answer, s₁, hcall, hinv⟩ := step_spec (P := P) h call.1 call.2
    obtain ⟨answers, s', hrest⟩ := ih hinv
    exact ⟨answer :: answers, s', by simp [run, hcall, hrest]⟩

/-! ## The structure of a reachable graph -/

/-- A graph as its users may rely on it. -/
structure WellFormed (config : HnswConfig) (g : HnswGraph) : Prop where
  layers : ∀ n, n < g.nodeCount → g.layers n = g.nodeLevel n + 1
  neighbor : ∀ n l b, b ∈ g.neighbors n l → b < g.nodeCount ∧ b ≠ n ∧ l ≤ g.nodeLevel b
  distinct : ∀ n l, (g.neighbors n l).Nodup
  degree_base : ∀ n, (g.neighbors n 0).length ≤ config.mMax0
  degree_upper : ∀ n l, 0 < l → (g.neighbors n l).length ≤ config.mMax
  live_bijection : Set.BijOn g.live {id | (g.live id).isSome} (some '' {n | g.IsLive n})
  live_id : ∀ id n, g.live id = some n → g.nodeId n = some id
  live_count : g.liveCount = Set.ncard {id | (g.live id).isSome}
  entry_none : g.entryPoint = none ↔ ∀ n, ¬ g.IsLive n
  entry_top : ∀ e, g.entryPoint = some e →
    g.IsLive e ∧ ∀ n, g.IsLive n → g.nodeLevel n ≤ g.nodeLevel e

/-- The live ids are the ids of the live points. -/
theorem live_isSome_iff {g : HnswGraph} (h : NodeInv dimension g) (id : VectorId) :
    (g.live id).isSome ↔ id ∈ g.points.map Prod.fst := by
  rw [Option.isSome_iff_exists, List.mem_map]
  constructor
  · rintro ⟨n, hn⟩
    obtain ⟨⟨hlt, ht⟩, hid⟩ := (h.live_iff id n).mp hn
    obtain ⟨node, hnode⟩ := exists_node hlt
    refine ⟨(node.id, node.embedding), mem_points.mpr ⟨n, node, hnode, ?_, rfl, rfl⟩, ?_⟩
    · simpa [isTombstone, hnode] using ht
    · simpa [nodeId, hnode] using hid
  · rintro ⟨⟨id, e⟩, hp, rfl⟩
    obtain ⟨n, node, hn, ht, hid, -⟩ := mem_points.mp hp
    have hlive : g.IsLive n :=
      ⟨(List.getElem?_eq_some_iff.mp hn).1, by simp [isTombstone, hn, ht]⟩
    exact ⟨n, (h.live_iff id n).mpr ⟨hlive, by simp [nodeId, hn, hid]⟩⟩

theorem length_points (g : HnswGraph) : g.points.length = g.liveNodes.length := by
  rw [length_liveNodes, points, List.length_filterMap_eq_countP]
  congr 1
  funext n
  cases ht : n.tombstone <;> simp [Node.point, ht]

theorem liveCount_eq_ncard {g : HnswGraph} (h : NodeInv dimension g) :
    g.liveCount = Set.ncard {id | (g.live id).isSome} := by
  have hset : {id | (g.live id).isSome} = ((g.points.map Prod.fst).toFinset : Set VectorId) := by
    ext id
    simp only [Set.mem_ofPred_eq, List.coe_toFinset]
    exact live_isSome_iff h id
  rw [hset, Set.ncard_coe_finset, List.toFinset_card_of_nodup (nodup_points h), List.length_map,
    length_points, h.liveCount]

theorem Inv.wellFormed {s : HnswIndex} (h : Inv config dimension s) :
    WellFormed config s.graph := by
  refine ⟨h.links.layers, ?_, h.links.nodup, fun n => h.links.degree n 0, ?_, ⟨?_, ?_, ?_⟩,
    fun id n hn => ((h.nodes.live_iff id n).mp hn).2, liveCount_eq_ncard h.nodes,
    h.entry.none_iff, fun e he => ⟨h.entry.live e he, fun n hn => h.entry.top e n he hn⟩⟩
  · intro n l b hb
    refine ⟨h.links.inRange n l b hb, ?_, h.links.level n l b hb⟩
    rintro rfl
    exact h.links.irrefl _ l hb
  · intro n l hl
    have := h.links.degree n l
    rwa [HnswConfig.limit, if_neg (by omega)] at this
  · intro id hid
    obtain ⟨n, hn⟩ := Option.isSome_iff_exists.mp hid
    exact ⟨n, ((h.nodes.live_iff id n).mp hn).1, hn.symm⟩
  · intro a ha b hb hab
    obtain ⟨n, hn⟩ := Option.isSome_iff_exists.mp ha
    have ha' := ((h.nodes.live_iff a n).mp hn).2
    have hb' := ((h.nodes.live_iff b n).mp (hab.symm.trans hn)).2
    exact Option.some.inj (ha'.symm.trans hb')
  · rintro _ ⟨n, hn, rfl⟩
    obtain ⟨id, hid⟩ := nodeId_eq_some hn.1
    have hlive := (h.nodes.live_iff id n).mpr ⟨hn, hid⟩
    exact ⟨id, by simp [hlive], hlive⟩

/-- **Structure.**  Every state a run of inserts, removes and compactions
    reaches is well formed, for any scores and any sampled levels. -/
theorem reachable_wellFormed {s : HnswIndex} (h : Reachable P config dimension s) :
    WellFormed config s.graph :=
  (reachable_inv h).wellFormed

theorem reachable_run {s s' : HnswIndex} {answers : List Answer}
    (h : Reachable P config dimension s) (calls : List (LevelFloat × HnswOp))
    (hrun : s.run P calls = some (answers, s')) : Reachable P config dimension s' := by
  induction calls generalizing s answers with
  | nil =>
    rw [run, Option.some.injEq, Prod.mk.injEq] at hrun
    exact hrun.2 ▸ h
  | cons call rest ih =>
    rw [run, Option.bind_eq_some_iff] at hrun
    obtain ⟨⟨answer, s₁⟩, hcall, hrest⟩ := hrun
    rw [Option.map_eq_some_iff] at hrest
    obtain ⟨⟨answers', s₂⟩, hrest, heq⟩ := hrest
    cases heq
    exact ih (h.step call.1 call.2 hcall) hrest

/-- Two inserts, a removal and a second insert of the removed id. -/
def reinsertCalls : List (LevelFloat × HnswOp) :=
  [ (.base2, .insert ⟨1⟩ (.single (F32.ofInt 3) (.refl true))),
    (.base2, .insert ⟨2⟩ (.single (F32.ofInt 5) (.refl true))),
    (.base2, .remove ⟨1⟩),
    (.base2, .insert ⟨1⟩ (.single (F32.ofInt 4) (.refl true))) ]

theorem reachable_wellFormed_reinsert : ∃ answers s,
    (new (.degreeTwo 50) .one).run .small reinsertCalls = some (answers, s) ∧ s.len = 2 ∧
      WellFormed (.degreeTwo 50) s.graph := by
  obtain ⟨answers, s, hrun⟩ := run_isSome (P := .small) (inv_new (.degreeTwo 50) .one)
    reinsertCalls
  have hlen : ((new (.degreeTwo 50) .one).run .small reinsertCalls).map (fun r => r.2.len) =
      some 2 := by decide +kernel
  rw [hrun] at hlen
  exact ⟨answers, s, hrun, by simpa using hlen,
    reachable_wellFormed (reachable_run .init reinsertCalls hrun)⟩

end HnswIndex

end EidosDB
