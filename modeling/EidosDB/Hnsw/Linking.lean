import EidosDB.Hnsw.Index
import EidosDB.Hnsw.BeamSpec

/-! # How a New Node Is Linked

    One layer of an insert searches, selects, writes the list of the new
    node and offers the new node to each selected one.  `LayerLinked` says
    what changed: nothing outside the layer, and in it only the lists of the
    new node and of the selected nodes.  Every invariant of the graph is
    derived from that, layer by layer, with `linkLayers_induct`. -/

namespace EidosDB

namespace HnswGraph

variable {P : Platform} {metric : Metric} {g g' : HnswGraph}

/-! ## The heuristic -/

theorem selectLoop_keeps (P : Platform) (metric : Metric) (g : HnswGraph) (mMax : Nat)
    (selected : List Nat) (candidates : List Candidate) :
    ∃ kept : List Nat, kept.Sublist (candidates.map (fun c => c.node)) ∧
      selectLoop P g metric mMax selected candidates = selected ++ kept ∧
      kept.length ≤ mMax - selected.length := by
  induction candidates generalizing selected with
  | nil => exact ⟨[], List.nil_sublist _, by simp [selectLoop], by simp⟩
  | cons c rest ih =>
    unfold selectLoop
    split
    · exact ⟨[], List.nil_sublist _, by simp, by simp⟩
    · split
      · obtain ⟨kept, hsub, heq, hlen⟩ := ih selected
        exact ⟨kept, hsub.cons _, heq, hlen⟩
      · obtain ⟨kept, hsub, heq, hlen⟩ := ih (selected ++ [c.node])
        refine ⟨c.node :: kept, hsub.cons_cons _, by simp [heq], ?_⟩
        simp only [List.length_append, List.length_cons, List.length_nil] at hlen ⊢
        omega

theorem selectNeighbors_sublist (candidates : List Candidate) (mMax : Nat) :
    (g.selectNeighborsHeuristic P metric candidates mMax).Sublist
      (candidates.map (fun c => c.node)) := by
  obtain ⟨kept, hsub, heq, -⟩ := selectLoop_keeps P metric g mMax [] candidates
  rw [selectNeighborsHeuristic, heq]
  exact hsub

theorem length_selectNeighbors_le (candidates : List Candidate) (mMax : Nat) :
    (g.selectNeighborsHeuristic P metric candidates mMax).length ≤ mMax := by
  obtain ⟨kept, -, heq, hlen⟩ := selectLoop_keeps P metric g mMax [] candidates
  rw [selectNeighborsHeuristic, heq]
  simpa using hlen

/-- The closest candidate is always kept. -/
theorem selectNeighbors_ne_nil {candidates : List Candidate} {mMax : Nat}
    (hc : candidates ≠ []) (hm : 1 ≤ mMax) :
    g.selectNeighborsHeuristic P metric candidates mMax ≠ [] := by
  cases candidates with
  | nil => exact absurd rfl hc
  | cons c rest =>
    obtain ⟨kept, -, heq, -⟩ := selectLoop_keeps P metric g mMax [c.node] rest
    have hfirst : g.selectNeighborsHeuristic P metric (c :: rest) mMax = [c.node] ++ kept := by
      rw [selectNeighborsHeuristic, selectLoop, if_neg (by simp; omega), if_neg (by simp)]
      exact heq
    simp [hfirst]

theorem selectNeighbors_congr (h : ∀ n, g'.embeddingOf n = g.embeddingOf n)
    (candidates : List Candidate) (mMax : Nat) :
    g'.selectNeighborsHeuristic P metric candidates mMax =
      g.selectNeighborsHeuristic P metric candidates mMax := by
  unfold selectNeighborsHeuristic
  generalize ([] : List Nat) = selected
  induction candidates generalizing selected with
  | nil => rfl
  | cons c rest ih =>
    unfold selectLoop
    simp only [h, ih]

namespace SameShape

theorem embeddingOf (h : SameShape g g') (n : Nat) : g'.embeddingOf n = g.embeddingOf n := by
  rw [HnswGraph.embeddingOf, HnswGraph.embeddingOf, h.nodeEmbedding]

theorem idOf (h : SameShape g g') (n : Nat) : g'.idOf n = g.idOf n := by
  rw [HnswGraph.idOf, HnswGraph.idOf, h.nodeId]

theorem candidateOf (h : SameShape g g') (query : List F32) (n : Nat) :
    g'.candidateOf P metric query n = g.candidateOf P metric query n := by
  unfold HnswGraph.candidateOf
  rw [h.embeddingOf, h.idOf]

end SameShape

end HnswGraph

namespace HnswIndex

variable {P : Platform} {metric : Metric} {g g' : HnswGraph}

/-! ## Offering the new node -/

section relink

variable {limit newNode layer sel : Nat}

theorem relink_of_room (h : (g.neighbors sel layer).length < limit) :
    relink P metric g limit newNode layer sel = g.neighbors sel layer ++ [newNode] := by
  unfold relink
  rw [if_neg (by rw [List.length_append]; exact not_lt.mpr h)]

/-- A relinked list is part of the old one with the new node, in some order. -/
theorem relink_subperm :
    List.Subperm (relink P metric g limit newNode layer sel) (g.neighbors sel layer ++ [newNode]) := by
  unfold relink
  dsimp only
  split
  · have hperm := (sortBy_perm Candidate.cmp ((g.neighbors sel layer ++ [newNode]).map
        (g.candidateOf P metric (g.embeddingOf sel)))).map (fun c => c.node)
    rw [List.map_map] at hperm
    refine (HnswGraph.selectNeighbors_sublist _ _).subperm.trans (hperm.trans ?_).subperm
    simp [Function.comp_def]
  · exact List.Subperm.refl _

theorem mem_relink {b : Nat} (h : b ∈ relink P metric g limit newNode layer sel) :
    b ∈ g.neighbors sel layer ∨ b = newNode := by
  have := relink_subperm.subset h
  simpa using this

theorem relink_nodup (h : (g.neighbors sel layer).Nodup) (hnew : newNode ∉ g.neighbors sel layer) :
    (relink P metric g limit newNode layer sel).Nodup := by
  have hall : (g.neighbors sel layer ++ [newNode]).Nodup :=
    List.nodup_append_comm.mp (List.nodup_cons.mpr ⟨hnew, h⟩)
  have hsub : List.Subperm (relink P metric g limit newNode layer sel)
    (g.neighbors sel layer ++ [newNode]) := relink_subperm
  obtain ⟨l, hperm, hsub⟩ := hsub
  exact hperm.nodup_iff.mp (hall.sublist hsub)

theorem length_relink_le : (relink P metric g limit newNode layer sel).length ≤ limit := by
  unfold relink
  dsimp only
  split
  · exact HnswGraph.length_selectNeighbors_le _ _
  · next h => exact not_lt.mp h

/-- Relinking looks at one list, and at ids and embeddings. -/
theorem relink_congr (h : g.SameShape g') (hadj : g'.neighbors sel layer = g.neighbors sel layer) :
    relink P metric g' limit newNode layer sel = relink P metric g limit newNode layer sel := by
  unfold relink
  simp only [hadj, HnswGraph.selectNeighbors_congr h.embeddingOf, h.embeddingOf]
  rw [show g'.candidateOf P metric (g.embeddingOf sel) = g.candidateOf P metric (g.embeddingOf sel)
    from funext (h.candidateOf _)]

end relink

theorem mem_touch {touched : List Nat} {n b : Nat} : b ∈ touch touched n ↔ b ∈ touched ∨ b = n := by
  unfold touch
  split
  · next h =>
    constructor
    · exact Or.inl
    · rintro (hb | rfl)
      · exact hb
      · exact h
  · rw [List.mem_orderedInsert, or_comm]

/-- The effect of linking `newNode` to the `selected` nodes of one layer. -/
structure Linked (P : Platform) (metric : Metric) (limit newNode layer : Nat)
    (selected : List Nat) (g g' : HnswGraph) : Prop where
  shape : g.SameShape g'
  otherLayer : ∀ n l, l ≠ layer → g'.neighbors n l = g.neighbors n l
  untouched : ∀ n, n ≠ newNode → n ∉ selected → g'.neighbors n layer = g.neighbors n layer
  relinked : ∀ n ∈ selected, n ≠ newNode → layer < g.layers n →
    g'.neighbors n layer = relink P metric g limit newNode layer n

/-- The loop over the selected nodes. -/
theorem foldl_linkBack (P : Platform) (metric : Metric) (limit newNode layer : Nat) (selected : List Nat) (hnodup : selected.Nodup)
    (g : HnswGraph) (touched : List Nat) :
    let r := selected.foldl (linkBack P metric limit newNode layer) (g, touched)
    Linked P metric limit newNode layer selected g r.1 ∧
      (∀ n, n ∉ selected → r.1.neighbors n layer = g.neighbors n layer) ∧
      (∀ n, n ∈ r.2 ↔ n ∈ touched ∨ n ∈ selected) := by
  induction selected generalizing g touched with
  | nil => exact ⟨⟨.refl g, fun _ _ _ => rfl, fun _ _ _ => rfl, by simp⟩, by simp, by simp⟩
  | cons sel rest ih =>
    obtain ⟨hsel, hrest⟩ := List.nodup_cons.mp hnodup
    have hshape := HnswGraph.sameShape_setNeighbors g sel layer
      (relink P metric g limit newNode layer sel)
    obtain ⟨hlinked, hkeep, htouched⟩ := ih hrest
      (g.setNeighbors sel layer (relink P metric g limit newNode layer sel)) (touch touched sel)
    have hother : ∀ n, n ∉ sel :: rest →
        (rest.foldl (linkBack P metric limit newNode layer)
          (g.setNeighbors sel layer (relink P metric g limit newNode layer sel),
            touch touched sel)).1.neighbors n layer = g.neighbors n layer := by
      intro n hn
      rw [List.mem_cons, not_or] at hn
      rw [hkeep n hn.2, HnswGraph.neighbors_setNeighbors_ne _ hn.1]
    refine ⟨⟨hshape.trans hlinked.shape, ?_, fun n _ hn => hother n hn, ?_⟩, hother, ?_⟩
    · intro n l hl
      rw [List.foldl_cons, linkBack, hlinked.otherLayer n l hl,
        HnswGraph.neighbors_setNeighbors_layer _ hl]
    · intro n hn hnew hlayer
      rw [List.foldl_cons, linkBack]
      rcases List.mem_cons.mp hn with rfl | hn
      · rw [hkeep n hsel, HnswGraph.neighbors_setNeighbors_self _ hlayer]
      · have hne : n ≠ sel := fun h => hsel (h ▸ hn)
        rw [hlinked.relinked n hn hnew (by rwa [hshape.layers]),
          relink_congr hshape (HnswGraph.neighbors_setNeighbors_ne _ hne)]
    · intro n
      rw [List.foldl_cons, linkBack, htouched, mem_touch, List.mem_cons, or_assoc]

/-! ## One layer -/

/-- What one layer of an insert does. -/
structure LayerLinked (P : Platform) (metric : Metric) (config : HnswConfig) (query : List F32)
    (newNode layer : Nat) (st st' : LinkState) (candidates : List Candidate)
    (selected : List Nat) : Prop where
  call : linkLayer P metric config query newNode layer st = some st'
  found : layerCandidates P metric config query st layer = some candidates
  search : st.graph.BeamSpec P metric query st.current config.efConstruction layer
    (fun _ => true) candidates
  selection : selected =
    st.graph.selectNeighborsHeuristic P metric candidates (config.limit layer)
  linked : Linked P metric (config.limit layer) newNode layer selected st.graph st'.graph
  newList : newNode ∉ selected → layer < st.graph.layers newNode →
    st'.graph.neighbors newNode layer = selected
  current : st'.current = st.current ∨ ∃ c ∈ candidates, st'.current = c.node
  touched : ∀ n, n ∈ st'.touched ↔ n ∈ st.touched ∨ n ∈ selected

section layer

variable {config : HnswConfig} {query : List F32} {newNode layer : Nat} {st st' : LinkState}
  {candidates : List Candidate} {selected : List Nat}

theorem LayerLinked.selected_sublist
    (h : LayerLinked P metric config query newNode layer st st' candidates selected) :
    selected.Sublist (candidates.map (fun c => c.node)) :=
  h.selection ▸ HnswGraph.selectNeighbors_sublist _ _

theorem LayerLinked.selected_nodup
    (h : LayerLinked P metric config query newNode layer st st' candidates selected) :
    selected.Nodup :=
  h.search.nodup.sublist h.selected_sublist

theorem LayerLinked.length_selected_le
    (h : LayerLinked P metric config query newNode layer st st' candidates selected) :
    selected.length ≤ config.limit layer :=
  h.selection ▸ HnswGraph.length_selectNeighbors_le _ _

theorem LayerLinked.selected_candidate
    (h : LayerLinked P metric config query newNode layer st st' candidates selected) {n : Nat}
    (hn : n ∈ selected) : ∃ c ∈ candidates, c.node = n :=
  List.mem_map.mp (h.selected_sublist.subset hn)

theorem LayerLinked.selected_ne_nil
    (h : LayerLinked P metric config query newNode layer st st' candidates selected)
    (hc : candidates ≠ []) : selected ≠ [] :=
  h.selection ▸ HnswGraph.selectNeighbors_ne_nil hc (config.one_le_limit layer)

/-- Linking one layer does not panic when the search starts in range. -/
theorem linkLayer_spec (P : Platform) (metric : Metric) (config : HnswConfig) (query : List F32)
    (newNode layer : Nat) {st : LinkState} (hcur : st.current < st.graph.nodeCount) :
    ∃ st' candidates selected,
      LayerLinked P metric config query newNode layer st st' candidates selected := by
  obtain ⟨candidates, hsearch, hspec⟩ := HnswGraph.beamSearch_spec P st.graph metric query
    config.efConstruction layer st.current (fun _ => true) config.construction_pos hcur
  let selected := st.graph.selectNeighborsHeuristic P metric candidates (config.limit layer)
  have hnodup : selected.Nodup :=
    hspec.nodup.sublist (HnswGraph.selectNeighbors_sublist _ _)
  have hshape := HnswGraph.sameShape_setNeighbors st.graph newNode layer selected
  obtain ⟨hlinked, hkeep, htouched⟩ := foldl_linkBack P metric
    (config.limit layer) newNode layer selected hnodup
    (st.graph.setNeighbors newNode layer selected) st.touched
  refine ⟨_, candidates, selected, by rw [linkLayer, layerCandidates, hsearch]; rfl, hsearch,
    hspec, rfl, ⟨hshape.trans hlinked.shape, ?_, ?_, ?_⟩, ?_, ?_, htouched⟩
  · intro n l hl
    rw [hlinked.otherLayer n l hl, HnswGraph.neighbors_setNeighbors_layer _ hl]
  · intro n hne hn
    rw [hlinked.untouched n hne hn, HnswGraph.neighbors_setNeighbors_ne _ hne]
  · intro n hn hne hlayer
    rw [hlinked.relinked n hn hne (by rwa [hshape.layers]),
      relink_congr hshape (HnswGraph.neighbors_setNeighbors_ne _ hne)]
  · intro hnew hlayer
    rw [hkeep newNode hnew, HnswGraph.neighbors_setNeighbors_self _ hlayer]
  · cases candidates with
    | nil => exact Or.inl rfl
    | cons c rest => exact Or.inr ⟨c, List.mem_cons_self, rfl⟩

/-- Which list a layer leaves at a node. -/
theorem LayerLinked.list_cases
    (h : LayerLinked P metric config query newNode layer st st' candidates selected)
    (hnew : newNode ∉ selected) (hlayers : layer < st.graph.layers newNode)
    (hselected : ∀ n ∈ selected, layer < st.graph.layers n) (n l : Nat) :
    ((l = layer → n ≠ newNode ∧ n ∉ selected) ∧
      st'.graph.neighbors n l = st.graph.neighbors n l) ∨
    (l = layer ∧ n = newNode ∧ st'.graph.neighbors n l = selected) ∨
    (l = layer ∧ n ≠ newNode ∧ n ∈ selected ∧ st'.graph.neighbors n l =
      relink P metric st.graph (config.limit layer) newNode layer n) := by
  by_cases hl : l = layer
  · subst hl
    by_cases hn : n = newNode
    · subst hn
      exact Or.inr (Or.inl ⟨rfl, rfl, h.newList hnew hlayers⟩)
    · by_cases hsel : n ∈ selected
      · exact Or.inr (Or.inr ⟨rfl, hn, hsel, h.linked.relinked n hsel hn (hselected n hsel)⟩)
      · exact Or.inl ⟨fun _ => ⟨hn, hsel⟩, h.linked.untouched n hn hsel⟩
  · exact Or.inl ⟨fun h => absurd h hl, h.linked.otherLayer n l hl⟩

end layer

/-! ## All layers -/

/-- A property that each layer keeps holds when the layer loop ends, and the
    loop does not panic. -/
theorem linkLayers_induct (P : Platform) (metric : Metric) (config : HnswConfig)
    (query : List F32) (newNode : Nat) {motive : Nat → LinkState → Prop}
    (hcur : ∀ count st, motive (count + 1) st → st.current < st.graph.nodeCount)
    (hstep : ∀ count st st' candidates selected, motive (count + 1) st →
      LayerLinked P metric config query newNode count st st' candidates selected →
      motive count st')
    (count : Nat) (st : LinkState) (h : motive count st) :
    ∃ st', linkLayers P metric config query newNode count st = some st' ∧ motive 0 st' := by
  induction count generalizing st with
  | zero => exact ⟨st, rfl, h⟩
  | succ count ih =>
    obtain ⟨st₁, candidates, selected, hlinked⟩ := linkLayer_spec P metric config query
      newNode count (hcur count st h)
    obtain ⟨st', hrest, hend⟩ := ih st₁ (hstep count st st₁ candidates selected h hlinked)
    exact ⟨st', by rw [linkLayers, hlinked.call, Option.bind_some, hrest], hend⟩

end HnswIndex

end EidosDB
