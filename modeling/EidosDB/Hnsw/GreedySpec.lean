import EidosDB.Hnsw.Search

/-! # Where Greedy Descent Ends

    Every move of the descent goes to a strictly closer node, in the order
    "greater score, then lower id" on scores and ids.  Hence the loop at one
    layer ends by its own test within the fuel it is given, for any graph
    and any scores, and the result is reached along links of the layers
    traversed. -/

namespace EidosDB

namespace HnswGraph

section greedy

variable (P : Platform) (g : HnswGraph) (metric : Metric) (query : List F32)

/-- The score of a node for the query. -/
def scoreOf (n : Nat) : F32 := metric.score P.f32 query (g.embeddingOf n)

/-- `b` is strictly closer than `a`. -/
def Closer (a b : Nat) : Prop :=
  (g.scoreOf P metric query a).totalKey < (g.scoreOf P metric query b).totalKey ∨
    (g.scoreOf P metric query a = g.scoreOf P metric query b ∧ g.idOf b < g.idOf a)

/-- The test of the inner loop. -/
def Improves (current neighbor : Nat) : Bool :=
  (g.scoreOf P metric query neighbor).gt (g.scoreOf P metric query current) ||
    (F32.totalCmp (g.scoreOf P metric query neighbor) (g.scoreOf P metric query current) == .eq &&
      decide (g.idOf neighbor < g.idOf current))

variable {P g metric query}

theorem Closer.irrefl (a : Nat) : ¬ g.Closer P metric query a a := by
  rintro (h | ⟨_, h⟩)
  · exact lt_irrefl _ h
  · exact lt_irrefl _ h

theorem Closer.trans {a b c : Nat} (hab : g.Closer P metric query a b)
    (hbc : g.Closer P metric query b c) : g.Closer P metric query a c := by
  rcases hab with hab | ⟨hab, hid⟩
  · rcases hbc with hbc | ⟨hbc, _⟩
    · exact Or.inl (lt_trans hab hbc)
    · exact Or.inl (hbc ▸ hab)
  · rcases hbc with hbc | ⟨hbc, hid'⟩
    · exact Or.inl (hab ▸ hbc)
    · exact Or.inr ⟨hab.trans hbc, lt_trans hid' hid⟩

theorem closer_of_improves {a b : Nat} (h : g.Improves P metric query a b = true) :
    g.Closer P metric query a b := by
  simp only [Improves, Bool.or_eq_true, Bool.and_eq_true, decide_eq_true_eq, beq_iff_eq,
    F32.totalCmp_eq_eq] at h
  rcases h with h | ⟨h, hid⟩
  · exact Or.inl (F32.totalKey_lt_of_gt h)
  · exact Or.inr ⟨h.symm, hid⟩

/-! ## One pass -/

/-- A pass either finds no improvement, or ends at a listed node strictly
    closer than the one it started from. -/
theorem greedyPass_spec (P : Platform) (g : HnswGraph) (metric : Metric) (query : List F32) (l : List Nat) (c : Nat) (improved : Bool) :
    (greedyPass P g metric query l (c, g.scoreOf P metric query c, improved)
        = (c, g.scoreOf P metric query c, improved) ∧
      ∀ b ∈ l, g.Improves P metric query c b = false) ∨
    ∃ c' ∈ l, greedyPass P g metric query l (c, g.scoreOf P metric query c, improved)
        = (c', g.scoreOf P metric query c', true) ∧ g.Closer P metric query c c' := by
  induction l generalizing c improved with
  | nil => exact Or.inl ⟨rfl, by simp⟩
  | cons b rest ih =>
    by_cases htest : g.Improves P metric query c b = true
    · right
      have hstep : greedyPass P g metric query (b :: rest)
          (c, g.scoreOf P metric query c, improved)
          = greedyPass P g metric query rest (b, g.scoreOf P metric query b, true) := by
        conv => lhs; unfold greedyPass
        exact if_pos htest
      have hcb := closer_of_improves htest
      rw [hstep]
      rcases ih b true with ⟨heq, _⟩ | ⟨c', hc', heq, hcl⟩
      · exact ⟨b, List.mem_cons_self, heq, hcb⟩
      · exact ⟨c', List.mem_cons_of_mem _ hc', heq, hcb.trans hcl⟩
    · have hstep : greedyPass P g metric query (b :: rest)
          (c, g.scoreOf P metric query c, improved)
          = greedyPass P g metric query rest (c, g.scoreOf P metric query c, improved) := by
        conv => lhs; unfold greedyPass
        exact if_neg htest
      rw [hstep]
      rcases ih c improved with ⟨heq, hall⟩ | ⟨c', hc', heq, hcl⟩
      · refine Or.inl ⟨heq, ?_⟩
        intro x hx
        rcases List.mem_cons.mp hx with rfl | hx
        · exact Bool.eq_false_iff.mpr htest
        · exact hall x hx
      · exact Or.inr ⟨c', List.mem_cons_of_mem _ hc', heq, hcl⟩

/-! ## The loop -/

/-- No listed neighbor improves on `c`: the loop's own exit test. -/
def LocalOptimum (P : Platform) (g : HnswGraph) (metric : Metric) (query : List F32)
    (layer c : Nat) : Prop :=
  ∀ b ∈ g.neighbors c layer, g.Improves P metric query c b = false

/-- All nodes that are not stored look alike: no embedding and the nil id. -/
theorem closer_clamp {a b : Nat} : g.Closer P metric query a b ↔
    g.Closer P metric query a (min b g.nodeCount) := by
  rcases Nat.le_total b g.nodeCount with h | h
  · rw [min_eq_left h]
  · have hnone : g.nodes[b]? = none := getElem?_of_le h
    have hnone' : g.nodes[g.nodeCount]? = none := getElem?_of_le (le_refl _)
    rw [min_eq_right h]
    simp only [Closer, scoreOf, embeddingOf, idOf, nodeEmbedding, nodeId, hnone, hnone',
      Option.map_none]

open Classical in
/-- How many distinguishable nodes are closer than `c`. -/
noncomputable def closerCount (P : Platform) (g : HnswGraph) (metric : Metric)
    (query : List F32) (c : Nat) : Nat :=
  ((Finset.range (g.nodeCount + 1)).filter (fun i => g.Closer P metric query c i)).card

theorem closerCount_lt {a b : Nat} (h : g.Closer P metric query a b) :
    closerCount P g metric query b < closerCount P g metric query a := by
  classical
  unfold closerCount
  apply Finset.card_lt_card
  rw [Finset.ssubset_iff_of_subset]
  · refine ⟨min b g.nodeCount, ?_, ?_⟩
    · rw [Finset.mem_filter, Finset.mem_range]
      exact ⟨Nat.lt_succ_of_le (min_le_right _ _), closer_clamp.mp h⟩
    · rw [Finset.mem_filter, not_and]
      intro _ hb
      exact Closer.irrefl b (closer_clamp.mpr hb)
  · intro i hi
    rw [Finset.mem_filter] at hi ⊢
    exact ⟨hi.1, h.trans hi.2⟩

theorem closerCount_lt_fuel (c : Nat) : closerCount P g metric query c < g.greedyFuel := by
  classical
  have := Finset.card_filter_le (Finset.range (g.nodeCount + 1))
    (fun i => g.Closer P metric query c i)
  rw [Finset.card_range] at this
  unfold closerCount greedyFuel
  omega

/-- With enough fuel the loop ends at a local optimum, reached along links of
    its layer. -/
theorem greedyLoop_spec (P : Platform) (g : HnswGraph) (metric : Metric) (query : List F32)
    (layer fuel c : Nat) (hfuel : closerCount P g metric query c < fuel) :
    ∃ c', greedyLoop P g metric query layer fuel (c, g.scoreOf P metric query c)
        = (c', g.scoreOf P metric query c') ∧
      Relation.ReflTransGen (g.Link layer) c c' ∧ LocalOptimum P g metric query layer c' ∧
      (c' = c ∨ g.Closer P metric query c c') := by
  induction fuel generalizing c with
  | zero => omega
  | succ fuel ih =>
    unfold greedyLoop
    rcases greedyPass_spec P g metric query
      (g.neighbors c layer) c false with ⟨heq, hall⟩ | ⟨c₁, hc₁, heq, hcl⟩
    · refine ⟨c, ?_, Relation.ReflTransGen.refl, hall, Or.inl rfl⟩
      simp [heq]
    · obtain ⟨c', hloop, hreach, hopt, hc'⟩ := ih c₁ (by have := closerCount_lt hcl; omega)
      refine ⟨c', ?_, Relation.ReflTransGen.head hc₁ hreach, hopt, Or.inr ?_⟩
      · simp [heq, hloop]
      · rcases hc' with rfl | hc'
        · exact hcl
        · exact hcl.trans hc'

/-! ## All layers -/

/-- Reachability along links of layers from `lo` up. -/
def ReachAbove (g : HnswGraph) (lo : Nat) : Nat → Nat → Prop :=
  Relation.ReflTransGen (fun a b => ∃ l, lo ≤ l ∧ g.Link l a b)

theorem greedyLayers_spec (P : Platform) (g : HnswGraph) (metric : Metric) (query : List F32)
    (toLayer count c : Nat) :
    ∃ c', greedyLayers P g metric query toLayer count (c, g.scoreOf P metric query c)
        = (c', g.scoreOf P metric query c') ∧
      g.ReachAbove toLayer c c' := by
  induction count generalizing c with
  | zero => exact ⟨c, rfl, Relation.ReflTransGen.refl⟩
  | succ count ih =>
    obtain ⟨c₁, hloop, hreach, -, -⟩ := greedyLoop_spec P g metric query
      (toLayer + count) g.greedyFuel c (closerCount_lt_fuel c)
    obtain ⟨c', hlayers, habove⟩ := ih c₁
    refine ⟨c', ?_, Relation.ReflTransGen.trans ?_ habove⟩
    · unfold greedyLayers
      rw [hloop, hlayers]
    · exact Relation.ReflTransGen.mono
        (fun a b hab => ⟨toLayer + count, Nat.le_add_right _ _, hab⟩) _ _ hreach

/-- The descent ends at a node reached along links of the layers traversed. -/
theorem greedyDescent_reach (entry fromLayer toLayer : Nat) :
    g.ReachAbove toLayer entry (g.greedyDescent P metric query entry fromLayer toLayer) := by
  obtain ⟨c', hlayers, habove⟩ := greedyLayers_spec P g metric query
    toLayer (fromLayer + 1 - toLayer) entry
  unfold greedyDescent
  rw [show metric.score P.f32 query (g.embeddingOf entry) = g.scoreOf P metric query entry from rfl,
    hlayers]
  exact habove

end greedy

end HnswGraph

end EidosDB
