import EidosDB.Hnsw.Damaged

/-! # The Greedy Descent

    The descent as a machine on a layer and a node takes finitely many steps,
    on any graph and with any scores: a step goes down a layer, or to a
    strictly closer node of the same one.  It ends where nothing on the last
    layer is closer, at a node that is reached along links of the layers
    gone through and is not farther than the entry. -/

namespace EidosDB

open Relation

namespace HnswGraph

section descent

variable {P : Platform} {g : HnswGraph} {metric : Metric} {query : List F32}

/-! ## Steps -/

/-- A pass that has something to improve on ends at a listed node strictly
    closer than the one it started from. -/
theorem passEnd_closer {layer c : Nat} (hmove : ¬ LocalOptimum P g metric query layer c) :
    g.Link layer c (passEnd P g metric query c (g.neighbors c layer)) ∧
      g.Closer P metric query c (passEnd P g metric query c (g.neighbors c layer)) := by
  obtain ⟨improved, hend⟩ := greedyPass_eq P g metric query (g.neighbors c layer) c false
  rcases greedyPass_spec P g metric query (g.neighbors c layer) c false with
    ⟨-, hopt⟩ | ⟨c', hlink, hpass, hcloser⟩
  · exact absurd hopt hmove
  · obtain rfl : passEnd P g metric query c (g.neighbors c layer) = c' :=
      congrArg Prod.fst (hend.symm.trans hpass)
    exact ⟨hlink, hcloser⟩

/-- What a step leaves to do: the layers below, then the closer nodes. -/
noncomputable def remaining (P : Platform) (g : HnswGraph) (metric : Metric) (query : List F32)
    (p : Nat × Nat) : Nat ×ₗ Nat :=
  toLex (p.1, closerCount P g metric query p.2)

theorem remaining_lt {p q : Nat × Nat} (h : Descends P g metric query p q) :
    remaining P g metric query q < remaining P g metric query p := by
  unfold remaining
  rw [Prod.Lex.toLex_lt_toLex]
  cases h with
  | move hmove => exact Or.inr ⟨rfl, closerCount_lt (passEnd_closer hmove).2⟩
  | down _ => exact Or.inl (Nat.lt_succ_self _)

/-- The machine does not run forever. -/
theorem not_descends_forever (P : Platform) (g : HnswGraph) (metric : Metric) (query : List F32)
    (run : Nat → Nat × Nat) : ¬ ∀ i, Descends P g metric query (run i) (run (i + 1)) := by
  intro hrun
  exact (RelEmbedding.natGT (fun i => remaining P g metric query (run i))
    fun i => remaining_lt (hrun i)).not_wellFounded wellFounded_lt

/-! ## Runs -/

/-- Reachability along links of the layers from `lo` to `hi`. -/
def ReachBetween (g : HnswGraph) (lo hi : Nat) : Nat → Nat → Prop :=
  ReflTransGen fun a b => ∃ layer, lo ≤ layer ∧ layer ≤ hi ∧ g.Link layer a b

theorem ReachBetween.widen {lo hi a b : Nat} (h : g.ReachBetween lo hi a b) :
    g.ReachBetween lo (hi + 1) a b := by
  induction h with
  | refl => exact .refl
  | tail _ hlink ih =>
    obtain ⟨layer, hlo, hhi, hlink⟩ := hlink
    exact ih.tail ⟨layer, hlo, Nat.le_succ_of_le hhi, hlink⟩

theorem reachBetween_of_descends {p q : Nat × Nat}
    (h : ReflTransGen (Descends P g metric query) p q) : g.ReachBetween q.1 p.1 p.2 q.2 := by
  -- from the end: the layer of a step is above all layers that follow
  induction h using ReflTransGen.head_induction_on with
  | refl => exact .refl
  | head hstep hrest ih =>
    have hle := layer_le_of_descends hrest
    cases hstep with
    | move hmove => exact .head ⟨_, hle, le_refl _, (passEnd_closer hmove).1⟩ ih
    | down _ => exact ReachBetween.widen ih

theorem closer_of_descends {p q : Nat × Nat}
    (h : ReflTransGen (Descends P g metric query) p q) :
    q.2 = p.2 ∨ g.Closer P metric query p.2 q.2 := by
  induction h with
  | refl => exact Or.inl rfl
  | tail _ hstep ih =>
    cases hstep with
    | move hmove =>
      have hcloser := (passEnd_closer hmove).2
      rcases ih with hsame | hbefore
      · exact Or.inr (hsame ▸ hcloser)
      · exact Or.inr (hbefore.trans hcloser)
    | down _ => exact ih

/-- A score that is not less, in either order. -/
def NotLess (x y : F32) : Prop := y.lt x = false ∧ x.totalKey ≤ y.totalKey

theorem notLess_of_key {x y : F32} (h : x.totalKey ≤ y.totalKey) : NotLess x y := by
  refine ⟨?_, h⟩
  rw [Bool.eq_false_iff]
  intro hlt
  exact absurd (F32.totalKey_lt_of_gt hlt) (not_lt.mpr h)

theorem notLess_of_closer {a b : Nat} (h : b = a ∨ g.Closer P metric query a b) :
    NotLess (g.scoreOf P metric query a) (g.scoreOf P metric query b) := by
  apply notLess_of_key
  rcases h with rfl | hlt | ⟨heq, -⟩
  · exact le_refl _
  · exact hlt.le
  · exact heq ▸ le_refl _

/-! ## The end of the descent -/

/-- Nothing that `c` lists at the layer is strictly better, or equal in the
    total order with a smaller id. -/
def NoneBetter (P : Platform) (g : HnswGraph) (metric : Metric) (query : List F32)
    (layer c : Nat) : Prop :=
  ∀ b ∈ g.neighbors c layer,
    (g.scoreOf P metric query b).gt (g.scoreOf P metric query c) = false ∧
    (F32.totalCmp (g.scoreOf P metric query b) (g.scoreOf P metric query c) = .eq →
      ¬ g.idOf b < g.idOf c)

theorem noneBetter_of_optimum {layer c : Nat} (h : LocalOptimum P g metric query layer c) :
    NoneBetter P g metric query layer c := by
  intro b hb
  have htest := h b hb
  rw [Improves, Bool.or_eq_false_iff] at htest
  refine ⟨htest.1, ?_⟩
  intro htie hid
  -- the second half of the test is about the ids of equal scores
  have hfalse := htest.2
  rw [htie] at hfalse
  simp [hid] at hfalse

/-- Without a layer to go through, the descent stays at its entry. -/
theorem greedyDescent_none (entry : Nat) {fromLayer toLayer : Nat} (h : fromLayer < toLayer) :
    g.greedyDescent P metric query entry fromLayer toLayer = entry := by
  have hcount : fromLayer + 1 - toLayer = 0 := by omega
  rw [greedyDescent, hcount]
  rfl

/-- **Greedy descent.**  On every graph and with every scoring the passes of
    the descent come to an end; it returns a node reached along links of the
    layers from `toLayer` to `fromLayer` whose score is not less than that of
    the entry; and where there is a layer to go through, the machine has run
    down to that node, and nothing it lists on the last layer is better. -/
theorem greedyDescent_optimal (P : Platform) (g : HnswGraph) (metric : Metric) (query : List F32)
    (entry fromLayer toLayer : Nat) :
    (∀ run : Nat → Nat × Nat, ¬ ∀ i, Descends P g metric query (run i) (run (i + 1))) ∧
    g.ReachBetween toLayer fromLayer entry
      (g.greedyDescent P metric query entry fromLayer toLayer) ∧
    NotLess (g.scoreOf P metric query entry)
      (g.scoreOf P metric query (g.greedyDescent P metric query entry fromLayer toLayer)) ∧
    (toLayer ≤ fromLayer →
      ReflTransGen (Descends P g metric query) (fromLayer, entry)
        (toLayer, g.greedyDescent P metric query entry fromLayer toLayer) ∧
      NoneBetter P g metric query toLayer
        (g.greedyDescent P metric query entry fromLayer toLayer)) := by
  refine ⟨not_descends_forever P g metric query, ?_⟩
  rcases Nat.lt_or_ge fromLayer toLayer with hempty | hle
  · rw [greedyDescent_none entry hempty]
    exact ⟨.refl, notLess_of_closer (Or.inl rfl), fun hle => absurd hle (not_le.mpr hempty)⟩
  · obtain ⟨hrun, hopt⟩ := greedyDescent_descends P g metric query entry hle
    exact ⟨reachBetween_of_descends hrun, notLess_of_closer (closer_of_descends hrun),
      fun _ => ⟨hrun, noneBetter_of_optimum hopt⟩⟩

end descent

end HnswGraph

end EidosDB
