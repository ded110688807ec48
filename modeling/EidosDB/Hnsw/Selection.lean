import EidosDB.Hnsw.Linking

/-! # What the Selection Heuristic Keeps

    The heuristic goes through the candidates once and keeps one exactly if
    there is room and nothing kept before is nearer to it than the base.
    What it has kept after some of the candidates is what it keeps of those
    alone, so every statement about one candidate is about the run up to
    it. -/

namespace EidosDB

namespace HnswGraph

variable {P : Platform} {g : HnswGraph} {metric : Metric} {mMax : Nat}

/-- The candidate is closer to the node `sel` than to the base. -/
def nearerTo (P : Platform) (g : HnswGraph) (metric : Metric) (c : Candidate) (sel : Nat) : Bool :=
  (metric.score P.f32 (g.embeddingOf c.node) (g.embeddingOf sel)).gt c.score

/-! ## One candidate -/

theorem selectLoop_append (selected : List Nat) (l rest : List Candidate) :
    selectLoop P g metric mMax selected (l ++ rest) =
      selectLoop P g metric mMax (selectLoop P g metric mMax selected l) rest := by
  induction l generalizing selected with
  | nil => rfl
  | cons c l ih =>
    rw [List.cons_append, selectLoop, selectLoop]
    split
    · next hfull =>
      -- a full selection is left as it is
      cases rest with
      | nil => rfl
      | cons c' rest => rw [selectLoop, if_pos hfull]
    · split
      · exact ih selected
      · exact ih (selected ++ [c.node])

/-- The candidate that is examined last. -/
theorem select_snoc (l : List Candidate) (c : Candidate) :
    g.selectNeighborsHeuristic P metric (l ++ [c]) mMax =
      if mMax ≤ (g.selectNeighborsHeuristic P metric l mMax).length then
        g.selectNeighborsHeuristic P metric l mMax
      else if (g.selectNeighborsHeuristic P metric l mMax).any (g.nearerTo P metric c) then
        g.selectNeighborsHeuristic P metric l mMax
      else g.selectNeighborsHeuristic P metric l mMax ++ [c.node] := by
  unfold selectNeighborsHeuristic
  rw [selectLoop_append, selectLoop]
  rfl

/-- What is kept of the first candidates stays at the front. -/
theorem select_prefix {l l' : List Candidate} (h : l <+: l') :
    g.selectNeighborsHeuristic P metric l mMax <+:
      g.selectNeighborsHeuristic P metric l' mMax := by
  obtain ⟨rest, rfl⟩ := h
  obtain ⟨kept, -, heq, -⟩ := selectLoop_keeps P metric g mMax
    (g.selectNeighborsHeuristic P metric l mMax) rest
  refine ⟨kept, ?_⟩
  rw [← heq]
  exact (selectLoop_append [] l rest).symm

/-! ## All candidates -/

/-- `chosen` is the greedy diverse part of the candidates. -/
structure Diverse (P : Platform) (g : HnswGraph) (metric : Metric) (mMax : Nat)
    (candidates chosen : List Candidate) : Prop where
  sublist : chosen.Sublist candidates
  length_le : chosen.length ≤ mMax
  nonempty : candidates ≠ [] → 1 ≤ mMax → chosen ≠ []
  /-- No selected candidate is closer to one selected before than to the
      base. -/
  apart : chosen.Pairwise fun s c => g.nearerTo P metric c s.node = false
  /-- What was selected when a candidate was examined is selected in the
      end. -/
  earlier : ∀ l, l <+: candidates →
    g.selectNeighborsHeuristic P metric l mMax <+: chosen.map (fun c => c.node)
  /-- A candidate that is skipped although there was room is closer to one
      selected before. -/
  skipped : ∀ l c, l ++ [c] <+: candidates →
    (g.selectNeighborsHeuristic P metric l mMax).length < mMax →
    g.selectNeighborsHeuristic P metric (l ++ [c]) mMax =
      g.selectNeighborsHeuristic P metric l mMax →
    ∃ s ∈ g.selectNeighborsHeuristic P metric l mMax, g.nearerTo P metric c s = true

theorem skipped_nearer {l : List Candidate} {c : Candidate}
    (hroom : (g.selectNeighborsHeuristic P metric l mMax).length < mMax)
    (hskip : g.selectNeighborsHeuristic P metric (l ++ [c]) mMax =
      g.selectNeighborsHeuristic P metric l mMax) :
    ∃ s ∈ g.selectNeighborsHeuristic P metric l mMax, g.nearerTo P metric c s = true := by
  rw [select_snoc, if_neg (not_le.mpr hroom)] at hskip
  split at hskip
  · next hany => exact List.any_eq_true.mp hany
  · -- a candidate that was kept makes the list longer
    have hlen := congrArg List.length hskip
    rw [List.length_append, List.length_singleton] at hlen
    omega

/-- The selected nodes as candidates, with what the loop tested of them. -/
theorem exists_chosen (candidates : List Candidate) :
    ∃ chosen : List Candidate,
      g.selectNeighborsHeuristic P metric candidates mMax = chosen.map (fun c => c.node) ∧
      chosen.Sublist candidates ∧
      chosen.Pairwise fun s c => g.nearerTo P metric c s.node = false := by
  -- the last candidate is the one examined last
  induction candidates using List.reverseRecOn with
  | nil => exact ⟨[], rfl, .slnil, .nil⟩
  | append_singleton l c ih =>
    obtain ⟨chosen, hselect, hsublist, hapart⟩ := ih
    have hkept : chosen.Sublist (l ++ [c]) := hsublist.trans (List.sublist_append_left l [c])
    rw [select_snoc]
    split
    · exact ⟨chosen, hselect, hkept, hapart⟩
    · split
      · exact ⟨chosen, hselect, hkept, hapart⟩
      · next hany =>
        -- kept: nothing selected before is nearer to it than the base
        refine ⟨chosen ++ [c], ?_, hsublist.append (List.Sublist.refl [c]), ?_⟩
        · rw [hselect, List.map_append]
          rfl
        · rw [List.pairwise_append]
          refine ⟨hapart, List.pairwise_singleton _ _, ?_⟩
          intro s hs c' hc'
          obtain rfl := List.mem_singleton.mp hc'
          rw [Bool.not_eq_true, List.any_eq_false] at hany
          have hs' := hany s.node (hselect ▸ List.mem_map_of_mem hs)
          exact Bool.eq_false_iff.mpr hs'

/-- **The selection heuristic.**  It selects the greedy diverse part of the
    candidates, whatever their scores and in whatever order they come. -/
theorem selectNeighbors_diverse (P : Platform) (g : HnswGraph) (metric : Metric)
    (candidates : List Candidate) (mMax : Nat) :
    ∃ chosen : List Candidate,
      g.selectNeighborsHeuristic P metric candidates mMax = chosen.map (fun c => c.node) ∧
      Diverse P g metric mMax candidates chosen := by
  obtain ⟨chosen, hselect, hsublist, hapart⟩ := @exists_chosen P g metric mMax candidates
  have hlen : (g.selectNeighborsHeuristic P metric candidates mMax).length ≤ mMax :=
    length_selectNeighbors_le candidates mMax
  rw [hselect, List.length_map] at hlen
  refine ⟨chosen, hselect, hsublist, hlen, ?_, hapart, ?_, ?_⟩
  · intro hne hm hnil
    have hsome : g.selectNeighborsHeuristic P metric candidates mMax ≠ [] :=
      selectNeighbors_ne_nil hne hm
    rw [hselect, hnil] at hsome
    exact hsome rfl
  · intro l hl
    rw [← hselect]
    exact select_prefix hl
  · intro l c _ hroom hskip
    exact skipped_nearer hroom hskip

end HnswGraph

end EidosDB
