import EidosDB.Hnsw.BeamSpec

/-! # What Beam Search Finds and What It Keeps

    A search can find the live admissible nodes that a path of links leads
    to.  If they are at most `ef` it returns them all (`beamSearch_exact`).

    If they are more it has to choose.  A neighbor enters a full result when
    its score exceeds the worst one, a comparison of numbers only, while the
    result is ordered by score and id.  So a neighbor that ties with the
    worst entry is turned away although its id may be the lower one, and the
    result holds the best of what was visited as long as this does not
    happen (`beamSearch_keepsBest`). -/

namespace EidosDB

/-! ## The order of candidates -/

namespace Candidate

theorem cmp_lt_iff {a b : Candidate} : cmp a b = .lt ↔
    b.score.totalKey < a.score.totalKey ∨ (a.score = b.score ∧ a.id < b.id) := by
  unfold cmp closestFirst F32.totalCmp
  by_cases hs : a.score = b.score
  · rw [hs]
    simp [compare_lt_iff_lt]
  · have hne : b.score.totalKey ≠ a.score.totalKey := fun h => hs (F32.totalKey_injective h).symm
    by_cases hlt : b.score.totalKey < a.score.totalKey
    · simp [compare_lt_iff_lt.mpr hlt, hlt]
    · have hgt : a.score.totalKey < b.score.totalKey := by omega
      simp [compare_gt_iff_gt.mpr hgt, hlt, hs]

/-- A candidate precedes another one when that one may not stand before it. -/
theorem not_precedes_iff {a b : Candidate} : cmp a b ≠ .lt ↔ Before cmp b a := by
  rw [Ne, cmp_lt_iff, before_iff]
  by_cases hs : a.score = b.score
  · simp [hs]
  · have hne : a.score.totalKey ≠ b.score.totalKey := fun h => hs (F32.totalKey_injective h)
    have hs' : b.score ≠ a.score := fun h => hs h.symm
    simp only [hs, hs', false_and, or_false]
    omega

/-- `Reverse` turns the order of the heap into that of the lists. -/
theorem before_iff_leReverse {a b : Candidate} : Before cmp a b ↔ leReverse a b = true := by
  rw [before_iff, leReverse, le_iff, eq_comm (a := b.score)]

end Candidate

namespace HnswGraph

/-- Two nodes with one embedding, the second of the lower id, and a link from
    each to the other. -/
def twins : HnswGraph where
  nodes :=
    [{ id := ⟨5⟩, embedding := .single .zero (by decide), neighbors := [[1]], level := 0
       tombstone := false },
     { id := ⟨3⟩, embedding := .single .zero (by decide), neighbors := [[0]], level := 0
       tombstone := false }]
  live := fun id => if id = ⟨5⟩ then some 0 else if id = ⟨3⟩ then some 1 else none
  entryPoint := some 0
  liveCount := 2

/-! ## Everything in reach -/

/-- The live admissible nodes that links of the layer lead to. -/
def found (g : HnswGraph) (layer entry : Nat) (isAdmissible : VectorId → Bool) : Set Nat :=
  {n | Relation.ReflTransGen (g.Link layer) entry n ∧ n < g.nodeCount ∧ g.Eligible isAdmissible n}

section exact

variable {P : Platform} {g : HnswGraph} {metric : Metric} {query : List F32}
  {ef layer entry : Nat} {isAdmissible : VectorId → Bool}

/-- A path to a node that exists goes through nodes that exist. -/
theorem reach_of_path {n : Nat} (hn : n < g.nodeCount)
    (h : Relation.ReflTransGen (g.Link layer) entry n) : g.Reach layer entry n := by
  induction h with
  | refl => exact .refl
  | tail _ hlink ih => exact (ih (lt_of_mem_neighbors hlink)).tail ⟨hlink, hn⟩

theorem path_of_reach {n : Nat} (h : g.Reach layer entry n) :
    Relation.ReflTransGen (g.Link layer) entry n :=
  Relation.ReflTransGen.mono (fun _ _ hlink => hlink.1) _ _ h

theorem lt_of_reach (hentry : entry < g.nodeCount) {n : Nat} (h : g.Reach layer entry n) :
    n < g.nodeCount := by
  induction h with
  | refl => exact hentry
  | tail _ hlink _ => exact hlink.2

theorem mem_found (hentry : entry < g.nodeCount) {n : Nat} :
    n ∈ g.found layer entry isAdmissible ↔ g.Reach layer entry n ∧ g.Eligible isAdmissible n := by
  constructor
  · intro ⟨hpath, hn, hel⟩
    exact ⟨reach_of_path hn hpath, hel⟩
  · intro ⟨hreach, hel⟩
    exact ⟨path_of_reach hreach, lt_of_reach hentry hreach, hel⟩

theorem finite_found (g : HnswGraph) (layer entry : Nat) (isAdmissible : VectorId → Bool) :
    (g.found layer entry isAdmissible).Finite :=
  (Set.finite_Iio g.nodeCount).subset fun _ hn => hn.2.1

/-- Room for all nodes that can be found. -/
theorem withinBeam_of_ncard (hentry : entry < g.nodeCount)
    (h : (g.found layer entry isAdmissible).ncard ≤ ef) :
    g.WithinBeam layer entry ef isAdmissible := by
  -- a list of such nodes is a finite part of what can be found
  intro l hnodup hl
  have hsub : (l.toFinset : Set Nat) ⊆ g.found layer entry isAdmissible := by
    intro n hn
    exact (mem_found hentry).mpr (hl n (List.mem_toFinset.mp hn))
  calc l.length = l.toFinset.card := (List.toFinset_card_of_nodup hnodup).symm
    _ = (l.toFinset : Set Nat).ncard := (Set.ncard_coe_finset _).symm
    _ ≤ (g.found layer entry isAdmissible).ncard :=
      Set.ncard_le_ncard hsub (g.finite_found layer entry isAdmissible)
    _ ≤ ef := h

/-- `out` is what can be found, up to `ef` nodes, closest first. -/
structure ExactBeam (P : Platform) (g : HnswGraph) (metric : Metric) (query : List F32)
    (entry ef layer : Nat) (isAdmissible : VectorId → Bool) (out : List Candidate) : Prop where
  length_le : out.length ≤ ef
  sorted : out.Pairwise (Before Candidate.cmp)
  nodup : (out.map (fun c => c.node)).Nodup
  candidate : ∀ c ∈ out, c = g.candidateOf P metric query c.node
  sound : ∀ c ∈ out, c.node ∈ g.found layer entry isAdmissible
  complete : (g.found layer entry isAdmissible).ncard ≤ ef →
    ∀ n ∈ g.found layer entry isAdmissible, g.candidateOf P metric query n ∈ out

/-- **Beam search is exact on what it can reach**, in any graph. -/
theorem beamSearch_exact (P : Platform) (g : HnswGraph) (metric : Metric) (query : List F32)
    (isAdmissible : VectorId → Bool) {entry ef layer : Nat}
    (hef : 1 ≤ ef) (hentry : entry < g.nodeCount) :
    ∃ out, g.beamSearch P metric query entry ef layer isAdmissible = some out ∧
      ExactBeam P g metric query entry ef layer isAdmissible out := by
  obtain ⟨out, hout, hspec⟩ := beamSearch_spec P g metric query ef layer entry isAdmissible hef hentry
  refine ⟨out, hout, hspec.length_le, hspec.sorted, hspec.nodup, hspec.candidate, ?_, ?_⟩
  · intro c hc
    exact (mem_found hentry).mpr ⟨hspec.reach c hc, hspec.eligible c hc⟩
  · intro hcard n hn
    obtain ⟨hreach, hel⟩ := (mem_found hentry).mp hn
    exact hspec.complete (withinBeam_of_ncard hentry hcard) n hreach hel

/-- A result of two holds both nodes. -/
theorem beamSearch_exact_twins : ∃ out,
    twins.beamSearch .small .dotProduct [.zero] 0 2 0 (fun _ => true) = some out ∧
      ExactBeam .small twins .dotProduct [.zero] 0 2 0 (fun _ => true) out :=
  beamSearch_exact .small twins .dotProduct [.zero] (fun _ => true) (by decide) (by decide)

end exact

/-! ## The best of what was visited -/

section search

variable (P : Platform) (g : HnswGraph) (metric : Metric) (query : List F32)
  (entry ef layer : Nat) (isAdmissible : VectorId → Bool)

/-- The states of the two loops, with the neighbors left to go through. -/
inductive Searching : BeamState P → List Nat → Prop
  | start : Searching (g.beamInit P metric query entry isAdmissible) []
  | expand {st : BeamState P} {c : Candidate} {frontier : P.frontier.Heap} :
      Searching st [] → P.frontier.pop st.frontier = some (c, frontier) →
      ¬ (ef ≤ P.result.len st.result ∧ c.score.lt (worstInResult P st.result) = true) →
      Searching { st with frontier := frontier } (g.neighbors c.node layer)
  | visit {st : BeamState P} {b : Nat} {rest : List Nat} :
      Searching st (b :: rest) →
      Searching (visitNeighbor P g metric query ef isAdmissible st b) rest

/-- The state the search ends in. -/
def beamEnd : BeamState P :=
  beamLoop P g metric query ef layer isAdmissible (g.nodeCount + 1)
    (g.beamInit P metric query entry isAdmissible)

/-- No live admissible node that was visited and is not in the list precedes
    one in the list. -/
def KeepsBest (st : BeamState P) (out : List Candidate) : Prop :=
  ∀ n, st.Visited n → g.Eligible isAdmissible n → (∀ c ∈ out, c.node ≠ n) →
    ∀ c ∈ out, Candidate.cmp (g.candidateOf P metric query n) c ≠ .lt

/-- A full result turns a new node away, by its score, that precedes its
    worst entry. -/
structure Overlooked (st : BeamState P) (b : Nat) : Prop where
  inRange : b < st.visited.length
  fresh : ¬ st.Visited b
  eligible : g.Eligible isAdmissible b
  full : ef ≤ P.result.len st.result
  turnedAway : (g.candidateOf P metric query b).score.gt (worstInResult P st.result) = false
  precedes : ∃ w, P.result.peek st.result = some w ∧
    Candidate.cmp (g.candidateOf P metric query b) w = .lt

/-- The search overlooks no node. -/
def OverlooksNone : Prop :=
  ∀ st b rest, Searching P g metric query entry ef layer isAdmissible st (b :: rest) →
    ¬ Overlooked P g metric query ef isAdmissible st b

end search

section keeps

variable {P : Platform} {g : HnswGraph} {metric : Metric} {query : List F32}
  {ef layer entry : Nat} {isAdmissible : VectorId → Bool}

theorem searching_fold (l : List Nat) {st : BeamState P}
    (h : Searching P g metric query entry ef layer isAdmissible st l) :
    Searching P g metric query entry ef layer isAdmissible
      (l.foldl (visitNeighbor P g metric query ef isAdmissible) st) [] := by
  induction l generalizing st with
  | nil => exact h
  | cons b rest ih => exact ih h.visit

theorem searching_beamLoop (fuel : Nat) {st : BeamState P}
    (h : Searching P g metric query entry ef layer isAdmissible st []) :
    Searching P g metric query entry ef layer isAdmissible
      (beamLoop P g metric query ef layer isAdmissible fuel st) [] := by
  induction fuel generalizing st with
  | zero => exact h
  | succ fuel ih =>
    unfold beamLoop
    cases hpop : P.frontier.pop st.frontier with
    | none => exact h
    | some r =>
      obtain ⟨c, frontier⟩ := r
      dsimp only
      split
      · exact h
      · next hgo =>
        rw [Bool.and_eq_true, decide_eq_true_eq] at hgo
        exact ih (searching_fold _ (h.expand hpop hgo))

/-! ### The worst entry -/

theorem exists_worst {heap : P.result.Heap} (h : P.result.toList heap ≠ []) :
    ∃ w, P.result.peek heap = some w ∧ w ∈ P.result.toList heap ∧
      (∀ c ∈ P.result.toList heap, Before Candidate.cmp c w) ∧ worstInResult P heap = w.score := by
  cases hpeek : P.result.peek heap with
  | none => exact absurd (P.result.peek_eq_none hpeek) h
  | some w =>
    obtain ⟨rest, hpop⟩ := P.result.peek_eq_some hpeek
    refine ⟨w, rfl, (P.result.mem_pop hpop).mpr (Or.inl rfl), ?_, ?_⟩
    · intro c hc
      have hle := P.result.pop_max heap w rest hpop c hc
      exact Candidate.before_iff_leReverse.mpr hle
    · rw [worstInResult, hpeek]
      rfl

/-- What the eviction takes out stands behind all that it leaves. -/
theorem evict_worst (fuel : Nat) (heap : P.result.Heap) {x : Candidate}
    (hx : x ∈ P.result.toList heap) (hout : x ∉ P.result.toList (evict P ef fuel heap)) :
    ∀ c ∈ P.result.toList (evict P ef fuel heap), Before Candidate.cmp c x := by
  have hkept : x ∈ P.result.toList (evict P ef fuel heap) ∨
      ∀ c ∈ P.result.toList (evict P ef fuel heap), Before Candidate.cmp c x := by
    apply evict_induct (motive := fun h =>
      x ∈ P.result.toList h ∨ ∀ c ∈ P.result.toList h, Before Candidate.cmp c x)
    · intro h a h' _ hpop hm
      rcases hm with hmem | hall
      · rcases (P.result.mem_pop hpop).mp hmem with rfl | hmem
        · -- the evicted entry is the worst of the heap
          right
          intro c hc
          have hle := P.result.pop_max h x h' hpop c ((P.result.mem_pop hpop).mpr (Or.inr hc))
          exact Candidate.before_iff_leReverse.mpr hle
        · exact Or.inl hmem
      · right
        intro c hc
        exact hall c ((P.result.mem_pop hpop).mpr (Or.inr hc))
    · exact Or.inl hx
  exact hkept.resolve_left hout

theorem mem_of_mem_evict (fuel : Nat) (heap : P.result.Heap) {x : Candidate}
    (hx : x ∈ P.result.toList (evict P ef fuel heap)) : x ∈ P.result.toList heap := by
  revert x
  apply evict_induct (motive := fun h => ∀ {x}, x ∈ P.result.toList h → x ∈ P.result.toList heap)
  · intro h a h' _ hpop hm x hx
    exact hm ((P.result.mem_pop hpop).mpr (Or.inr hx))
  · intro x hx
    exact hx

/-- The eviction stops at the capacity. -/
theorem evict_full (fuel : Nat) {heap : P.result.Heap} (h : ef ≤ P.result.len heap) :
    ef ≤ P.result.len (evict P ef fuel heap) := by
  apply evict_induct (motive := fun h => ef ≤ P.result.len h)
  · intro h a h' hlen hpop _
    have := P.result.len_pop hpop
    omega
  · exact h

/-! ### One neighbor -/

/-- What holds of the result heap in every state of the search. -/
structure ResultInv (P : Platform) (g : HnswGraph) (metric : Metric) (query : List F32)
    (ef : Nat) (isAdmissible : VectorId → Bool) (st : BeamState P) : Prop where
  candidate : ∀ c ∈ P.result.toList st.result, c = g.candidateOf P metric query c.node
  visited : ∀ c ∈ P.result.toList st.result, st.Visited c.node
  /-- Only a full result leaves something out. -/
  full : ∀ n, st.Visited n → g.Eligible isAdmissible n →
    g.candidateOf P metric query n ∉ P.result.toList st.result → ef ≤ P.result.len st.result

theorem ResultInv.not_mem {st : BeamState P}
    (h : ResultInv P g metric query ef isAdmissible st) {n : Nat} :
    g.candidateOf P metric query n ∉ P.result.toList st.result ↔
      ∀ c ∈ P.result.toList st.result, c.node ≠ n := by
  constructor
  · intro hnot c hc hnode
    rw [h.candidate c hc, hnode] at hc
    exact hnot hc
  · intro hall hmem
    exact hall _ hmem rfl

theorem ResultInv.visit {st : BeamState P} (h : ResultInv P g metric query ef isAdmissible st)
    (b : Nat) :
    ResultInv P g metric query ef isAdmissible
      (visitNeighbor P g metric query ef isAdmissible st b) := by
  rcases visitNeighbor_cases st b with ⟨-, hsame⟩ | ⟨hlt, _, result, hst, hresult⟩
  · rw [hsame]
    exact h
  have hvis : ∀ n, (st.visited.set b true)[n]? = some true ↔ n = b ∨ st.Visited n :=
    fun n => visited_set hlt
  rw [hst]
  rcases hresult with ⟨rfl, hturned⟩ | ⟨rfl, -, -⟩
  · -- the result is as it was, and if the node is eligible it was full
    refine ⟨h.candidate, fun c hc => (hvis _).mpr (Or.inr (h.visited c hc)), ?_⟩
    intro n hn hel hnot
    rcases (hvis n).mp hn with rfl | hn
    · exact (hturned hel).1
    · exact h.full n hn hel hnot
  · have hsub : ∀ c ∈ P.result.toList (evict P ef (P.result.len st.result + 1)
        (P.result.push st.result (g.candidateOf P metric query b))),
        c = g.candidateOf P metric query b ∨ c ∈ P.result.toList st.result :=
      fun c hc => P.result.mem_push.mp (mem_of_mem_evict _ _ hc)
    refine ⟨?_, ?_, ?_⟩
    · intro c hc
      rcases hsub c hc with rfl | hc
      · rfl
      · exact h.candidate c hc
    · intro c hc
      rcases hsub c hc with rfl | hc
      · exact (hvis _).mpr (Or.inl rfl)
      · exact (hvis _).mpr (Or.inr (h.visited c hc))
    · intro n hn hel hnot
      by_cases hroom : P.result.len (P.result.push st.result (g.candidateOf P metric query b)) ≤ ef
      · -- with room nothing is evicted, and nothing was left out before
        rw [evict_of_le _ hroom] at hnot ⊢
        have hold := fun hmem => hnot (P.result.mem_push.mpr (Or.inr hmem))
        rcases (hvis n).mp hn with rfl | hn
        · exact absurd (P.result.mem_push.mpr (Or.inl rfl)) hnot
        · have := h.full n hn hel hold
          rw [PriorityQueue.len_push]
          omega
      · -- the eviction ends with a full result, whatever it leaves out
        exact evict_full _ (by omega)

/-- A visit that overlooks nothing keeps the best. -/
theorem keepsBest_visit {st : BeamState P} (hef : 1 ≤ ef)
    (h : ResultInv P g metric query ef isAdmissible st)
    (hbest : KeepsBest P g metric query isAdmissible st (P.result.toList st.result)) {b : Nat}
    (hfair : ¬ Overlooked P g metric query ef isAdmissible st b) :
    KeepsBest P g metric query isAdmissible
      (visitNeighbor P g metric query ef isAdmissible st b)
      (P.result.toList (visitNeighbor P g metric query ef isAdmissible st b).result) := by
  intro n hn hel hnot
  have hinv := h.visit b
  rcases visitNeighbor_cases st b with ⟨-, hsame⟩ | ⟨hlt, hfresh, result, hst, hresult⟩
  · rw [hsame] at hn hnot ⊢
    exact hbest n hn hel hnot
  have hvis : ∀ n, (st.visited.set b true)[n]? = some true ↔ n = b ∨ st.Visited n :=
    fun n => visited_set hlt
  rw [hst] at hn hnot hinv ⊢
  rcases hresult with ⟨rfl, hturned⟩ | ⟨rfl, -, hgt⟩
  · rcases (hvis n).mp hn with rfl | hn
    · -- turned away: not before the worst entry, so before no entry
      obtain ⟨hfull, hscore⟩ := hturned hel
      intro c hc
      obtain ⟨w, hpeek, -, hworst, -⟩ := exists_worst (List.ne_nil_of_mem hc)
      rw [Candidate.not_precedes_iff]
      have hw : Candidate.cmp (g.candidateOf P metric query n) w ≠ .lt :=
        fun hlt' => hfair ⟨hlt, hfresh, hel, hfull, hscore, w, hpeek, hlt'⟩
      exact IsTrans.trans _ _ _ (hworst c hc) (Candidate.not_precedes_iff.mp hw)
    · exact hbest n hn hel hnot
  · intro c hc
    rw [Candidate.not_precedes_iff]
    rw [← hinv.not_mem] at hnot
    by_cases hin : g.candidateOf P metric query n ∈
        P.result.toList (P.result.push st.result (g.candidateOf P metric query b))
    · exact evict_worst _ _ hin hnot c hc
    · -- left out before: behind the worst entry, which the new one exceeds
      have hold : ∀ x ∈ P.result.toList st.result, x.node ≠ n :=
        h.not_mem.mp fun hmem => hin (P.result.mem_push.mpr (Or.inr hmem))
      have hn' : st.Visited n := by
        refine ((hvis n).mp hn).resolve_left ?_
        rintro rfl
        exact hin (P.result.mem_push.mpr (Or.inl rfl))
      have hbehind := fun x hx => Candidate.not_precedes_iff.mp (hbest n hn' hel hold x hx)
      rcases P.result.mem_push.mp (mem_of_mem_evict _ _ hc) with rfl | hc
      · -- against the new entry: the worst one stands between them
        have hfull := h.full n hn' hel (h.not_mem.mpr hold)
        have hne : P.result.toList st.result ≠ [] := by
          intro hnil
          simp only [PriorityQueue.len, hnil, List.length_nil] at hfull
          omega
        obtain ⟨w, -, hw, -, hscore⟩ := exists_worst hne
        have habove : Before Candidate.cmp (g.candidateOf P metric query b) w := by
          rw [Candidate.before_iff]
          exact Or.inl (F32.totalKey_lt_of_gt (hscore ▸ hgt hfull))
        exact IsTrans.trans _ _ _ habove (hbehind w hw)
      · exact hbehind c hc

/-! ### All of the search -/

theorem resultInv_init (hentry : entry < g.nodeCount) :
    ResultInv P g metric query ef isAdmissible (g.beamInit P metric query entry isAdmissible) := by
  refine ⟨?_, ?_, ?_⟩
  · intro c hc
    rw [(mem_result_beamInit.mp hc).1]
    rfl
  · intro c hc
    rw [(mem_result_beamInit.mp hc).1]
    exact (visited_beamInit hentry).mpr rfl
  · intro n hn hel hnot
    obtain rfl := (visited_beamInit hentry).mp hn
    exact absurd (mem_result_beamInit.mpr ⟨rfl, hel⟩) hnot

theorem keepsBest_init (hentry : entry < g.nodeCount) :
    KeepsBest P g metric query isAdmissible (g.beamInit P metric query entry isAdmissible)
      (P.result.toList (g.beamInit P metric query entry isAdmissible).result) := by
  intro n hn hel hnot
  -- the entry is the only node visited, and it is in the result
  obtain rfl := (visited_beamInit hentry).mp hn
  exact absurd rfl (hnot _ (mem_result_beamInit.mpr ⟨rfl, hel⟩))

theorem Searching.resultInv (hentry : entry < g.nodeCount) {st : BeamState P} {todo : List Nat}
    (h : Searching P g metric query entry ef layer isAdmissible st todo) :
    ResultInv P g metric query ef isAdmissible st := by
  induction h with
  | start => exact resultInv_init hentry
  | expand _ _ _ ih => exact ⟨ih.candidate, ih.visited, ih.full⟩
  | visit _ ih => exact ih.visit _

theorem Searching.keepsBest (hef : 1 ≤ ef) (hentry : entry < g.nodeCount)
    (hnone : OverlooksNone P g metric query entry ef layer isAdmissible) {st : BeamState P}
    {todo : List Nat} (h : Searching P g metric query entry ef layer isAdmissible st todo) :
    KeepsBest P g metric query isAdmissible st (P.result.toList st.result) := by
  induction h with
  | start => exact keepsBest_init hentry
  | expand _ _ _ ih => exact ih
  | visit h ih => exact keepsBest_visit hef (h.resultInv hentry) ih (hnone _ _ _ h)

/-- An overlooked node is one the visit leaves out although it precedes an
    entry. -/
theorem not_keepsBest_of_overlooked {st : BeamState P} {b : Nat}
    (h : ResultInv P g metric query ef isAdmissible st)
    (hover : Overlooked P g metric query ef isAdmissible st b) :
    ¬ KeepsBest P g metric query isAdmissible
      (visitNeighbor P g metric query ef isAdmissible st b)
      (P.result.toList (visitNeighbor P g metric query ef isAdmissible st b).result) := by
  intro hbest
  obtain ⟨w, hpeek, hprecedes⟩ := hover.precedes
  obtain ⟨rest, hpop⟩ := P.result.peek_eq_some hpeek
  -- the node is new, so it is visited; its score keeps it out of the result
  rcases visitNeighbor_cases st b with ⟨hskip, -⟩ | ⟨hlt, _, result, hst, hresult⟩
  · exact hskip.elim (not_le.mpr hover.inRange) hover.fresh
  rw [hst] at hbest
  rcases hresult with ⟨rfl, -⟩ | ⟨-, -, hgt⟩
  · refine hbest b ((visited_set hlt).mpr (Or.inl rfl)) hover.eligible ?_ w
      ((P.result.mem_pop hpop).mpr (Or.inl rfl)) hprecedes
    intro c hc hnode
    exact hover.fresh (hnode ▸ h.visited c hc)
  · rw [hover.turnedAway] at hgt
    exact absurd (hgt hover.full) Bool.false_ne_true

/-- **The result holds the best of what was visited**, in every state of a
    search, exactly if the search overlooks no node; and then so does what it
    returns. -/
theorem beamSearch_keepsBest (P : Platform) (g : HnswGraph) (metric : Metric) (query : List F32)
    (layer : Nat) (isAdmissible : VectorId → Bool) {entry ef : Nat}
    (hef : 1 ≤ ef) (hentry : entry < g.nodeCount) :
    ((∀ st todo, Searching P g metric query entry ef layer isAdmissible st todo →
        KeepsBest P g metric query isAdmissible st (P.result.toList st.result)) ↔
      OverlooksNone P g metric query entry ef layer isAdmissible) ∧
    ∃ out, g.beamSearch P metric query entry ef layer isAdmissible = some out ∧
      (OverlooksNone P g metric query entry ef layer isAdmissible →
        KeepsBest P g metric query isAdmissible
          (beamEnd P g metric query entry ef layer isAdmissible) out) := by
  refine ⟨⟨?_, ?_⟩, _, if_pos hentry, ?_⟩
  · intro hall st b rest h hover
    exact not_keepsBest_of_overlooked (h.resultInv hentry) hover (hall _ _ h.visit)
  · intro hnone st todo h
    exact h.keepsBest hef hentry hnone
  · -- the final sort changes the order only
    intro hnone n hn hel hnot c hc
    have hend := (searching_beamLoop (g.nodeCount + 1) .start).keepsBest hef hentry hnone
    exact hend n hn hel (fun x hx => hnot x (mem_sortBy.mpr hx)) c (mem_sortBy.mp hc)

/-- The twins: the entry fills the result, and its twin of the lower id is
    turned away. -/
theorem not_beamSearch_keepsBest :
    ¬ ∀ (P : Platform) (g : HnswGraph) (metric : Metric) (query : List F32)
      (layer : Nat) (isAdmissible : VectorId → Bool) (entry ef : Nat) (out : List Candidate),
      1 ≤ ef → entry < g.nodeCount →
      g.beamSearch P metric query entry ef layer isAdmissible = some out →
      KeepsBest P g metric query isAdmissible
        (beamEnd P g metric query entry ef layer isAdmissible) out := by
  intro hall
  have hbest := hall .small twins .dotProduct [.zero] 0 (fun _ => true) 0 1 _
    (by decide) (by decide) rfl
  -- both nodes were visited, and one is returned
  have hvisited : (beamEnd .small twins .dotProduct [.zero] 0 1 0 (fun _ => true)).visited[1]? =
      some true := by decide +kernel
  exact hbest 1 hvisited ⟨by decide, rfl⟩ (by decide +kernel)
    (twins.candidateOf .small .dotProduct [.zero] 0) (by decide +kernel) (by decide +kernel)

theorem beamSearch_keepsBest_twins :
    ((∀ st todo, Searching .small twins .dotProduct [.zero] 0 1 0 (fun _ => true) st todo →
        KeepsBest .small twins .dotProduct [.zero] (fun _ => true) st
          (Platform.small.result.toList st.result)) ↔
      OverlooksNone .small twins .dotProduct [.zero] 0 1 0 (fun _ => true)) ∧
    ∃ out, twins.beamSearch .small .dotProduct [.zero] 0 1 0 (fun _ => true) = some out ∧
      (OverlooksNone .small twins .dotProduct [.zero] 0 1 0 (fun _ => true) →
        KeepsBest .small twins .dotProduct [.zero] (fun _ => true)
          (beamEnd .small twins .dotProduct [.zero] 0 1 0 (fun _ => true)) out) :=
  beamSearch_keepsBest .small twins .dotProduct [.zero] 0 (fun _ => true) (by decide) (by decide)

end keeps

end HnswGraph

end EidosDB
