import EidosDB.Hnsw.Search

/-! # What Beam Search Returns

    For any graph, any scores and any admissibility predicate, the beam
    search returns distinct live admissible nodes reachable from its entry,
    at most `ef` of them, closest first.  It returns some if there are any,
    and all of them if they are at most `ef`.

    The loop invariant is `BeamInv`.  It is carried through one neighbor
    (`BeamInv.visit`), one expansion (`BeamInv.expand`) and the loop
    (`beamLoop_spec`), together with a measure that bounds the number of
    rounds. -/

namespace EidosDB

namespace HnswGraph

/-- Reachability along the in-range links of one layer. -/
def Reach (g : HnswGraph) (layer : Nat) : Nat → Nat → Prop :=
  Relation.ReflTransGen (fun a b => g.Link layer a b ∧ b < g.nodeCount)

/-- Nodes a search may return. -/
def Eligible (g : HnswGraph) (isAdmissible : VectorId → Bool) (n : Nat) : Prop :=
  g.isTombstone n = false ∧ isAdmissible (g.idOf n) = true

/-- At most `ef` eligible nodes are reachable from `entry`. -/
def WithinBeam (g : HnswGraph) (layer entry ef : Nat) (isAdmissible : VectorId → Bool) : Prop :=
  ∀ l : List Nat, l.Nodup → (∀ n ∈ l, g.Reach layer entry n ∧ g.Eligible isAdmissible n) →
    l.length ≤ ef

/-- The contract of `beam_search`. -/
structure BeamSpec (P : Platform) (g : HnswGraph) (metric : Metric) (query : List F32)
    (entry ef layer : Nat) (isAdmissible : VectorId → Bool) (out : List Candidate) : Prop where
  sorted : out.Pairwise (Before Candidate.cmp)
  nodup : (out.map (fun c => c.node)).Nodup
  length_le : out.length ≤ ef
  candidate : ∀ c ∈ out, c = g.candidateOf P metric query c.node
  reach : ∀ c ∈ out, g.Reach layer entry c.node
  inRange : ∀ c ∈ out, c.node < g.nodeCount
  eligible : ∀ c ∈ out, g.Eligible isAdmissible c.node
  nonempty : ∀ n, g.Reach layer entry n → g.Eligible isAdmissible n → out ≠ []
  complete : g.WithinBeam layer entry ef isAdmissible →
    ∀ n, g.Reach layer entry n → g.Eligible isAdmissible n →
      g.candidateOf P metric query n ∈ out

section loop

variable {P : Platform} {g : HnswGraph} {metric : Metric} {query : List F32}
  {ef layer entry : Nat} {isAdmissible : VectorId → Bool}

@[simp] theorem candidateOf_node (n : Nat) : (g.candidateOf P metric query n).node = n := rfl

@[simp] theorem candidateOf_id (n : Nat) : (g.candidateOf P metric query n).id = g.idOf n := rfl

/-! ## Eviction -/

/-- A property kept by one pop above capacity is kept by the eviction loop. -/
theorem evict_induct {motive : P.result.Heap → Prop}
    (hpop : ∀ h a h', ef < P.result.len h → P.result.pop h = some (a, h') → motive h → motive h')
    (fuel : Nat) (h : P.result.Heap) (hm : motive h) : motive (evict P ef fuel h) := by
  induction fuel generalizing h with
  | zero => exact hm
  | succ fuel ih =>
    unfold evict
    split
    · next hlen =>
      cases hp : P.result.pop h with
      | none => exact hm
      | some r =>
        obtain ⟨a, h'⟩ := r
        exact ih h' (hpop h a h' hlen hp hm)
    · exact hm

theorem evict_of_le (fuel : Nat) {h : P.result.Heap} (hlen : P.result.len h ≤ ef) :
    evict P ef fuel h = h := by
  cases fuel with
  | zero => rfl
  | succ fuel =>
    unfold evict
    rw [if_neg (not_lt.mpr hlen)]

theorem len_evict_le (fuel : Nat) {h : P.result.Heap} (hfuel : P.result.len h ≤ fuel) :
    P.result.len (evict P ef fuel h) ≤ ef := by
  induction fuel generalizing h with
  | zero =>
    unfold evict
    omega
  | succ fuel ih =>
    unfold evict
    split
    · next hlen =>
      cases hp : P.result.pop h with
      | none =>
        have hnil := P.result.pop_eq_none h hp
        simp [PriorityQueue.len, hnil] at hlen
      | some r =>
        obtain ⟨a, h'⟩ := r
        have := P.result.len_pop hp
        exact ih (by omega)
    · next hlen => exact not_lt.mp hlen

/-! ## The invariant -/

/-- Nodes already entered. -/
def BeamState.Visited (st : BeamState P) (n : Nat) : Prop := st.visited[n]? = some true

/-- The invariant of the loop; `pending` marks a node that has left the
    frontier and is still being expanded. -/
structure BeamInv (P : Platform) (g : HnswGraph) (metric : Metric) (query : List F32)
    (ef layer entry : Nat) (isAdmissible : VectorId → Bool) (pending : Nat → Prop)
    (st : BeamState P) : Prop where
  visited_len : st.visited.length = g.nodeCount
  entry_visited : st.Visited entry
  frontier_visited : ∀ c ∈ P.frontier.toList st.frontier, st.Visited c.node
  result_candidate : ∀ c ∈ P.result.toList st.result, c = g.candidateOf P metric query c.node
  result_visited : ∀ c ∈ P.result.toList st.result, st.Visited c.node
  result_eligible : ∀ c ∈ P.result.toList st.result, g.Eligible isAdmissible c.node
  result_nodup : ((P.result.toList st.result).map (fun c => c.node)).Nodup
  result_len : P.result.len st.result ≤ ef
  reach : ∀ n, st.Visited n → g.Reach layer entry n
  closed : ∀ n, st.Visited n → (∃ c ∈ P.frontier.toList st.frontier, c.node = n) ∨ pending n ∨
    ∀ b ∈ g.neighbors n layer, b < g.nodeCount → st.Visited b
  nonempty : ∀ n, st.Visited n → g.Eligible isAdmissible n → P.result.toList st.result ≠ []
  complete : g.WithinBeam layer entry ef isAdmissible →
    ∀ n, st.Visited n → g.Eligible isAdmissible n →
      ∃ c ∈ P.result.toList st.result, c.node = n

theorem visited_lt {pending : Nat → Prop} {st : BeamState P}
    (h : BeamInv P g metric query ef layer entry isAdmissible pending st) {n : Nat}
    (hn : st.Visited n) : n < g.nodeCount := by
  rw [← h.visited_len]
  exact (List.getElem?_eq_some_iff.mp hn).1

/-- With room for every eligible node, a result that misses a reachable one is
    not full. -/
theorem BeamInv.room {pending : Nat → Prop} {st : BeamState P}
    (h : BeamInv P g metric query ef layer entry isAdmissible pending st)
    (hcap : g.WithinBeam layer entry ef isAdmissible) {b : Nat}
    (hreach : g.Reach layer entry b) (hel : g.Eligible isAdmissible b)
    (hnot : ∀ c ∈ P.result.toList st.result, c.node ≠ b) : P.result.len st.result + 1 ≤ ef := by
  have hlen := hcap (b :: (P.result.toList st.result).map (fun c => c.node)) (by
      refine List.nodup_cons.mpr ⟨?_, h.result_nodup⟩
      intro hmem
      obtain ⟨c, hc, hcb⟩ := List.mem_map.mp hmem
      exact hnot c hc hcb) (by
      intro n hn
      rcases List.mem_cons.mp hn with rfl | hn
      · exact ⟨hreach, hel⟩
      · obtain ⟨c, hc, rfl⟩ := List.mem_map.mp hn
        exact ⟨h.reach _ (h.result_visited c hc), h.result_eligible c hc⟩)
  simpa [PriorityQueue.len] using hlen

/-! ## One neighbor -/

theorem visited_set {visited : List Bool} {b n : Nat} (hb : b < visited.length) :
    (visited.set b true)[n]? = some true ↔ n = b ∨ visited[n]? = some true := by
  rw [List.getElem?_set]
  by_cases hn : b = n
  · simp [hn, hn ▸ hb]
  · simp [hn, Ne.symm hn]

/-- A visit changes nothing, or it enters a new node; the result is then as
    before, or with the node and evicted down to the capacity. -/
theorem visitNeighbor_cases (st : BeamState P) (b : Nat) :
    ((st.visited.length ≤ b ∨ st.Visited b) ∧
      visitNeighbor P g metric query ef isAdmissible st b = st) ∨
    (b < st.visited.length ∧ ¬ st.Visited b ∧
      ∃ result, visitNeighbor P g metric query ef isAdmissible st b =
        { visited := st.visited.set b true
          frontier := P.frontier.push st.frontier (g.candidateOf P metric query b)
          result := result } ∧
      ((result = st.result ∧ (g.Eligible isAdmissible b → ef ≤ P.result.len st.result ∧
          (g.candidateOf P metric query b).score.gt (worstInResult P st.result) = false)) ∨
       (result = evict P ef (P.result.len st.result + 1)
          (P.result.push st.result (g.candidateOf P metric query b)) ∧
        g.Eligible isAdmissible b ∧ (ef ≤ P.result.len st.result →
          (g.candidateOf P metric query b).score.gt (worstInResult P st.result) = true)))) := by
  unfold visitNeighbor
  by_cases hskip : st.visited.length ≤ b ∨ st.visited[b]? = some true
  · exact Or.inl ⟨hskip, if_pos hskip⟩
  · rw [if_neg hskip]
    obtain ⟨hlt, hnv⟩ := not_or.mp hskip
    refine Or.inr ⟨not_le.mp hlt, hnv, ?_⟩
    dsimp only
    split
    · next hcond =>
      simp only [Bool.and_eq_true, Bool.not_eq_true', Bool.or_eq_true, decide_eq_true_eq,
        candidateOf_id] at hcond
      refine ⟨_, rfl, Or.inr ⟨by rw [PriorityQueue.len_push], hcond.1, ?_⟩⟩
      intro hfull
      exact hcond.2.resolve_left (not_lt.mpr hfull)
    · next hcond =>
      simp only [Bool.and_eq_true, Bool.not_eq_true', Bool.or_eq_true, decide_eq_true_eq,
        candidateOf_id, not_and, not_or, not_lt, Bool.not_eq_true] at hcond
      exact ⟨_, rfl, Or.inl ⟨rfl, hcond⟩⟩

/-- What entering one unvisited neighbor does to the result heap. -/
structure Admitted (st : BeamState P) (c : Candidate) (result : P.result.Heap)
    (g : HnswGraph) (ef layer entry : Nat) (isAdmissible : VectorId → Bool) : Prop where
  sub : ∀ x ∈ P.result.toList result,
    x ∈ P.result.toList st.result ∨ (x = c ∧ g.Eligible isAdmissible c.node)
  nodup : ((P.result.toList result).map (fun c => c.node)).Nodup
  len_le : P.result.len result ≤ ef
  nonempty : P.result.toList st.result ≠ [] ∨ g.Eligible isAdmissible c.node →
    P.result.toList result ≠ []
  complete : g.WithinBeam layer entry ef isAdmissible →
    (∀ x ∈ P.result.toList st.result, x ∈ P.result.toList result) ∧
    (g.Eligible isAdmissible c.node → c ∈ P.result.toList result)

/-- Pushing an eligible candidate and evicting the worst. -/
theorem admitted_push {pending : Nat → Prop} {st : BeamState P} (hef : 1 ≤ ef)
    (h : BeamInv P g metric query ef layer entry isAdmissible pending st) {b : Nat}
    (hreach : g.Reach layer entry b) (hel : g.Eligible isAdmissible b)
    (hnot : ∀ c ∈ P.result.toList st.result, c.node ≠ b) :
    Admitted st (g.candidateOf P metric query b)
      (evict P ef (P.result.len (P.result.push st.result (g.candidateOf P metric query b)))
        (P.result.push st.result (g.candidateOf P metric query b)))
      g ef layer entry isAdmissible := by
  set c := g.candidateOf P metric query b with hc
  set pushed := P.result.push st.result c with hpushed
  have hmem : ∀ x, x ∈ P.result.toList pushed ↔ x = c ∨ x ∈ P.result.toList st.result :=
    fun x => P.result.mem_push
  have hkept : (∀ x ∈ P.result.toList (evict P ef (P.result.len pushed) pushed),
        x ∈ P.result.toList pushed) ∧
      ((P.result.toList (evict P ef (P.result.len pushed) pushed)).map
        (fun c => c.node)).Nodup ∧
      P.result.toList (evict P ef (P.result.len pushed) pushed) ≠ [] := by
    apply evict_induct (motive := fun heap =>
      (∀ x ∈ P.result.toList heap, x ∈ P.result.toList pushed) ∧
      ((P.result.toList heap).map (fun c => c.node)).Nodup ∧ P.result.toList heap ≠ [])
    · rintro heap a heap' hlen hpop ⟨hsub, hnodup, _⟩
      have hperm := P.result.pop_perm heap a heap' hpop
      refine ⟨fun x hx => hsub x ((P.result.mem_pop hpop).mpr (Or.inr hx)), ?_, ?_⟩
      · have := (hperm.map (fun c => c.node)).nodup_iff.mp hnodup
        exact (List.nodup_cons.mp this).2
      · -- above capacity at least `ef` elements stay
        have hl := P.result.len_pop hpop
        intro hnil
        simp only [PriorityQueue.len, hnil, List.length_nil] at hl hlen
        omega
    · refine ⟨fun x hx => hx, ?_, ?_⟩
      · rw [((P.result.toList_push st.result c).map (fun c => c.node)).nodup_iff, List.map_cons,
          List.nodup_cons]
        refine ⟨?_, h.result_nodup⟩
        intro hin
        obtain ⟨x, hx, hxb⟩ := List.mem_map.mp hin
        exact hnot x hx hxb
      · exact List.ne_nil_of_mem ((hmem c).mpr (Or.inl rfl))
  obtain ⟨hsub, hnodup, hne⟩ := hkept
  refine ⟨?_, hnodup, len_evict_le _ (le_refl _), fun _ => hne, ?_⟩
  · intro x hx
    rcases (hmem x).mp (hsub x hx) with rfl | hx
    · exact Or.inr ⟨rfl, hel⟩
    · exact Or.inl hx
  · intro hcap
    have hroom := h.room hcap hreach hel hnot
    rw [evict_of_le _ (by rw [hpushed, PriorityQueue.len_push]; exact hroom)]
    exact ⟨fun x hx => (hmem x).mpr (Or.inr hx), fun _ => (hmem c).mpr (Or.inl rfl)⟩

/-- Leaving the result heap alone, when the candidate is not eligible or the
    heap is full. -/
theorem admitted_skip {pending : Nat → Prop} {st : BeamState P} (hef : 1 ≤ ef)
    (h : BeamInv P g metric query ef layer entry isAdmissible pending st) {b : Nat}
    (hreach : g.Reach layer entry b)
    (hnot : ∀ c ∈ P.result.toList st.result, c.node ≠ b)
    (hskip : ¬ g.Eligible isAdmissible b ∨ ef ≤ P.result.len st.result) :
    Admitted st (g.candidateOf P metric query b) st.result g ef layer entry isAdmissible := by
  refine ⟨fun x hx => Or.inl hx, h.result_nodup, h.result_len, ?_, ?_⟩
  · rintro (hne | hel)
    · exact hne
    · rcases hskip with hnel | hfull
      · exact absurd hel hnel
      · intro hnil
        simp only [PriorityQueue.len, hnil, List.length_nil] at hfull
        omega
  · intro hcap
    refine ⟨fun x hx => hx, fun hel => ?_⟩
    rcases hskip with hnel | hfull
    · exact absurd hel hnel
    · have := h.room hcap hreach hel hnot
      omega

/-- The invariant after a neighbor was entered, whatever became of the result
    heap. -/
theorem BeamInv.enter {pending : Nat → Prop} {st : BeamState P}
    (h : BeamInv P g metric query ef layer entry isAdmissible pending st) {b : Nat}
    (hb : b < g.nodeCount) (hreach : g.Reach layer entry b) {result : P.result.Heap}
    (hadm : Admitted st (g.candidateOf P metric query b) result g ef layer entry isAdmissible) :
    BeamInv P g metric query ef layer entry isAdmissible pending
      { visited := st.visited.set b true
        frontier := P.frontier.push st.frontier (g.candidateOf P metric query b)
        result := result } := by
  have hbl : b < st.visited.length := by rw [h.visited_len]; exact hb
  have hvis : ∀ n, (st.visited.set b true)[n]? = some true ↔ n = b ∨ st.Visited n :=
    fun n => visited_set hbl
  refine ⟨?_, ?_, ?_, ?_, ?_, ?_, hadm.nodup, hadm.len_le, ?_, ?_, ?_, ?_⟩
  · simpa using h.visited_len
  · exact (hvis entry).mpr (Or.inr h.entry_visited)
  · intro c hc
    rcases (P.frontier.mem_push).mp hc with rfl | hc
    · exact (hvis _).mpr (Or.inl rfl)
    · exact (hvis _).mpr (Or.inr (h.frontier_visited c hc))
  · intro c hc
    rcases hadm.sub c hc with hc | ⟨rfl, _⟩
    · exact h.result_candidate c hc
    · rfl
  · intro c hc
    rcases hadm.sub c hc with hc | ⟨rfl, _⟩
    · exact (hvis _).mpr (Or.inr (h.result_visited c hc))
    · exact (hvis _).mpr (Or.inl rfl)
  · intro c hc
    rcases hadm.sub c hc with hc | ⟨rfl, hel⟩
    · exact h.result_eligible c hc
    · exact hel
  · intro n hn
    rcases (hvis n).mp hn with rfl | hn
    · exact hreach
    · exact h.reach n hn
  · intro n hn
    rcases (hvis n).mp hn with rfl | hn
    · exact Or.inl ⟨_, (P.frontier.mem_push).mpr (Or.inl rfl), rfl⟩
    · rcases h.closed n hn with ⟨c, hc, hcn⟩ | hp | hall
      · exact Or.inl ⟨c, (P.frontier.mem_push).mpr (Or.inr hc), hcn⟩
      · exact Or.inr (Or.inl hp)
      · exact Or.inr (Or.inr fun x hx hlt => (hvis x).mpr (Or.inr (hall x hx hlt)))
  · intro n hn hel
    rcases (hvis n).mp hn with rfl | hn
    · exact hadm.nonempty (Or.inr hel)
    · exact hadm.nonempty (Or.inl (h.nonempty n hn hel))
  · intro hcap n hn hel
    rcases (hvis n).mp hn with rfl | hn
    · exact ⟨_, (hadm.complete hcap).2 hel, rfl⟩
    · obtain ⟨c, hc, hcn⟩ := h.complete hcap n hn hel
      exact ⟨c, (hadm.complete hcap).1 c hc, hcn⟩

/-- One neighbor of a visited node. -/
theorem BeamInv.visit {pending : Nat → Prop} {st : BeamState P} (hef : 1 ≤ ef)
    (h : BeamInv P g metric query ef layer entry isAdmissible pending st) {a b : Nat}
    (ha : st.Visited a) (hb : b ∈ g.neighbors a layer) :
    BeamInv P g metric query ef layer entry isAdmissible pending
      (visitNeighbor P g metric query ef isAdmissible st b) := by
  rcases visitNeighbor_cases st b with ⟨-, hsame⟩ | ⟨hlt, hfresh, result, hst, hresult⟩
  · rw [hsame]
    exact h
  have hb' : b < g.nodeCount := by rw [← h.visited_len]; exact hlt
  have hreach : g.Reach layer entry b := (h.reach a ha).tail ⟨hb, hb'⟩
  have hnot : ∀ c ∈ P.result.toList st.result, c.node ≠ b :=
    fun c hc hcb => hfresh (hcb ▸ h.result_visited c hc)
  rw [hst]
  apply h.enter hb' hreach
  rcases hresult with ⟨rfl, hturned⟩ | ⟨rfl, hel, -⟩
  · apply admitted_skip hef h hreach hnot
    by_cases hel : g.Eligible isAdmissible b
    · exact Or.inr (hturned hel).1
    · exact Or.inl hel
  · have hadm := admitted_push hef h hreach hel hnot
    rw [PriorityQueue.len_push] at hadm
    exact hadm

theorem visited_visitNeighbor {st : BeamState P} {b n : Nat} (hn : st.Visited n) :
    (visitNeighbor P g metric query ef isAdmissible st b).Visited n := by
  rcases visitNeighbor_cases st b with ⟨-, hsame⟩ | ⟨hlt, -, result, hst, -⟩
  · rw [hsame]
    exact hn
  · rw [hst]
    exact (visited_set hlt).mpr (Or.inr hn)

theorem visitNeighbor_visits {st : BeamState P} {b : Nat} (hb : b < st.visited.length) :
    (visitNeighbor P g metric query ef isAdmissible st b).Visited b := by
  rcases visitNeighbor_cases st b with ⟨hskip, hsame⟩ | ⟨hlt, -, result, hst, -⟩
  · rw [hsame]
    exact hskip.resolve_left (not_le.mpr hb)
  · rw [hst]
    exact (visited_set hlt).mpr (Or.inl rfl)

/-! ## One expansion -/

/-- Going through neighbors of a visited node keeps the invariant and visits
    all of them that exist. -/
theorem BeamInv.fold {pending : Nat → Prop} {st : BeamState P} (hef : 1 ≤ ef)
    (h : BeamInv P g metric query ef layer entry isAdmissible pending st) {a : Nat}
    (ha : st.Visited a) (l : List Nat) (hl : ∀ b ∈ l, b ∈ g.neighbors a layer) :
    BeamInv P g metric query ef layer entry isAdmissible pending
        (l.foldl (visitNeighbor P g metric query ef isAdmissible) st) ∧
      (∀ n, st.Visited n →
        (l.foldl (visitNeighbor P g metric query ef isAdmissible) st).Visited n) ∧
      ∀ b ∈ l, b < g.nodeCount →
        (l.foldl (visitNeighbor P g metric query ef isAdmissible) st).Visited b := by
  induction l generalizing st with
  | nil => exact ⟨h, fun n hn => hn, by simp⟩
  | cons b rest ih =>
    have hvisit := h.visit hef ha (hl b List.mem_cons_self)
    obtain ⟨hinv, hmono, hall⟩ := ih hvisit (visited_visitNeighbor ha)
      (fun x hx => hl x (List.mem_cons_of_mem _ hx))
    refine ⟨hinv, fun n hn => hmono n (visited_visitNeighbor hn), ?_⟩
    intro x hx hlt
    rcases List.mem_cons.mp hx with rfl | hx
    · exact hmono x (visitNeighbor_visits (by rw [h.visited_len]; exact hlt))
    · exact hall x hx hlt

/-- One round of the loop. -/
theorem BeamInv.expand {st : BeamState P} (hef : 1 ≤ ef)
    (h : BeamInv P g metric query ef layer entry isAdmissible (fun _ => False) st)
    {c : Candidate} {frontier : P.frontier.Heap}
    (hpop : P.frontier.pop st.frontier = some (c, frontier)) :
    BeamInv P g metric query ef layer entry isAdmissible (fun _ => False)
      ((g.neighbors c.node layer).foldl (visitNeighbor P g metric query ef isAdmissible)
        { st with frontier := frontier }) := by
  have hc : st.Visited c.node := h.frontier_visited c ((P.frontier.mem_pop hpop).mpr (Or.inl rfl))
  have hpopped : BeamInv P g metric query ef layer entry isAdmissible (fun n => n = c.node)
      { st with frontier := frontier } := by
    refine ⟨h.visited_len, h.entry_visited, ?_, h.result_candidate, h.result_visited,
      h.result_eligible, h.result_nodup, h.result_len, h.reach, ?_, h.nonempty, h.complete⟩
    · intro x hx
      exact h.frontier_visited x ((P.frontier.mem_pop hpop).mpr (Or.inr hx))
    · intro n hn
      rcases h.closed n hn with ⟨x, hx, rfl⟩ | hf | hall
      · rcases (P.frontier.mem_pop hpop).mp hx with rfl | hx
        · exact Or.inr (Or.inl rfl)
        · exact Or.inl ⟨x, hx, rfl⟩
      · exact hf.elim
      · exact Or.inr (Or.inr hall)
  -- the popped node is pending until its neighbors have been gone through
  obtain ⟨hinv, _, hall⟩ := hpopped.fold hef (a := c.node) hc _ (fun b hb => hb)
  refine { hinv with closed := ?_ }
  intro n hn
  rcases hinv.closed n hn with hfr | rfl | hnb
  · exact Or.inl hfr
  · exact Or.inr (Or.inr hall)
  · exact Or.inr (Or.inr hnb)

/-! ## The loop -/

/-- Rounds the loop can still take: every pop removes one candidate, every
    push uses up an unvisited node. -/
def BeamState.measure (st : BeamState P) : Nat :=
  st.visited.count false + P.frontier.len st.frontier

theorem measure_visitNeighbor {st : BeamState P} (b : Nat) :
    (visitNeighbor P g metric query ef isAdmissible st b).measure = st.measure := by
  rcases visitNeighbor_cases st b with ⟨-, hsame⟩ | ⟨hb, hfresh, result, hst, -⟩
  · rw [hsame]
  · have hfalse : st.visited[b] = false := by
      rw [BeamState.Visited, List.getElem?_eq_getElem hb] at hfresh
      simpa using hfresh
    have hpos : 0 < st.visited.count false :=
      List.count_pos_iff.mpr (hfalse ▸ List.getElem_mem hb)
    -- one node less to visit, one more in the frontier
    have hcount : (st.visited.set b true).count false + 1 = st.visited.count false := by
      rw [List.count_set hb, hfalse]
      simp only [beq_self_eq_true, if_true, Bool.true_eq_false, beq_iff_eq]
      simp
      omega
    rw [hst]
    simp only [BeamState.measure, PriorityQueue.len_push]
    omega

theorem measure_fold {st : BeamState P} (l : List Nat) :
    (l.foldl (visitNeighbor P g metric query ef isAdmissible) st).measure = st.measure := by
  induction l generalizing st with
  | nil => rfl
  | cons b rest ih => rw [List.foldl_cons, ih, measure_visitNeighbor]

/-- The loop has ended by its own test. -/
def BeamState.Stopped (ef : Nat) (st : BeamState P) : Prop :=
  P.frontier.pop st.frontier = none ∨ ef ≤ P.result.len st.result

theorem beamLoop_spec (hef : 1 ≤ ef) (fuel : Nat) {st : BeamState P}
    (h : BeamInv P g metric query ef layer entry isAdmissible (fun _ => False) st)
    (hfuel : st.measure < fuel) :
    BeamInv P g metric query ef layer entry isAdmissible (fun _ => False)
        (beamLoop P g metric query ef layer isAdmissible fuel st) ∧
      (beamLoop P g metric query ef layer isAdmissible fuel st).Stopped ef := by
  induction fuel generalizing st with
  | zero => omega
  | succ fuel ih =>
    unfold beamLoop
    cases hpop : P.frontier.pop st.frontier with
    | none => exact ⟨h, Or.inl hpop⟩
    | some r =>
      obtain ⟨c, frontier⟩ := r
      dsimp only
      split
      · next hexit =>
        simp only [Bool.and_eq_true, decide_eq_true_eq] at hexit
        exact ⟨h, Or.inr hexit.1⟩
      · -- the neighbors change nothing in the measure, the pop has lowered it
        refine ih (h.expand hef hpop) ?_
        rw [measure_fold]
        have hl := P.frontier.len_pop hpop
        simp only [BeamState.measure] at hfuel ⊢
        omega

/-- When the frontier is empty, every reachable node has been visited. -/
theorem BeamInv.all_visited {st : BeamState P}
    (h : BeamInv P g metric query ef layer entry isAdmissible (fun _ => False) st)
    (hempty : P.frontier.pop st.frontier = none) {n : Nat} (hn : g.Reach layer entry n) :
    st.Visited n := by
  have hnil := P.frontier.pop_eq_none _ hempty
  induction hn with
  | refl => exact h.entry_visited
  | tail _ hlink ih =>
    rcases h.closed _ ih with ⟨c, hc, _⟩ | hf | hall
    · rw [hnil] at hc
      exact absurd hc List.not_mem_nil
    · exact hf.elim
    · exact hall _ hlink.1 hlink.2

/-! ## The start -/

theorem visited_beamInit (hentry : entry < g.nodeCount) {n : Nat} :
    (g.beamInit P metric query entry isAdmissible).Visited n ↔ n = entry := by
  have hlen : entry < (List.replicate g.nodeCount false).length := by simpa using hentry
  rw [BeamState.Visited, beamInit, visited_set hlen, List.getElem?_replicate]
  simp

theorem mem_result_beamInit {c : Candidate} :
    c ∈ P.result.toList (g.beamInit P metric query entry isAdmissible).result ↔
      c = g.candidateOf P metric query entry ∧ g.Eligible isAdmissible entry := by
  unfold beamInit
  dsimp only
  split
  · next hcond =>
    rw [Bool.and_eq_true, Bool.not_eq_true'] at hcond
    rw [P.result.mem_push, P.result.toList_empty]
    exact ⟨fun h => ⟨h.resolve_right List.not_mem_nil, hcond⟩, fun h => Or.inl h.1⟩
  · next hcond =>
    rw [Bool.and_eq_true, Bool.not_eq_true'] at hcond
    rw [P.result.toList_empty]
    exact ⟨fun h => absurd h List.not_mem_nil, fun h => absurd h.2 hcond⟩

theorem nodup_result_beamInit :
    (P.result.toList (g.beamInit P metric query entry isAdmissible).result).Nodup := by
  unfold beamInit
  dsimp only
  split
  · rw [(P.result.toList_push _ _).nodup_iff, P.result.toList_empty]
    exact List.nodup_singleton _
  · rw [P.result.toList_empty]
    exact List.nodup_nil

end loop

/-! ## The contract -/

section contract

variable (P : Platform) (g : HnswGraph) (metric : Metric) (query : List F32)
  (ef layer entry : Nat) (isAdmissible : VectorId → Bool)

theorem beamInv_init (hef : 1 ≤ ef) (hentry : entry < g.nodeCount) :
    BeamInv P g metric query ef layer entry isAdmissible (fun _ => False)
      (g.beamInit P metric query entry isAdmissible) := by
  have hvis : ∀ {n}, (g.beamInit P metric query entry isAdmissible).Visited n ↔ n = entry :=
    visited_beamInit hentry
  have hfront : ∀ c, c ∈ P.frontier.toList (P.frontier.push P.frontier.empty
      (g.candidateOf P metric query entry)) ↔ c = g.candidateOf P metric query entry := by
    intro c
    rw [P.frontier.mem_push, P.frontier.toList_empty]
    simp
  refine ⟨?_, hvis.mpr rfl, ?_, ?_, ?_, ?_, ?_, ?_, ?_, ?_, ?_, ?_⟩
  · simp [beamInit]
  · intro c hc
    rw [(hfront c).mp hc]
    exact hvis.mpr rfl
  · intro c hc
    rw [(mem_result_beamInit.mp hc).1]
    rfl
  · intro c hc
    rw [(mem_result_beamInit.mp hc).1]
    exact hvis.mpr rfl
  · intro c hc
    rw [(mem_result_beamInit.mp hc).1]
    exact (mem_result_beamInit.mp hc).2
  · exact List.Nodup.map_on
      (fun x hx y hy _ => (mem_result_beamInit.mp hx).1.trans (mem_result_beamInit.mp hy).1.symm)
      nodup_result_beamInit
  · have hsub : P.result.toList (g.beamInit P metric query entry isAdmissible).result ⊆
        [g.candidateOf P metric query entry] :=
      fun c hc => List.mem_singleton.mpr (mem_result_beamInit.mp hc).1
    exact le_trans (nodup_result_beamInit.length_le_of_subset hsub) hef
  · intro n hn
    rw [hvis.mp hn]
    exact Relation.ReflTransGen.refl
  · intro n hn
    rw [hvis.mp hn]
    exact Or.inl ⟨_, (hfront _).mpr rfl, rfl⟩
  · intro n hn hel
    rw [hvis.mp hn] at hel
    exact List.ne_nil_of_mem (mem_result_beamInit.mpr ⟨rfl, hel⟩)
  · intro _ n hn hel
    have hne := hvis.mp hn
    rw [hne] at hel
    exact ⟨_, mem_result_beamInit.mpr ⟨rfl, hel⟩, hne.symm⟩

theorem measure_init (hentry : entry < g.nodeCount) :
    (g.beamInit P metric query entry isAdmissible).measure < g.nodeCount + 1 := by
  have hcount : ((List.replicate g.nodeCount false).set entry true).count false + 1
      = g.nodeCount := by
    rw [List.count_set (by simpa using hentry)]
    simp
    omega
  simp only [BeamState.measure, beamInit, PriorityQueue.len_push, PriorityQueue.len_empty]
  omega

/-- **Beam search.**  From an entry in range the search answers, and its answer
    meets the contract. -/
theorem beamSearch_spec (hef : 1 ≤ ef) (hentry : entry < g.nodeCount) :
    ∃ out, g.beamSearch P metric query entry ef layer isAdmissible = some out ∧
      BeamSpec P g metric query entry ef layer isAdmissible out := by
  obtain ⟨hinv, hstop⟩ := beamLoop_spec hef (g.nodeCount + 1)
    (beamInv_init P g metric query ef layer entry isAdmissible hef hentry)
    (measure_init P g metric query entry isAdmissible hentry)
  set st := beamLoop P g metric query ef layer isAdmissible (g.nodeCount + 1)
    (g.beamInit P metric query entry isAdmissible) with hst
  refine ⟨_, if_pos hentry, ?_⟩
  rw [← hst]
  have hnonempty : ∀ n, g.Reach layer entry n → g.Eligible isAdmissible n →
      P.result.toList st.result ≠ [] := by
    intro n hn hel
    rcases hstop with hempty | hfull
    · exact hinv.nonempty n (hinv.all_visited hempty hn) hel
    · -- a full result is not empty, since `ef` is positive
      intro hnil
      simp only [PriorityQueue.len, hnil, List.length_nil] at hfull
      omega
  have hcomplete : g.WithinBeam layer entry ef isAdmissible → ∀ n, g.Reach layer entry n →
      g.Eligible isAdmissible n → ∃ c ∈ P.result.toList st.result, c.node = n := by
    intro hcap n hn hel
    rcases hstop with hempty | hfull
    · exact hinv.complete hcap n (hinv.all_visited hempty hn) hel
    · -- the early exit loses nothing: a full result already holds every eligible node
      by_contra hnone
      have := hinv.room hcap hn hel (fun c hc hcn => hnone ⟨c, hc, hcn⟩)
      omega
  refine ⟨sortBy_sorted _ _, ?_, ?_, ?_, ?_, ?_, ?_, ?_, ?_⟩
  · exact ((sortBy_perm _ _).map _).nodup_iff.mpr hinv.result_nodup
  · rw [length_sortBy]
    exact hinv.result_len
  · intro c hc
    exact hinv.result_candidate c (mem_sortBy.mp hc)
  · intro c hc
    exact hinv.reach _ (hinv.result_visited c (mem_sortBy.mp hc))
  · intro c hc
    exact visited_lt hinv (hinv.result_visited c (mem_sortBy.mp hc))
  · intro c hc
    exact hinv.result_eligible c (mem_sortBy.mp hc)
  · intro n hn hel hnil
    have hlen := length_sortBy Candidate.cmp (P.result.toList st.result)
    rw [hnil] at hlen
    exact hnonempty n hn hel (List.eq_nil_of_length_eq_zero hlen.symm)
  · intro hcap n hn hel
    obtain ⟨c, hc, hcn⟩ := hcomplete hcap n hn hel
    have hcand := hinv.result_candidate c hc
    rw [mem_sortBy, ← hcn, ← hcand]
    exact hc

end contract

end HnswGraph

end EidosDB
