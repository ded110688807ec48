import EidosDB.Hnsw.Graph
import EidosDB.Lib.PriorityQueue

/-! # Search Primitives

    Greedy descent, beam search and the neighbor selection heuristic, as the
    index uses them.  The two binary heaps of the beam search are any
    `PriorityQueue`s, so no result depends on how the standard library orders
    equal candidates.

    A loop of the source without a bound runs on fuel here; its lemma says
    that the fuel given is enough for the loop to end by its own test. -/

namespace EidosDB

/-! ## Candidates -/

structure Candidate where
  score : F32
  node : Nat
  id : VectorId
  deriving DecidableEq, Repr

namespace Candidate

/-- `Ord for Candidate`: the closer one is greater, ties go to the lower id. -/
def order (a b : Candidate) : Ordering :=
  (F32.totalCmp a.score b.score).then (compare b.id a.id)

/-- `a <= b` -/
def le (a b : Candidate) : Bool := (order a b).isLE

/-- `Reverse(a) <= Reverse(b)` -/
def leReverse (a b : Candidate) : Bool := le b a

/-- The comparator of the candidate lists. -/
def cmp (a b : Candidate) : Ordering := closestFirst a.score a.id b.score b.id

theorem le_iff {a b : Candidate} : le a b = true ↔
    a.score.totalKey < b.score.totalKey ∨ (a.score = b.score ∧ b.id ≤ a.id) := by
  have := @closestFirst_isLE b.score a.score b.id a.id
  rw [eq_comm (a := a.score)]
  exact this

theorem before_iff {a b : Candidate} : Before cmp a b ↔
    b.score.totalKey < a.score.totalKey ∨ (a.score = b.score ∧ a.id ≤ b.id) :=
  closestFirst_isLE

theorem total (a b : Candidate) : le a b = true ∨ le b a = true := by
  rw [le_iff, le_iff]
  rcases lt_trichotomy a.score.totalKey b.score.totalKey with h | h | h
  · exact Or.inl (Or.inl h)
  · have hs := F32.totalKey_injective h
    exact (le_total b.id a.id).imp (fun hi => Or.inr ⟨hs, hi⟩)
      (fun hi => Or.inr ⟨hs.symm, hi⟩)
  · exact Or.inr (Or.inl h)

theorem trans (a b c : Candidate) (hab : le a b = true) (hbc : le b c = true) :
    le a c = true := by
  rw [le_iff] at hab hbc ⊢
  rcases hab with hab | ⟨hab, hid⟩
  · rcases hbc with hbc | ⟨hbc, _⟩
    · exact Or.inl (lt_trans hab hbc)
    · exact Or.inl (hbc ▸ hab)
  · rcases hbc with hbc | ⟨hbc, hid'⟩
    · exact Or.inl (hab ▸ hbc)
    · exact Or.inr ⟨hab.trans hbc, le_trans hid' hid⟩

instance : Std.Total (Before cmp) where
  total a b := by
    rw [before_iff, before_iff]
    rcases lt_trichotomy a.score.totalKey b.score.totalKey with h | h | h
    · exact Or.inr (Or.inl h)
    · have hs := F32.totalKey_injective h
      exact (le_total a.id b.id).imp (fun hi => Or.inr ⟨hs, hi⟩)
        (fun hi => Or.inr ⟨hs.symm, hi⟩)
    · exact Or.inl (Or.inl h)

instance : IsTrans Candidate (Before cmp) where
  trans a b c hab hbc := by
    rw [before_iff] at hab hbc ⊢
    rcases hab with hab | ⟨hab, hid⟩
    · rcases hbc with hbc | ⟨hbc, _⟩
      · exact Or.inl (lt_trans hbc hab)
      · exact Or.inl (hbc ▸ hab)
    · rcases hbc with hbc | ⟨hbc, hid'⟩
      · exact Or.inl (hab ▸ hbc)
      · exact Or.inr ⟨hab.trans hbc, le_trans hid hid'⟩

end Candidate

/-- What the code takes from the processor and the standard library. -/
structure Platform where
  f32 : F32Ops
  /-- `BinaryHeap<Candidate>` -/
  frontier : PriorityQueue Candidate Candidate.le
  /-- `BinaryHeap<Reverse<Candidate>>` -/
  result : PriorityQueue Candidate Candidate.leReverse

/-- A platform to evaluate the model on: list queues and small integers. -/
def Platform.small : Platform where
  f32 := F32Ops.small
  frontier := PriorityQueue.ofList _ Candidate.total Candidate.trans
  result := PriorityQueue.ofList _ (fun a b => Candidate.total b a)
    (fun a b c hab hbc => Candidate.trans c b a hbc hab)

namespace HnswGraph

variable (P : Platform) (g : HnswGraph) (metric : Metric)

/-- The embedding of a node, `&[]` if there is none. -/
def embeddingOf (n : Nat) : List F32 := (g.nodeEmbedding n).getD []

/-- The id of a node, the nil id if there is none. -/
def idOf (n : Nat) : VectorId := (g.nodeId n).getD nilId

/-- A node as a candidate for `query`. -/
def candidateOf (query : List F32) (n : Nat) : Candidate :=
  { score := metric.score P.f32 query (g.embeddingOf n), node := n, id := g.idOf n }

/-! ## Greedy descent -/

/-- One pass over the neighbors of the node the pass started from. -/
def greedyPass (query : List F32) :
    List Nat → Nat × F32 × Bool → Nat × F32 × Bool
  | [], st => st
  | neighbor :: rest, (current, currentScore, improved) =>
      let s := metric.score P.f32 query (g.embeddingOf neighbor)
      let isTie := F32.totalCmp s currentScore == .eq
      if s.gt currentScore || (isTie && decide (g.idOf neighbor < g.idOf current)) then
        greedyPass query rest (neighbor, s, true)
      else
        greedyPass query rest (current, currentScore, improved)

/-- The `loop` at one layer. -/
def greedyLoop (query : List F32) (layer : Nat) : Nat → Nat × F32 → Nat × F32
  | 0, st => st
  | fuel + 1, (current, currentScore) =>
      let (current', score', improved) :=
        greedyPass P g metric query (g.neighbors current layer) (current, currentScore, false)
      if improved then greedyLoop query layer fuel (current', score') else (current', score')

/-- Enough for `greedyLoop` on any graph: a pass that improves never comes back
    to the same score and id. -/
def greedyFuel : Nat := g.nodeCount + 2

/-- The layers `to_layer..=from_layer`, from the top; `count` are left. -/
def greedyLayers (query : List F32) (toLayer : Nat) : Nat → Nat × F32 → Nat × F32
  | 0, st => st
  | count + 1, st =>
      greedyLayers query toLayer count (greedyLoop P g metric query (toLayer + count) g.greedyFuel st)

/-- `greedy_descent` -/
def greedyDescent (query : List F32) (entry fromLayer toLayer : Nat) : Nat :=
  (greedyLayers P g metric query toLayer (fromLayer + 1 - toLayer)
    (entry, metric.score P.f32 query (g.embeddingOf entry))).1

/-! ## Beam search -/

structure BeamState where
  visited : List Bool
  frontier : P.frontier.Heap
  result : P.result.Heap

/-- Score of the worst candidate in the result heap. -/
def worstInResult (result : P.result.Heap) : F32 :=
  (P.result.peek result).elim F32.negInfinity (fun c => c.score)

/-- `while result.len() > ef { result.pop(); }` -/
def evict (ef : Nat) : Nat → P.result.Heap → P.result.Heap
  | 0, result => result
  | fuel + 1, result =>
      if ef < P.result.len result then
        match P.result.pop result with
        | none => result
        | some (_, result') => evict ef fuel result'
      else result

/-- The body of the inner `for`. -/
def visitNeighbor (query : List F32) (ef : Nat) (isAdmissible : VectorId → Bool)
    (st : BeamState P) (neighbor : Nat) : BeamState P :=
  if st.visited.length ≤ neighbor ∨ st.visited[neighbor]? = some true then st
  else
    let visited := st.visited.set neighbor true
    let c := g.candidateOf P metric query neighbor
    let frontier := P.frontier.push st.frontier c
    if !g.isTombstone neighbor && isAdmissible c.id &&
        (decide (P.result.len st.result < ef) || c.score.gt (worstInResult P st.result)) then
      let result := P.result.push st.result c
      { visited := visited, frontier := frontier
        result := evict P ef (P.result.len result) result }
    else
      { visited := visited, frontier := frontier, result := st.result }

/-- The `while let`: stop when the frontier is empty or cannot improve a full
    result. -/
def beamLoop (query : List F32) (ef layer : Nat) (isAdmissible : VectorId → Bool) :
    Nat → BeamState P → BeamState P
  | 0, st => st
  | fuel + 1, st =>
      match P.frontier.pop st.frontier with
      | none => st
      | some (candidate, frontier) =>
          if ef ≤ P.result.len st.result && candidate.score.lt (worstInResult P st.result) then st
          else
            beamLoop query ef layer isAdmissible fuel
              ((g.neighbors candidate.node layer).foldl
                (visitNeighbor P g metric query ef isAdmissible) { st with frontier := frontier })

/-- The state before the loop. -/
def beamInit (query : List F32) (entry : Nat) (isAdmissible : VectorId → Bool) : BeamState P :=
  let c := g.candidateOf P metric query entry
  { visited := (List.replicate g.nodeCount false).set entry true
    frontier := P.frontier.push P.frontier.empty c
    result := if !g.isTombstone entry && isAdmissible c.id
      then P.result.push P.result.empty c else P.result.empty }

/-- `beam_search`; `none` is the panic of `visited[entry]` out of bounds. -/
def beamSearch (query : List F32) (entry ef layer : Nat) (isAdmissible : VectorId → Bool) :
    Option (List Candidate) :=
  if entry < g.nodeCount then
    some (sortBy Candidate.cmp (P.result.toList
      (beamLoop P g metric query ef layer isAdmissible (g.nodeCount + 1)
        (g.beamInit P metric query entry isAdmissible)).result))
  else none

/-! ## Neighbor selection -/

/-- The `'outer` loop; `selected` are the nodes kept so far. -/
def selectLoop (mMax : Nat) : List Nat → List Candidate → List Nat
  | selected, [] => selected
  | selected, candidate :: rest =>
      if mMax ≤ selected.length then selected
      else if selected.any (fun sel =>
          (metric.score P.f32 (g.embeddingOf candidate.node) (g.embeddingOf sel)).gt
            candidate.score) then
        selectLoop mMax selected rest
      else selectLoop mMax (selected ++ [candidate.node]) rest

/-- `select_neighbors_heuristic` -/
def selectNeighborsHeuristic (candidates : List Candidate) (mMax : Nat) : List Nat :=
  selectLoop P g metric mMax [] candidates

end HnswGraph

end EidosDB
