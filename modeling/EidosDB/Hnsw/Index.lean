import EidosDB.Hnsw.Search
import EidosDB.Core.Flat

/-! # The HNSW Index

    `HnswIndex` with its operations as the code computes them.  An operation
    answers `none` where the code panics (an index out of bounds in the beam
    search).  The level sampler's logarithm is passed to each call, so that
    a run may be given any level at any insert.

    Node numbers, counts and layers are `usize` values that fit `u64`; the
    conversions between the two are the identity on the 64-bit targets the
    code supports and are left out. -/

namespace EidosDB

/-- `HnswIndex` -/
structure HnswIndex where
  config : HnswConfig
  dimension : Dimension
  graph : HnswGraph
  rng : SplitMix64

/-- `InsertDelta` -/
structure InsertDelta where
  newNodeIdx : Nat
  touchedNodes : List Nat
  entryChanged : Bool
  deriving DecidableEq, Repr

/-- `RemoveDelta` -/
structure RemoveDelta where
  touchedNodes : List Nat
  entryChanged : Bool
  deriving DecidableEq, Repr

/-- `SnapshotNode`; `idBytes` are the sixteen bytes read as a number. -/
structure SnapshotNode where
  idBytes : Fin 340282366920938463463374607431768211456
  level : Nat
  tombstone : Bool
  neighborsPerLayer : List (List Nat)
  deriving DecidableEq, Repr

/-- `GraphSnapshot` -/
@[ext] structure GraphSnapshot where
  nodes : List SnapshotNode
  entryPoint : Option Nat
  entryLevel : Nat
  rngState : BitVec 64
  liveCount : Nat
  deriving DecidableEq, Repr

/-- `u32::try_from(n).unwrap_or(default)` -/
def u32OrElse (n default : Nat) : Nat := if n ≤ u32Max then n else default

namespace HnswIndex

/-- `HnswIndex::new` -/
def new (config : HnswConfig) (dimension : Dimension) : HnswIndex :=
  { config := config, dimension := dimension, graph := HnswGraph.new
    rng := SplitMix64.new config.seed }

def len (self : HnswIndex) : Nat := self.graph.liveCount

/-! ## Linking a new node -/

section link

variable (P : Platform) (metric : Metric)

/-- The list of `sel` after the new node was offered to it: pruned by the
    heuristic when it overflows. -/
def relink (g : HnswGraph) (limit newNode layer sel : Nat) : List Nat :=
  let selNeighbors := g.neighbors sel layer ++ [newNode]
  if limit < selNeighbors.length then
    -- the scores are those against `sel`, not against the new node
    let pruningCandidates :=
      sortBy Candidate.cmp (selNeighbors.map (g.candidateOf P metric (g.embeddingOf sel)))
    g.selectNeighborsHeuristic P metric pruningCandidates limit
  else selNeighbors

/-- `touched.insert(n)` on a `BTreeSet` listed in ascending order. -/
def touch (touched : List Nat) (n : Nat) : List Nat :=
  if n ∈ touched then touched else touched.orderedInsert (· ≤ ·) n

/-- The body of `for &sel in &selected`. -/
def linkBack (limit newNode layer : Nat) (st : HnswGraph × List Nat) (sel : Nat) :
    HnswGraph × List Nat :=
  (st.1.setNeighbors sel layer (relink P metric st.1 limit newNode layer sel), touch st.2 sel)

/-- What the layer loop carries. -/
structure LinkState where
  graph : HnswGraph
  current : Nat
  touched : List Nat

/-- The candidates of one layer. -/
def layerCandidates (config : HnswConfig) (query : List F32) (st : LinkState) (layer : Nat) :
    Option (List Candidate) :=
  st.graph.beamSearch P metric query st.current config.efConstruction layer (fun _ => true)

/-- The body of the layer loop. -/
def linkLayer (config : HnswConfig) (query : List F32) (newNode layer : Nat) (st : LinkState) :
    Option LinkState :=
  (layerCandidates P metric config query st layer).map fun candidates =>
    let limit := config.limit layer
    let selected := st.graph.selectNeighborsHeuristic P metric candidates limit
    -- the list of the new node comes first, then those of the selected ones
    let linked := selected.foldl (linkBack P metric limit newNode layer)
      (st.graph.setNeighbors newNode layer selected, st.touched)
    { graph := linked.1, touched := linked.2
      current := (candidates.head?.map (fun c => c.node)).getD st.current }

/-- The layers below `count`, from the top. -/
def linkLayers (config : HnswConfig) (query : List F32) (newNode : Nat) :
    Nat → LinkState → Option LinkState
  | 0, st => some st
  | count + 1, st =>
      (linkLayer P metric config query newNode count st).bind
        (linkLayers config query newNode count)

end link

/-! ## Insert and remove -/

variable (P : Platform)

/-- What `insert_tracked` does once a level is drawn and the checks passed. -/
def insertAt (self : HnswIndex) (id : VectorId) (embedding : Embedding) (level : Nat) :
    Option (Except IndexError InsertDelta × HnswIndex) :=
  let entryBefore := self.graph.entryPoint
  match self.graph.addNode id embedding level with
  | .error e => some (.error e, self)
  | .ok (newNode, graph) =>
      match graph.entryPoint with
      | none =>
          -- the first node has nothing to link to
          some (.ok { newNodeIdx := newNode, touchedNodes := [newNode], entryChanged := true },
            { self with graph := graph.setEntryPoint (some newNode) })
      | some entry =>
          let entryLevel := graph.nodeLevel entry
          let metric := self.config.metric
          let q := embedding.values
          -- the descent ends above the layers the node is linked at
          let current :=
            if level < entryLevel then graph.greedyDescent P metric q entry entryLevel (level + 1)
            else entry
          (linkLayers P metric self.config q newNode (min level entryLevel + 1)
            { graph := graph, current := current, touched := touch [] newNode }).map fun st =>
              let raised := decide (entryLevel < level)
              let graph := if raised then st.graph.setEntryPoint (some newNode) else st.graph
              (.ok { newNodeIdx := newNode, touchedNodes := st.touched
                     entryChanged := raised || decide (st.graph.entryPoint ≠ entryBefore) },
                { self with graph := graph })

/-- `insert_tracked` -/
def insertTracked (levelFloat : LevelFloat) (self : HnswIndex) (id : VectorId)
    (embedding : Embedding) : Option (Except IndexError InsertDelta × HnswIndex) :=
  if embedding.dimension ≠ self.dimension.get then
    some (.error (.dimensionMismatch self.dimension.get embedding.dimension), self)
  else if (self.graph.idToNode id).isSome then
    some (.error (.duplicateId id), self)
  else
    -- the level is drawn after the checks: a rejected insert draws none
    let (level, rng) := self.rng.nextLevel levelFloat self.config.m
    insertAt P { self with rng := rng } id embedding level

/-- `VectorIndex::insert` -/
def insert (levelFloat : LevelFloat) (self : HnswIndex) (id : VectorId) (embedding : Embedding) :
    Option (Except IndexError Unit × HnswIndex) :=
  (self.insertTracked P levelFloat id embedding).map fun r => (r.1.map (fun _ => ()), r.2)

/-- `max_by_key` of the level: the last of the maximal elements. -/
def maxByLevel (l : List HnswGraph.LiveNode) : Option HnswGraph.LiveNode :=
  l.foldl (fun best x =>
    match best with
    | none => some x
    | some b => if b.level ≤ x.level then some x else some b) none

/-- `remove_tracked` -/
def removeTracked (self : HnswIndex) (id : VectorId) :
    Except IndexError (Option RemoveDelta) × HnswIndex :=
  match self.graph.idToNode id with
  | none => (.ok none, self)
  | some node =>
      let wasEntry := decide (self.graph.entryPoint = some node)
      let (becameTombstone, graph) := self.graph.tombstone node
      if !becameTombstone then (.ok none, { self with graph := graph })
      else
        -- a live node of the highest level takes the entry's place
        let graph := if wasEntry
          then graph.setEntryPoint ((maxByLevel graph.liveNodes).map (fun x => x.idx)) else graph
        (.ok (some { touchedNodes := [node], entryChanged := wasEntry }),
          { self with graph := graph })

/-- `VectorIndex::remove` -/
def remove (self : HnswIndex) (id : VectorId) : Except IndexError Bool × HnswIndex :=
  let r := self.removeTracked id
  (r.1.map Option.isSome, r.2)

/-- `bulk_insert`: the first error ends the pass, nothing is rolled back. -/
def bulkInsert (levelFloat : LevelFloat) : HnswIndex → List (VectorId × Embedding) →
    Option (Except IndexError Unit × HnswIndex)
  | self, [] => some (.ok (), self)
  | self, (id, embedding) :: rest =>
      (self.insert P levelFloat id embedding).bind fun r =>
        match r.1 with
        | .error e => some (.error e, r.2)
        | .ok () => bulkInsert levelFloat r.2 rest

/-- The live points in node order, each embedding validated again. -/
def livePoints (self : HnswIndex) : Except IndexError (List (VectorId × Embedding)) :=
  self.graph.liveNodes.mapM (fun x => (Embedding.new x.embedding).map (fun e => (x.id, e)))

/-- `compact` -/
def compact (levelFloat : LevelFloat) (self : HnswIndex) :
    Option (Except IndexError Unit × HnswIndex) :=
  match self.livePoints with
  | .error e => some (.error e, self)
  | .ok live =>
      -- the generator starts over from the seed
      bulkInsert P levelFloat
        { self with rng := SplitMix64.new self.config.seed, graph := HnswGraph.new } live

/-! ## Search -/

/-- `search_filtered` -/
def searchFiltered (self : HnswIndex) (query : Embedding) (k : Nat) (metric : Metric)
    (isAdmissible : VectorId → Bool) : Option (Except IndexError (List Neighbor)) :=
  if query.dimension ≠ self.dimension.get then
    some (.error (.dimensionMismatch self.dimension.get query.dimension))
  else if metric ≠ self.config.metric then
    some (.error (.unsupportedMetric metric))
  else
    match self.graph.entryPoint with
    | none => some (.ok [])
    | some entry =>
        let entryLevel := self.graph.nodeLevel entry
        let q := query.values
        let ef := max self.config.efSearch k
        let current :=
          if 0 < entryLevel then self.graph.greedyDescent P metric q entry entryLevel 1 else entry
        -- the candidates come sorted; the code takes `k`, sorts and takes again
        (self.graph.beamSearch P metric q current ef 0 isAdmissible).map fun candidates =>
          let results := (candidates.take k).map (fun c => { id := c.id, score := c.score })
          .ok ((sortBy Neighbor.cmp results).take k)

/-! ## Snapshots -/

/-- `node_snapshot` -/
def nodeSnapshot (self : HnswIndex) (idx : Nat) : Option SnapshotNode :=
  if self.graph.nodeCount ≤ idx then none
  else
    let level := self.graph.nodeLevel idx
    some
      { idBytes := ((self.graph.nodeId idx).map (fun id => id.uuid)).getD 0
        level := u32OrElse level u32Max
        tombstone := self.graph.isTombstone idx
        neighborsPerLayer := (List.range (level + 1)).map (self.graph.neighbors idx) }

/-- `state_meta`: entry point, its level, generator state and node count. -/
def stateMeta (self : HnswIndex) : Option Nat × Nat × BitVec 64 × Nat :=
  (self.graph.entryPoint,
    self.graph.entryPoint.elim 0 (fun ep => u32OrElse (self.graph.nodeLevel ep) 0),
    self.rng.state, self.graph.nodeCount)

/-- `snapshot` -/
def snapshot (self : HnswIndex) : GraphSnapshot :=
  let snapNodes := (List.range self.graph.nodeCount).filterMap self.nodeSnapshot
  let (entryPoint, entryLevel, rngState, _) := self.stateMeta
  { nodes := snapNodes, entryPoint := entryPoint, entryLevel := entryLevel, rngState := rngState
    liveCount := (snapNodes.filter (fun n => !n.tombstone)).length }

/-- Write back the lists of one node. -/
def restoreLists (idx : Nat) (lists : List (List Nat)) (g : HnswGraph) : HnswGraph :=
  lists.zipIdx.foldl (fun g p => g.setNeighbors idx p.2 p.1) g

/-- The body of the `from_snapshot` loop. -/
def restoreNode (embeddings : Nat → Option (List F32)) (idx : Nat) (node : SnapshotNode)
    (g : HnswGraph) : Except IndexError HnswGraph :=
  match embeddings idx with
  | none => .error (.backend ("missing embedding for node " ++ toString idx))
  | some values => do
      let embedding ← Embedding.new values
      -- the number of the node is its place in the snapshot
      let (_, g) ← g.addNode ⟨node.idBytes⟩ embedding node.level
      let g := if node.tombstone then (g.tombstone idx).2 else g
      return restoreLists idx node.neighborsPerLayer g

/-- The `from_snapshot` loop, from node `idx` on. -/
def restoreNodes (embeddings : Nat → Option (List F32)) :
    Nat → List SnapshotNode → HnswGraph → Except IndexError HnswGraph
  | _, [], g => .ok g
  | idx, node :: rest, g => do
      let g ← restoreNode embeddings idx node g
      restoreNodes embeddings (idx + 1) rest g

/-- `from_snapshot` -/
def fromSnapshot (config : HnswConfig) (dimension : Dimension) (snapshot : GraphSnapshot)
    (embeddings : Nat → Option (List F32)) : Except IndexError HnswIndex := do
  let graph ← restoreNodes embeddings 0 snapshot.nodes HnswGraph.new
  return { config := config, dimension := dimension
           graph := graph.setEntryPoint snapshot.entryPoint
           rng := SplitMix64.fromState snapshot.rngState }

end HnswIndex

/-! ## Runs -/

/-- A call that writes to an index. -/
inductive HnswOp where
  | insert (id : VectorId) (embedding : Embedding)
  | remove (id : VectorId)
  | compact

/-- What a writing call answers. -/
inductive Answer where
  | done (result : Except IndexError Unit)
  | removed (result : Except IndexError Bool)

namespace HnswIndex

variable (P : Platform)

/-- One call, with the logarithm the sampler uses in it. -/
def step (levelFloat : LevelFloat) (self : HnswIndex) : HnswOp → Option (Answer × HnswIndex)
  | .insert id embedding =>
      (self.insert P levelFloat id embedding).map fun r => (.done r.1, r.2)
  | .remove id => some (.removed (self.remove id).1, (self.remove id).2)
  | .compact => (self.compact P levelFloat).map fun r => (.done r.1, r.2)

/-- A run of calls, with the answers in order. -/
def run : HnswIndex → List (LevelFloat × HnswOp) → Option (List Answer × HnswIndex)
  | self, [] => some ([], self)
  | self, call :: rest =>
      (self.step P call.1 call.2).bind fun r =>
        (run r.2 rest).map fun r' => (r.1 :: r'.1, r'.2)

/-- The states some run reaches from `new`, whatever levels were sampled. -/
inductive Reachable (config : HnswConfig) (dimension : Dimension) : HnswIndex → Prop where
  | init : Reachable config dimension (new config dimension)
  | step {s s' : HnswIndex} {answer : Answer} (levelFloat : LevelFloat) (op : HnswOp) :
      Reachable config dimension s → s.step P levelFloat op = some (answer, s') →
      Reachable config dimension s'

end HnswIndex

end EidosDB
