import EidosDB.Hnsw.Snapshot
import EidosDB.Lib.OrderedTable
import EidosDB.Storage.Postcard

/-! # The Tables of a Graph

    A persistent graph lives in three tables of one database: a row for each
    node, a row for each list of each node, and two rows of parameters and
    state.  Keys and values are encoded rows, over any encoding.

    An insert or a removal writes only the rows of the nodes it touched.
    `Holds` says that the tables hold a snapshot; writing the rows of the
    touched nodes takes the tables from one snapshot to the next when the
    snapshots agree everywhere else, and opening reads back exactly the
    snapshot the tables hold. -/

namespace EidosDB

open Bytes

/-! ## Rows -/

structure NodeRow where
  idBytes : Fin 340282366920938463463374607431768211456
  level : Nat
  tombstone : Bool
  deriving DecidableEq, Repr

structure AdjKey where
  nodeIdx : Nat
  layer : Nat
  deriving DecidableEq, Repr

structure MetaConfig where
  metricByte : Byte
  dimension : U32
  m : Nat
  efConstruction : Nat
  efSearch : Nat
  seed : BitVec 64
  deriving DecidableEq, Repr

structure MetaState where
  entryPoint : Option Nat
  entryLevel : Nat
  rngState : BitVec 64
  nodeCount : Nat
  deriving DecidableEq, Repr

/-- The encodings of the keys and rows. -/
structure HnswCodec where
  nodeIdx : Codec Nat
  nodeRow : Codec NodeRow
  adjKey : Codec AdjKey
  neighbors : Codec (List Nat)
  metaConfig : Codec MetaConfig
  metaState : Codec MetaState

/-- The encodings as the stores use them: the fields of a row one after the
    other, numbers as varints. -/
def HnswCodec.postcard : HnswCodec where
  nodeIdx := .postcard .varint
  nodeRow := .postcard (((Wire.fixed 16 rfl).pair (Wire.varint.pair .bool)).map
    (fun p => some { idBytes := p.1, level := p.2.1, tombstone := p.2.2 })
    (fun r => (r.idBytes, r.level, r.tombstone)) (fun _ => rfl))
  adjKey := .postcard ((Wire.varint.pair .varint).map
    (fun p => some { nodeIdx := p.1, layer := p.2 })
    (fun k => (k.nodeIdx, k.layer)) (fun _ => rfl))
  neighbors := .postcard Wire.varint.list
  metaConfig := .postcard ((Wire.byte.pair ((Wire.fin 4294967296).pair
      (Wire.varint.pair (Wire.varint.pair (Wire.varint.pair (.word 64)))))).map
    (fun p => some
      { metricByte := p.1, dimension := p.2.1, m := p.2.2.1, efConstruction := p.2.2.2.1
        efSearch := p.2.2.2.2.1, seed := p.2.2.2.2.2 })
    (fun r => (r.metricByte, r.dimension, r.m, r.efConstruction, r.efSearch, r.seed))
    (fun _ => rfl))
  metaState := .postcard ((Wire.varint.option.pair
      (Wire.varint.pair ((Wire.word 64).pair .varint))).map
    (fun p => some
      { entryPoint := p.1, entryLevel := p.2.1, rngState := p.2.2.1, nodeCount := p.2.2.2 })
    (fun r => (r.entryPoint, r.entryLevel, r.rngState, r.nodeCount)) (fun _ => rfl))

/-- The row of a node. -/
def SnapshotNode.row (node : SnapshotNode) : NodeRow :=
  { idBytes := node.idBytes, level := node.level, tombstone := node.tombstone }

/-- The key of a list. -/
def adjKeyAt (nodeIdx layer : Nat) : AdjKey :=
  { nodeIdx := nodeIdx, layer := u32OrElse layer u32Max }

/-- The state row of a snapshot. -/
def GraphSnapshot.stateRow (snap : GraphSnapshot) : MetaState :=
  { entryPoint := snap.entryPoint, entryLevel := snap.entryLevel, rngState := snap.rngState
    nodeCount := snap.nodes.length }

/-- The state row of an index, from `state_meta`. -/
def HnswIndex.stateRow (self : HnswIndex) : MetaState :=
  let (entryPoint, entryLevel, rngState, nodeCount) := self.stateMeta
  { entryPoint := entryPoint, entryLevel := entryLevel, rngState := rngState
    nodeCount := nodeCount }

/-- The config row of a new store. -/
def HnswConfig.row (config : HnswConfig) (dimension : U32) : MetaConfig :=
  { metricByte := metricToU8 config.metric, dimension := dimension, m := config.m
    efConstruction := config.efConstruction, efSearch := config.efSearch, seed := config.seed }

/-! ## The database -/

abbrev ByteTable := OrderedTable (List Byte) (List Byte)

/-- The table `hnsw_meta`, by key. -/
structure MetaTable where
  config : Option (List Byte)
  state : Option (List Byte)

/-- A table is `none` until a transaction opens it for writing. -/
structure HnswDb where
  adjacency : Option ByteTable
  nodes : Option ByteTable
  metaRows : Option MetaTable

namespace HnswDb

/-- A database file without tables. -/
def fresh : HnswDb := { adjacency := none, nodes := none, metaRows := none }

def nodeTable (self : HnswDb) : ByteTable := self.nodes.getD .empty

def adjacencyTable (self : HnswDb) : ByteTable := self.adjacency.getD .empty

def metaTable (self : HnswDb) : MetaTable := self.metaRows.getD { config := none, state := none }

section Transactions

variable (pc : HnswCodec)

/-- The entry of a node in `hnsw_nodes`. -/
def nodeEntry (nodeIdx : Nat) (node : SnapshotNode) : List Byte × List Byte :=
  (pc.nodeIdx.encode nodeIdx, pc.nodeRow.encode node.row)

/-- The entries of a node in `hnsw_adjacency`. -/
def adjEntries (nodeIdx : Nat) (node : SnapshotNode) : List (List Byte × List Byte) :=
  node.neighborsPerLayer.zipIdx.map fun p =>
    (pc.adjKey.encode (adjKeyAt nodeIdx p.2), pc.neighbors.encode p.1)

/-- The nodes of a list of numbers that `node_snapshot` answers for. -/
def snapshotsOf (graph : HnswIndex) (touched : List Nat) : List (Nat × SnapshotNode) :=
  touched.filterMap fun nodeIdx => (graph.nodeSnapshot nodeIdx).map fun node => (nodeIdx, node)

/-- The transaction of `create`. -/
def created (config : MetaConfig) (state : MetaState) (db : HnswDb) : HnswDb :=
  { adjacency := some db.adjacencyTable
    nodes := some db.nodeTable
    metaRows := some
      { config := some (pc.metaConfig.encode config)
        state := some (pc.metaState.encode state) } }

/-- The transaction of `write_through_insert`. -/
def inserted (graph : HnswIndex) (touched : List Nat) (db : HnswDb) : HnswDb :=
  let written := snapshotsOf graph touched
  { adjacency := some (db.adjacencyTable.insertMany
      (written.flatMap fun p => adjEntries pc p.1 p.2))
    nodes := some (db.nodeTable.insertMany (written.map fun p => nodeEntry pc p.1 p.2))
    metaRows := some { db.metaTable with state := some (pc.metaState.encode graph.stateRow) } }

/-- The transaction of `write_through_remove`. -/
def removed (graph : HnswIndex) (touched : List Nat) (db : HnswDb) : HnswDb :=
  let written := snapshotsOf graph touched
  { db with
    nodes := some (db.nodeTable.insertMany (written.map fun p => nodeEntry pc p.1 p.2))
    metaRows := some { db.metaTable with state := some (pc.metaState.encode graph.stateRow) } }

/-- The transaction of `flush_snapshot_to_redb`. -/
def flushed (snap : GraphSnapshot) (db : HnswDb) : HnswDb :=
  { adjacency := some (.ofList (snap.nodes.zipIdx.flatMap fun p => adjEntries pc p.2 p.1))
    nodes := some (.ofList (snap.nodes.zipIdx.map fun p => nodeEntry pc p.2 p.1))
    metaRows := some { db.metaTable with state := some (pc.metaState.encode snap.stateRow) } }

end Transactions

/-! ## Reading -/

section Reading

variable (pc : HnswCodec)

/-- The two rows `open` reads first. -/
def readMeta (self : HnswDb) : Except StorageError (MetaConfig × MetaState) :=
  match self.metaRows with
  | none => .error (.catalog "Table 'hnsw_meta' does not exist")
  | some table =>
    match table.config, table.state with
    | none, _ => .error (.corruption "missing hnsw config meta")
    | some _, none => .error (.corruption "missing hnsw state meta")
    | some configBytes, some stateBytes => do
      let config ← pc.metaConfig.read configBytes
      let state ← pc.metaState.read stateBytes
      .ok (config, state)

/-- One entry of `hnsw_nodes`. -/
def readNodeEntry (entry : List Byte × List Byte) : Except StorageError (Nat × NodeRow) := do
  let nodeIdx ← pc.nodeIdx.read entry.1
  let row ← pc.nodeRow.read entry.2
  .ok (nodeIdx, row)

/-- The list of a node at one layer; a missing row is an empty list. -/
def readList (adjacency : ByteTable) (nodeIdx layer : Nat) : Except StorageError (List Nat) :=
  match adjacency.get (pc.adjKey.encode (adjKeyAt nodeIdx layer)) with
  | none => .ok []
  | some bytes => pc.neighbors.read bytes

/-- A node with its lists. -/
def readNode (adjacency : ByteTable) (p : Nat × NodeRow) : Except StorageError SnapshotNode := do
  let lists ← (List.range (p.2.level + 1)).mapM (readList pc adjacency p.1)
  .ok
    { idBytes := p.2.idBytes, level := p.2.level, tombstone := p.2.tombstone
      neighborsPerLayer := lists }

/-- The snapshot `open` rebuilds from the tables and the state row. -/
def readSnapshot (state : MetaState) (self : HnswDb) : Except StorageError GraphSnapshot :=
  match self.nodes, self.adjacency with
  | none, _ => .error (.catalog "Table 'hnsw_nodes' does not exist")
  | some _, none => .error (.catalog "Table 'hnsw_adjacency' does not exist")
  | some nodes, some adjacency => do
    let nodeRows ← nodes.entries.mapM (readNodeEntry pc)
    let snapNodes ← (sortBy (byKey Prod.fst) nodeRows).mapM (readNode pc adjacency)
    .ok
      { nodes := snapNodes, entryPoint := state.entryPoint, entryLevel := state.entryLevel
        rngState := state.rngState
        liveCount := (snapNodes.filter (fun n => !n.tombstone)).length }

/-- The snapshot the tables rebuild, as `open` reads them. -/
def snapshot (self : HnswDb) : Except StorageError GraphSnapshot := do
  let rows ← self.readMeta pc
  self.readSnapshot pc rows.2

end Reading

end HnswDb

/-- `Dimension::try_from` -/
def Dimension.ofU32 (value : U32) : Except StorageError Dimension :=
  if h : value.val = 0 then
    .error (.corruption "invalid dimension: dimension must be greater than zero")
  else .ok ⟨value.val, Nat.pos_of_ne_zero h, value.isLt⟩

/-- The parameters `open` takes from the config row. -/
def MetaConfig.parameters (row : MetaConfig) : Except StorageError (HnswConfig × Dimension) := do
  let metric ← metricFromU8 row.metricByte
  let dimension ← Dimension.ofU32 row.dimension
  let config ← (HnswConfig.new metric row.m row.efConstruction row.efSearch row.seed).mapError
    fun error => .corruption ("invalid hnsw config: " ++ error.text)
  .ok (config, dimension)

/-- The config row of a store gives its parameters back. -/
theorem HnswConfig.parameters_row (config : HnswConfig) (dimension : Dimension) :
    (config.row ⟨dimension.get, dimension.lt⟩).parameters = .ok (config, dimension) := by
  have hdim : Dimension.ofU32 ⟨dimension.get, dimension.lt⟩ = .ok dimension := by
    rw [Dimension.ofU32, dif_neg (Nat.pos_iff_ne_zero.mp dimension.pos)]
  unfold MetaConfig.parameters HnswConfig.row
  dsimp only
  rw [metricFromU8_metricToU8, hdim]
  show ((HnswConfig.new config.metric config.m config.efConstruction config.efSearch
    config.seed).mapError _ >>= _) = _
  rw [HnswConfig.new_self]
  rfl

end EidosDB
