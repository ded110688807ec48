import EidosDB.Storage.FlatTrace
import EidosDB.Storage.HnswSteps

/-! # Traces of the HNSW Store Operations

    The durable steps of the operations of a persistent graph, over any
    contents of its files, and what an opening that succeeds has read. -/

namespace EidosDB

open Bytes Effect HnswIndex

variable {pc : HnswCodec} {P : Platform} {config : HnswConfig} {dimension : Dimension}

/-! ## The segment file -/

/-- A segment that can be opened has a valid header and shows the records that
    were asked for. -/
theorem Segment.opened_inv {metric : Metric} {dimension recordCount : Nat} {file : File}
    {segment : Segment} {c : Nat} {w : World File}
    (h : openAt metric dimension recordCount ⟨file, .none, c⟩ = (.ok segment, w)) :
    ∃ bytes, file = some bytes ∧ ValidHeader metric dimension bytes ∧
      validLen dimension recordCount ≤ maxFileLen ∧
      segment = ⟨dimension, some (validLen dimension recordCount), recordCount⟩ ∧
      w.state = some (File.resize (validLen dimension recordCount) bytes) := by
  have hend : ∀ {marks o file'}, Traces (openAt metric dimension recordCount) file marks o file' →
      o = .ok segment ∧ file' = w.state := by
    intro marks o file' htrace
    have hrun := htrace .none c
    rw [h] at hrun
    exact ⟨(congrArg Prod.fst hrun).symm, (congrArg (fun r => r.2.1) hrun).symm⟩
  cases file with
  | none => cases (hend (traces_openAt_missing metric dimension recordCount)).1
  | some bytes =>
    by_cases hvalid : ValidHeader metric dimension bytes
    · rcases Nat.lt_or_ge maxFileLen (validLen dimension recordCount) with hlong | hfits
      · cases (hend (traces_openAt_invalid hvalid hlong)).1
      · obtain ⟨hok, hfile⟩ := hend (traces_openAt hvalid hfits)
        exact ⟨bytes, rfl, hvalid, hfits, (Outcome.ok.inj hok).symm, hfile.symm⟩
    · obtain ⟨e, htrace⟩ := @traces_openAt_refused metric dimension recordCount bytes hvalid
      cases (hend htrace).1

namespace HnswDisk

/-! ## Creating -/

variable {α : Type} {o : Outcome StorageError α}

theorem traces_onCatalogFile (disk : HnswDisk) {m : Effect StorageError (Option HnswDb) α}
    {marks : List (Mark StorageError (Option HnswDb))} {catalog : Option HnswDb}
    (h : Traces m disk.catalog marks o catalog) :
    Traces (onCatalogFile m) disk
      (marks.map (Mark.zoom (fun catalog disk => { disk with catalog := catalog }) disk)) o
      { disk with catalog := catalog } :=
  traces_zoom HnswDisk.catalog (fun catalog disk => { disk with catalog := catalog }) disk h

theorem traces_onSegmentFile (disk : HnswDisk) {m : Effect StorageError File α}
    {marks : List (Mark StorageError File)} {segment : File}
    (h : Traces m disk.segment marks o segment) :
    Traces (onSegmentFile m) disk
      (marks.map (Mark.zoom (fun segment disk => { disk with segment := segment }) disk)) o
      { disk with segment := segment } :=
  traces_zoom HnswDisk.segment (fun segment disk => { disk with segment := segment }) disk h

/-- The state row of a graph without nodes. -/
def freshState (config : HnswConfig) : MetaState :=
  { entryPoint := none, entryLevel := 0, rngState := config.seed, nodeCount := 0 }

/-- The files after `create` has written its two rows. -/
def withRows (pc : HnswCodec) (disk : HnswDisk) (config : HnswConfig) (dimension : Dimension) :
    HnswDisk :=
  { disk with
    catalog := some (disk.db.created pc (config.row dimension.u32) (freshState config)) }

/-- `create` up to the segment file: the two rows are written whatever is in
    the directory. -/
theorem traces_create_rows (disk : HnswDisk)
    {marks : List (Mark StorageError HnswDisk)} {o : Outcome StorageError PersistentHnswIndex}
    {disk' : HnswDisk}
    (h : Traces (do
      let segment ← onSegmentFile (Segment.create config.metric dimension.get)
      pure { graph := HnswIndex.new config dimension, segment := segment })
      (disk.withRows pc config dimension) marks o disk') :
    ∃ marks', Traces (create pc config dimension) disk marks' o disk' := by
  obtain ⟨catalog, segment⟩ := disk
  have hopen := traces_onCatalogFile ⟨catalog, segment⟩
    (traces_durable .commitFailure (fun db : Option HnswDb => some (db.getD .fresh)) catalog)
  have hrows := traces_onCatalogFile ⟨some (catalog.getD .fresh), segment⟩
    (traces_commit .commitFailure (fun db : Option HnswDb => db.map (HnswDb.created pc
      (config.row dimension.u32) (freshState config))) (some (catalog.getD .fresh)))
  have hdim : Traces (Effect.liftExcept (tryU32 dimension.get) : Effect StorageError HnswDisk U32)
      ⟨some (catalog.getD .fresh), segment⟩ [] (.ok dimension.u32)
      ⟨some (catalog.getD .fresh), segment⟩ := by
    rw [tryU32_of_lt dimension.lt]
    exact traces_pure _ _
  exact ⟨_, traces_bind (traces_durable _ _ _)
    (traces_bind hopen (traces_next hdim (traces_bind hrows h)))⟩

/-- A directory that has a segment file already. -/
theorem traces_create_exists (disk : HnswDisk) {bytes : List Byte}
    (hbytes : disk.segment = some bytes) :
    ∃ marks, Traces (create pc config dimension) disk marks (.err (.io .alreadyExists))
      (disk.withRows pc config dimension) := by
  apply traces_create_rows
  have hcreate : Traces (Segment.create config.metric dimension.get) (some bytes) []
      (.err (.io .alreadyExists)) (some bytes) := by
    unfold Segment.create
    apply traces_bind_err
    unfold File.createNew
    exact traces_next (traces_get _) (traces_throw _ _)
  rw [← hbytes] at hcreate
  exact traces_bind_err (traces_onSegmentFile (disk.withRows pc config dimension) hcreate)

/-- A directory that has none. -/
theorem traces_create_new (disk : HnswDisk) (hnone : disk.segment = none) :
    ∃ marks, Traces (create pc config dimension) disk marks
      (.ok { graph := HnswIndex.new config dimension
             segment := ⟨dimension.get, some headerLen, 0⟩ })
      { disk.withRows pc config dimension with
        segment := some (Segment.headerOf config.metric dimension) } := by
  apply traces_create_rows
  have hcreate := Segment.traces_create config.metric dimension
  rw [← hnone] at hcreate
  exact traces_bind (traces_onSegmentFile (disk.withRows pc config dimension) hcreate)
    (traces_pure _ _)

/-! ## Opening -/

/-- What an opening that succeeds has read, and the graph it builds. -/
structure Read (pc : HnswCodec) (disk : HnswDisk) (db : HnswDb) (rows : MetaConfig × MetaState)
    (parameters : HnswConfig × Dimension) (bytes : List Byte) (snap : GraphSnapshot)
    (graph : HnswIndex) : Prop where
  catalog : disk.catalog = some db
  readMeta : db.readMeta pc = .ok rows
  readParameters : rows.1.parameters = .ok parameters
  segment : disk.segment = some bytes
  header : Segment.ValidHeader parameters.1.metric parameters.2.get bytes
  length : Segment.validLen parameters.2.get rows.2.nodeCount ≤ maxFileLen
  readSnapshot : db.readSnapshot pc rows.2 = .ok snap
  restored : HnswIndex.fromSnapshot parameters.1 parameters.2 snap
    (fun idx => Segment.record
      (some (File.resize (Segment.validLen parameters.2.get rows.2.nodeCount) bytes))
      ⟨parameters.2.get, some (Segment.validLen parameters.2.get rows.2.nodeCount),
        rows.2.nodeCount⟩ idx) = .ok graph

variable {disk : HnswDisk} {db : HnswDb} {rows : MetaConfig × MetaState}
  {parameters : HnswConfig × Dimension} {bytes : List Byte} {snap : GraphSnapshot}
  {graph : HnswIndex} {index : PersistentHnswIndex}

/-- `open` once the two rows are read. -/
theorem openAt_eq (hcatalog : disk.catalog = some db) (hmeta : db.readMeta pc = .ok rows)
    (hparameters : rows.1.parameters = .ok parameters) {w : World HnswDisk}
    (hw : w.state = disk) :
    openAt pc w = (do
      let segment ← onSegmentFile
        (Segment.openAt parameters.1.metric parameters.2.get rows.2.nodeCount)
      let snap ← Effect.liftExcept (db.readSnapshot pc rows.2)
      let disk ← get
      let graph ← Effect.liftExcept ((HnswIndex.fromSnapshot parameters.1 parameters.2 snap
        (fun idx => Segment.record disk.segment segment idx)).mapError .index)
      pure { graph := graph, segment := segment } : Effect StorageError HnswDisk _) w := by
  unfold openAt
  rw [bind_apply, get_apply]
  dsimp only
  rw [hw, hcatalog]
  dsimp only
  rw [hmeta, liftExcept_ok, bind_apply, pure_apply]
  dsimp only
  rw [hparameters, liftExcept_ok, bind_apply, pure_apply]

/-- `open` of files that can be read. -/
theorem Read.traces (h : Read pc disk db rows parameters bytes snap graph) :
    ∃ marks, Traces (openAt pc) disk marks
      (.ok { graph := graph
             segment := ⟨parameters.2.get,
               some (Segment.validLen parameters.2.get rows.2.nodeCount), rows.2.nodeCount⟩ })
      { disk with
        segment := some (File.resize (Segment.validLen parameters.2.get rows.2.nodeCount) bytes) } := by
  have hopen := Segment.traces_openAt h.header h.length
  rw [← h.segment] at hopen
  have hfile := traces_onSegmentFile disk hopen
  have hgraph : ∀ disk' : HnswDisk, disk'.segment = some (File.resize
      (Segment.validLen parameters.2.get rows.2.nodeCount) bytes) →
      Traces (Effect.liftExcept ((HnswIndex.fromSnapshot parameters.1 parameters.2 snap
        (fun idx => Segment.record disk'.segment ⟨parameters.2.get,
          some (Segment.validLen parameters.2.get rows.2.nodeCount), rows.2.nodeCount⟩
          idx)).mapError .index) : Effect StorageError HnswDisk HnswIndex) disk' [] (.ok graph)
        disk' := by
    intro disk' hdisk'
    rw [hdisk', h.restored]
    exact traces_pure _ _
  have hsnapshot : ∀ disk' : HnswDisk, Traces (Effect.liftExcept (db.readSnapshot pc rows.2) :
      Effect StorageError HnswDisk GraphSnapshot) disk' [] (.ok snap) disk' := by
    intro disk'
    rw [h.readSnapshot]
    exact traces_pure _ _
  exact ⟨_, traces_congr (fun w hw => openAt_eq h.catalog h.readMeta h.readParameters hw)
    (traces_bind hfile (traces_next (hsnapshot _) (traces_next (traces_get _)
      (traces_next (hgraph _ rfl) (traces_pure _ _)))))⟩

/-- An opening that succeeds has read its files. -/
theorem read_of_opened (h : (opened pc disk).1 = .ok index) :
    ∃ db rows parameters bytes snap, Read pc disk db rows parameters bytes snap index.graph := by
  obtain ⟨w', hrun⟩ : ∃ w', openAt pc (World.start disk .none) = (.ok index, w') :=
    ⟨_, Prod.ext h rfl⟩
  unfold openAt at hrun
  obtain ⟨_, _, hget, hrun⟩ := ok_of_bind hrun
  cases hget
  dsimp only [World.start] at hrun
  cases hcatalog : disk.catalog with
  | none =>
    rw [hcatalog] at hrun
    cases hrun
  | some db =>
    rw [hcatalog] at hrun
    dsimp only at hrun
    obtain ⟨rows, _, hlift, hrun⟩ := ok_of_bind hrun
    obtain ⟨hmeta, rfl⟩ := ok_of_liftExcept hlift
    obtain ⟨parameters, _, hlift, hrun⟩ := ok_of_bind hrun
    obtain ⟨hparameters, rfl⟩ := ok_of_liftExcept hlift
    obtain ⟨segment, _, hopen, hrun⟩ := ok_of_bind hrun
    obtain ⟨w₁, hfile, rfl⟩ := ok_of_zoom hopen
    dsimp only at hfile
    obtain ⟨snap, _, hlift, hrun⟩ := ok_of_bind hrun
    obtain ⟨hsnapshot, rfl⟩ := ok_of_liftExcept hlift
    obtain ⟨_, _, hget, hrun⟩ := ok_of_bind hrun
    cases hget
    obtain ⟨graph, _, hlift, hrun⟩ := ok_of_bind hrun
    obtain ⟨hgraph, rfl⟩ := ok_of_liftExcept hlift
    cases hrun
    obtain ⟨bytes, hbytes, hvalid, hlen, rfl, hresized⟩ := Segment.opened_inv hfile
    refine ⟨db, rows, parameters, bytes, snap, hcatalog, hmeta, hparameters, hbytes, hvalid, hlen,
      hsnapshot, ?_⟩
    rw [← hresized]
    cases hrestored : HnswIndex.fromSnapshot parameters.1 parameters.2 snap fun idx =>
        Segment.record w₁.state _ idx with
    | error e =>
      rw [hrestored] at hgraph
      cases hgraph
    | ok g =>
      rw [hrestored] at hgraph
      cases hgraph
      rfl

end HnswDisk

/-! ## Writing -/

namespace HnswStore

/-- The store with more bytes at the end of its segment file. -/
def withTail (self : HnswStore) (part : List Byte) : HnswStore :=
  { self with disk := { self.disk with segment := self.disk.segment.map (· ++ part) } }

def withGraph (self : HnswStore) (graph : HnswIndex) : HnswStore :=
  { self with index := { self.index with graph := graph } }

def withDb (self : HnswStore) (db : HnswDb) : HnswStore :=
  { self with disk := { self.disk with catalog := some db } }

variable {s : HnswStore} {bytes : List Byte} {values : List F32}

theorem withTail_nil : s.withTail [] = s := by
  obtain ⟨⟨catalog, segment⟩, index⟩ := s
  cases segment <;> simp [withTail]

theorem traces_append (hbytes : s.disk.segment = some bytes)
    (hdim : s.index.segment.dimension ≠ 0)
    (hvalues : values.length % s.index.segment.dimension = 0)
    (hroom : bytes.length + values.length * 4 ≤ maxFileLen) :
    ∃ marks, Traces (onSegment (Segment.append values)) s marks (.ok ())
        (s.withTail (bytesOf values)) ∧
      marks.length = (bytesOf values).length + 1 ∧
      ∀ n mark, marks[n]? = some mark → mark.state = s.withTail ((bytesOf values).take n) := by
  obtain ⟨⟨catalog, segment⟩, index⟩ := s
  obtain rfl : segment = some bytes := hbytes
  exact Segment.traces_append_zoom _ _ rfl hdim hvalues hroom

theorem traces_append_full (hbytes : s.disk.segment = some bytes)
    (hdim : s.index.segment.dimension ≠ 0)
    (hvalues : values.length % s.index.segment.dimension = 0) (hmax : bytes.length ≤ maxFileLen)
    (hfull : maxFileLen < bytes.length + values.length * 4) :
    ∃ marks s', Traces (onSegment (Segment.append values)) s marks (.err (.io .fileTooLarge)) s' ∧
      ∀ n mark, marks[n]? = some mark → mark.state = s.withTail ((bytesOf values).take n) := by
  obtain ⟨⟨catalog, segment⟩, index⟩ := s
  obtain rfl : segment = some bytes := hbytes
  obtain ⟨marks, part, happend, -, hstates⟩ := Segment.traces_append_full_zoom
    (fun s : HnswStore => (s.disk.segment, s.index.segment))
    (fun p s => { disk := { s.disk with segment := p.1 }, index := { s.index with segment := p.2 } })
    (t := ⟨⟨catalog, some bytes⟩, index⟩) rfl hdim hvalues hmax hfull
  exact ⟨marks, _, happend, hstates⟩

theorem traces_append_ragged (hbytes : s.disk.segment = some bytes)
    (hdim : s.index.segment.dimension ≠ 0)
    (hvalues : values.length % s.index.segment.dimension ≠ 0) :
    ∃ message, Traces (onSegment (Segment.append values)) s [] (.err (.corruption message)) s := by
  obtain ⟨⟨catalog, segment⟩, index⟩ := s
  obtain rfl : segment = some bytes := hbytes
  exact ⟨_, Segment.traces_append_ragged_zoom
    (fun s : HnswStore => (s.disk.segment, s.index.segment)) _ rfl rfl hdim hvalues⟩

variable {α : Type} {f : HnswIndex → Option (Except IndexError α × HnswIndex)} {graph : HnswIndex}

theorem traces_onGraph_ok {a : α} (h : f s.index.graph = some (.ok a, graph)) :
    Traces (onGraph f) s [] (.ok a) (s.withGraph graph) := by
  unfold onGraph
  apply traces_next (traces_get _)
  rw [h]
  exact traces_next (traces_modify _ _) (traces_pure _ _)

theorem traces_onGraph_error {e : IndexError} (h : f s.index.graph = some (.error e, graph)) :
    Traces (onGraph f) s [] (.err (.index e)) (s.withGraph graph) := by
  unfold onGraph
  apply traces_next (traces_get _)
  rw [h]
  exact traces_next (traces_modify _ _) (traces_throw _ _)

theorem traces_transaction {db : HnswDb} (change : HnswDb → HnswDb)
    (hdb : s.disk.catalog = some db) :
    Traces (transaction change) s [⟨s, .commitFailure⟩] (.ok ()) (s.withDb (change db)) := by
  obtain ⟨⟨catalog, segment⟩, index⟩ := s
  obtain rfl : catalog = some db := hdb
  exact traces_zoom (fun s : HnswStore => s.disk.db)
    (fun db s => { s with disk := { s.disk with catalog := some db } })
    ⟨⟨some db, segment⟩, index⟩ (traces_commit _ change db)

/-! ### Calls -/

section Insert

variable (pc P) {db : HnswDb} (levelFloat : LevelFloat) (id : VectorId) {e : Embedding}

/-- An insert that the graph accepts: the bytes of its vector, then the rows. -/
theorem traces_insert_ok (hdb : s.disk.catalog = some db) (hbytes : s.disk.segment = some bytes)
    (hdim : s.index.segment.dimension ≠ 0)
    (hvalues : e.values.length % s.index.segment.dimension = 0)
    (hroom : bytes.length + e.values.length * 4 ≤ maxFileLen) {delta : InsertDelta}
    (hcall : s.index.graph.insertTracked P levelFloat id e = some (.ok delta, graph)) :
    ∃ marks, Traces (writeThroughInsert pc P levelFloat id e) s
        (marks ++ [⟨(s.withTail (bytesOf e.values)).withGraph graph, .commitFailure⟩]) (.ok ())
        (((s.withTail (bytesOf e.values)).withGraph graph).withDb
          (db.inserted pc graph delta.touchedNodes)) ∧
      marks.length = (bytesOf e.values).length + 1 ∧
      ∀ n mark, marks[n]? = some mark → mark.state = s.withTail ((bytesOf e.values).take n) := by
  obtain ⟨marks, happend, hcount, hstates⟩ := traces_append hbytes hdim hvalues hroom
  have hgraph := traces_onGraph_ok (s := s.withTail (bytesOf e.values))
    (f := fun graph => graph.insertTracked P levelFloat id e) hcall
  have hcommit := traces_transaction (s := (s.withTail (bytesOf e.values)).withGraph graph)
    (HnswDb.inserted pc graph delta.touchedNodes) hdb
  exact ⟨marks, traces_bind happend (traces_next hgraph (traces_next (traces_get _) hcommit)),
    hcount, hstates⟩

/-- An insert that the graph rejects, after its vector was appended. -/
theorem traces_insert_rejected (hbytes : s.disk.segment = some bytes)
    (hdim : s.index.segment.dimension ≠ 0)
    (hvalues : e.values.length % s.index.segment.dimension = 0)
    (hroom : bytes.length + e.values.length * 4 ≤ maxFileLen) {error : IndexError}
    (hcall : s.index.graph.insertTracked P levelFloat id e = some (.error error, graph)) :
    ∃ marks, Traces (writeThroughInsert pc P levelFloat id e) s marks (.err (.index error))
        ((s.withTail (bytesOf e.values)).withGraph graph) ∧
      ∀ n mark, marks[n]? = some mark → mark.state = s.withTail ((bytesOf e.values).take n) := by
  obtain ⟨marks, happend, -, hstates⟩ := traces_append hbytes hdim hvalues hroom
  have hgraph := traces_onGraph_error (s := s.withTail (bytesOf e.values))
    (f := fun graph => graph.insertTracked P levelFloat id e) hcall
  have htrace : Traces (writeThroughInsert pc P levelFloat id e) s (marks ++ [])
      (.err (.index error)) ((s.withTail (bytesOf e.values)).withGraph graph) :=
    traces_bind happend (traces_bind_err hgraph)
  rw [List.append_nil] at htrace
  exact ⟨marks, htrace, hstates⟩

/-- An insert for which the file system has no room. -/
theorem traces_insert_full (hbytes : s.disk.segment = some bytes)
    (hdim : s.index.segment.dimension ≠ 0)
    (hvalues : e.values.length % s.index.segment.dimension = 0) (hmax : bytes.length ≤ maxFileLen)
    (hfull : maxFileLen < bytes.length + e.values.length * 4) :
    ∃ marks s', Traces (writeThroughInsert pc P levelFloat id e) s marks
        (.err (.io .fileTooLarge)) s' ∧
      ∀ n mark, marks[n]? = some mark → mark.state = s.withTail ((bytesOf e.values).take n) := by
  obtain ⟨marks, s', happend, hstates⟩ := traces_append_full hbytes hdim hvalues hmax hfull
  exact ⟨marks, s', traces_bind_err happend, hstates⟩

/-- An insert of a vector that is no whole number of records. -/
theorem traces_insert_ragged (hbytes : s.disk.segment = some bytes)
    (hdim : s.index.segment.dimension ≠ 0)
    (hvalues : e.values.length % s.index.segment.dimension ≠ 0) :
    ∃ message, Traces (writeThroughInsert pc P levelFloat id e) s []
      (.err (.corruption message)) s := by
  obtain ⟨message, htrace⟩ := traces_append_ragged hbytes hdim hvalues
  exact ⟨message, traces_bind_err htrace⟩

end Insert

/-- The rows after a removal that found a node, or found none. -/
def removedDb (pc : HnswCodec) (db : HnswDb) (graph : HnswIndex) : Option RemoveDelta → HnswDb
  | none => db
  | some delta => db.removed pc graph delta.touchedNodes

theorem traces_remove {db : HnswDb} (hdb : s.disk.catalog = some db) {id : VectorId}
    {delta : Option RemoveDelta} (hcall : s.index.graph.removeTracked id = (.ok delta, graph)) :
    Traces (writeThroughRemove pc id) s
      (delta.toList.map fun _ => ⟨s.withGraph graph, .commitFailure⟩) (.ok delta.isSome)
      ((s.withGraph graph).withDb (removedDb pc db graph delta)) := by
  have hgraph : Traces (onGraph fun graph => some (graph.removeTracked id)) s [] (.ok delta)
      (s.withGraph graph) := traces_onGraph_ok (congrArg some hcall)
  cases delta with
  | none =>
    have hsame : (s.withGraph graph).withDb db = s.withGraph graph := by
      obtain ⟨⟨catalog, segment⟩, index⟩ := s
      obtain rfl : catalog = some db := hdb
      rfl
    rw [removedDb, hsame]
    exact traces_next hgraph (traces_pure _ _)
  | some delta =>
    have hcommit := traces_transaction (s := s.withGraph graph)
      (HnswDb.removed pc graph delta.touchedNodes) hdb
    exact traces_next hgraph (traces_next (traces_get _) (traces_bind hcommit (traces_pure _ _)))

end HnswStore

end EidosDB
