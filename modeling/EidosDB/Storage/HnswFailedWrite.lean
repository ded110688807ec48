import EidosDB.Storage.HnswAnswers
import EidosDB.Storage.HnswPlacement

/-! # Writes of the Persistent Graph that Fail

    An insert appends its vector, changes the graph in memory, and commits
    the rows; a removal changes the graph and commits.  Nothing is taken back
    when a step fails.  If the commit fails, the graph in memory keeps the
    change; if the append fails, the file keeps the bytes, and every vector
    after them is read from the wrong place by the next opening. -/

namespace EidosDB

open Bytes Effect HnswIndex

variable {pc : HnswCodec} {P : Platform}

/-! ## The first step -/

/-- A write whose first step fails leaves the file alone. -/
theorem File.writeAll_refused {new : List Byte} (hne : new ≠ []) (file : File) (c : Nat)
    {o : Outcome StorageError Unit} {w : World File}
    (hrun : writeAll new ⟨file, .stop 0 .fail, c⟩ = (o, w)) : (∃ e, o = .err e) ∧ w.state = file := by
  obtain ⟨b, rest, rfl⟩ := List.exists_cons_of_ne_nil hne
  rw [writeAll, bind_apply, writeByte, bind_apply, get_apply] at hrun
  dsimp only at hrun
  split_ifs at hrun with hroom
  · rw [durable] at hrun
    cases hrun
    exact ⟨⟨_, rfl⟩, rfl⟩
  · rw [throw_apply] at hrun
    cases hrun
    exact ⟨⟨_, rfl⟩, rfl⟩

/-- So does an append. -/
theorem Segment.append_refused {values : List F32} (hne : values ≠ []) (p : File × Segment)
    (c : Nat) {o : Outcome StorageError Unit} {w : World (File × Segment)}
    (hrun : append values ⟨p, .stop 0 .fail, c⟩ = (o, w)) :
    ((∃ e, o = .err e) ∨ o = .panicked) ∧ w.state = p := by
  have hbytes : bytesOf values ≠ [] := by
    intro hnil
    have hlen := congrArg List.length hnil
    rw [length_bytesOf, List.length_nil] at hlen
    have hpos := List.length_pos_of_ne_nil hne
    omega
  rw [append, bind_apply, get_apply] at hrun
  dsimp only at hrun
  split_ifs at hrun with hdim hwhole
  · rw [panic_apply] at hrun
    cases hrun
    exact ⟨Or.inr rfl, rfl⟩
  · rw [throw_apply] at hrun
    cases hrun
    exact ⟨Or.inl ⟨_, rfl⟩, rfl⟩
  · rw [bind_apply, onFile, zoom] at hrun
    dsimp only at hrun
    cases hwrite : File.writeAll (bytesOf values) ⟨p.1, .stop 0 .fail, c⟩ with
    | mk o₁ w₁ =>
      obtain ⟨⟨e, rfl⟩, hstate⟩ := File.writeAll_refused hbytes p.1 c hwrite
      rw [hwrite] at hrun
      cases hrun
      exact ⟨Or.inl ⟨e, rfl⟩, by rw [hstate]⟩

namespace HnswStore

/-- A write of which the failing step was the first byte of its vector. -/
def NothingWritten (op : HnswOp) (n : Nat) : Prop :=
  (∃ id e, op = .insert id e) ∧ n = 0

/-- The graph that opening the files gives. -/
def reopenedGraph (pc : HnswCodec) (self : HnswStore) : Option HnswIndex :=
  match (HnswDisk.opened pc self.disk).1 with
  | .ok index => some index.graph
  | _ => none

/-- Nothing tells the stores apart: their graphs in memory, which answer the
    searches, and the graphs that opening their files gives. -/
structure Alike (pc : HnswCodec) (s t : HnswStore) : Prop where
  graph : s.index.graph = t.index.graph
  reopened : s.reopenedGraph pc = t.reopenedGraph pc

/-- Every later run of calls answers alike and ends in stores that are
    alike. -/
def SameLater (pc : HnswCodec) (P : Platform) (s t : HnswStore) : Prop :=
  ∀ calls, Option.Rel (fun r r' => r.1 = r'.1 ∧ Alike pc r.2 r'.2)
    (s.answers pc P calls) (t.answers pc P calls)

/-- The segment file holds the vectors of the nodes, in order, and ends with
    the last: no insert was rejected or failed, and nothing was compacted
    away. -/
def Aligned (pc : HnswCodec) (s : HnswStore) : Prop :=
  HnswRep pc s.index.graph.config s.index.graph.dimension
    (s.index.graph.graph.nodes.map Node.embedding) s

variable {s t : HnswStore} {config : HnswConfig} {dimension : Dimension}

theorem SameLater.refl (pc : HnswCodec) (P : Platform) (s : HnswStore) : SameLater pc P s s := by
  intro calls
  cases s.answers pc P calls with
  | none => exact .none
  | some r => exact .some ⟨rfl, rfl, rfl⟩

/-- Before any call the graphs are the same. -/
theorem SameLater.alike (h : SameLater pc P s t) : Alike pc s t :=
  (Option.rel_some_some.mp (h [])).2

/-- A store whose file holds its nodes is open. -/
theorem Aligned.live (h : s.Aligned pc) :
    s.Live s.index.graph.config s.index.graph.dimension := by
  obtain ⟨db, hdb, -⟩ := h.disk.catalog
  exact ⟨h.disk.inv, h.width, ⟨_, h.disk.segment, h.disk.fits⟩, ⟨db, hdb⟩⟩

/-! ## What a failed write leaves -/

/-- An insert whose first step fails leaves the store as it was, whatever the
    store. -/
theorem state_of_refused (levelFloat : LevelFloat) (id : VectorId) (e : Embedding) :
    (call pc P levelFloat (.insert id e) (World.start s (.stop 0 .fail))).2.state = s := by
  obtain ⟨⟨catalog, segment⟩, index⟩ := s
  rw [call, bind_apply, writeThroughInsert, bind_apply, onSegment, zoom]
  dsimp only [World.start]
  cases happend : Segment.append e.values ⟨(segment, index.segment), .stop 0 .fail, 0⟩ with
  | mk o w =>
    obtain ⟨hend, hstate⟩ := Segment.append_refused e.nonempty _ _ happend
    rcases hend with ⟨error, rfl⟩ | rfl
    · dsimp only
      rw [hstate]
    · dsimp only
      rw [hstate]

/-- A failed insert or removal leaves bytes of its vector in the file, or a
    changed graph. -/
theorem left_behind (h : s.Live config dimension) {levelFloat : LevelFloat} {op : HnswOp} {n : Nat}
    (hop : op ≠ .compact) (hwritten : ¬ NothingWritten op n)
    (hfailed : (call pc P levelFloat op (World.start s (.stop n .fail))).2.plan = .none) :
    (call pc P levelFloat op (World.start s (.stop n .fail))).2.state.index.graph ≠
        s.index.graph ∨
      ∃ part, part ≠ [] ∧ part.length ≤ n ∧
        (call pc P levelFloat op (World.start s (.stop n .fail))).2.state = s.withTail part := by
  obtain ⟨bytes, hbytes, hmax⟩ := h.segment
  obtain ⟨db, hdb⟩ := h.catalog
  have hpos := dimension.pos
  have hdim : s.index.segment.dimension ≠ 0 := by
    rw [h.width]
    omega
  cases op with
  | compact => exact absurd rfl hop
  | remove id =>
    have houtcome := removeTracked_outcome h.inv id
    generalize hr : s.index.graph.removeTracked id = r at houtcome
    obtain ⟨result, graph⟩ := r
    cases houtcome with
    | absent =>
      have htrace : Traces (call pc P levelFloat (.remove id)) s [] _ _ :=
        traces_bind (traces_remove hdb hr) (traces_pure _ _)
      obtain ⟨mark, hmark, -⟩ := htrace.spent hfailed
      cases hmark
    | @removed node hlive =>
      have htrace : Traces (call pc P levelFloat (.remove id)) s [_] _ _ :=
        traces_bind (traces_remove hdb hr) (traces_pure _ _)
      obtain ⟨mark, hmark, hstate⟩ := htrace.spent hfailed
      obtain rfl := List.mem_singleton.mp (List.mem_of_getElem? hmark)
      rw [hstate]
      refine Or.inl fun hsame => ?_
      -- the id was live and is not any more
      have hgone := congrArg (fun g : HnswIndex => g.graph.live id) hsame
      dsimp only [withGraph] at hgone
      rw [hlive, HnswGraph.live_setEntryPoint, HnswGraph.live_withTombstone, if_pos rfl] at hgone
      cases hgone
  | insert id e =>
    have hn : n ≠ 0 := by
      rintro rfl
      exact hwritten ⟨⟨id, e, rfl⟩, rfl⟩
    have hpart : (bytesOf e.values).take n ≠ [] := by
      intro hnil
      have hlen := congrArg List.length hnil
      have hlong := List.length_pos_of_ne_nil e.nonempty
      rw [List.length_take, length_bytesOf, List.length_nil] at hlen
      omega
    have hbytesLeft : ∀ t, t = s.withTail ((bytesOf e.values).take n) →
        t.index.graph ≠ s.index.graph ∨ ∃ part, part ≠ [] ∧ part.length ≤ n ∧ t = s.withTail part :=
      fun t ht => Or.inr ⟨_, hpart, by rw [List.length_take]; omega, ht⟩
    by_cases hwhole : e.values.length % s.index.segment.dimension = 0
    · rcases Nat.lt_or_ge maxFileLen (bytes.length + e.values.length * 4) with hfull | hroom
      · obtain ⟨marks, s', htrace, hstates⟩ :=
          traces_insert_full pc P levelFloat id hbytes hdim hwhole hmax hfull
        have hcall : Traces (call pc P levelFloat (.insert id e)) s marks _ _ :=
          traces_bind_err htrace
        obtain ⟨mark, hmark, hstate⟩ := hcall.spent hfailed
        rw [hstate]
        exact hbytesLeft _ (hstates n mark hmark)
      · obtain ⟨r, graph, hcall, houtcome, -⟩ :=
          insertTracked_spec (P := P) h.inv levelFloat id e
        cases r with
        | error error =>
          obtain ⟨marks, htrace, hstates⟩ :=
            traces_insert_rejected pc P levelFloat id hbytes hdim hwhole hroom hcall
          have hcall : Traces (call pc P levelFloat (.insert id e)) s marks _ _ :=
            traces_bind_err htrace
          obtain ⟨mark, hmark, hstate⟩ := hcall.spent hfailed
          rw [hstate]
          exact hbytesLeft _ (hstates n mark hmark)
        | ok delta =>
          obtain ⟨marks, htrace, hcount, hstates⟩ :=
            traces_insert_ok pc P levelFloat id hdb hbytes hdim hwhole hroom hcall
          have hcall : Traces (call pc P levelFloat (.insert id e)) s _ _ _ :=
            traces_bind htrace (traces_pure _ _)
          obtain ⟨mark, hmark, hstate⟩ := hcall.spent hfailed
          rw [hstate]
          rw [List.append_nil] at hmark
          rcases Nat.lt_or_ge n marks.length with hlt | hge
          · rw [List.getElem?_append_left hlt] at hmark
            exact hbytesLeft _ (hstates n mark hmark)
          · -- the vector was appended, and the commit failed
            rw [List.getElem?_append_right hge] at hmark
            obtain rfl := List.mem_singleton.mp (List.mem_of_getElem? hmark)
            refine Or.inl fun hsame => ?_
            cases houtcome with
            | accepted hdim hid hlevel hinserted =>
              have hcount := congrArg (fun g : HnswIndex => g.graph.nodeCount) hsame
              dsimp only [withGraph] at hcount
              rw [hinserted.shape.nodeCount, HnswGraph.nodeCount_setEntryPoint,
                HnswGraph.nodeCount_withNode] at hcount
              omega
    · obtain ⟨message, htrace⟩ := traces_insert_ragged pc P levelFloat id hbytes hdim hwhole
      have hcall : Traces (call pc P levelFloat (.insert id e)) s [] _ _ := traces_bind_err htrace
      obtain ⟨mark, hmark, -⟩ := hcall.spent hfailed
      cases hmark

/-! ## The vector behind the bytes left over -/

theorem answer_of_traces {levelFloat : LevelFloat} {op : HnswOp}
    {marks : List (Mark StorageError HnswStore)} {reply : HnswReply}
    (h : Traces (call pc P levelFloat op) s marks (.ok reply) t) :
    s.answer pc P (levelFloat, op) = some (.ok reply, t) := by
  obtain ⟨hok, hstate⟩ := h.undisturbed
  unfold answer
  dsimp only
  rw [hok, hstate, if_neg (by simp)]

/-- A removal and an insert, over any bytes at the end of the file: what they
    do to the graph and to the tables does not depend on the bytes. -/
theorem retried (pc : HnswCodec) (P : Platform) (h : s.Live config dimension) {bytes : List Byte}
    (hbytes : s.disk.segment = some bytes) (levelFloat : LevelFloat) (id : VectorId) {e : Embedding}
    (he : e.dimension = dimension.get) :
    ∃ existed db graph, ∀ part, bytes.length + part.length + dimension.get * 4 ≤ maxFileLen →
      (s.withTail part).answers pc P [(levelFloat, .remove id), (levelFloat, .insert id e)] =
        some ([.ok (.removed existed), .ok .done],
          { disk := { catalog := some db
                      segment := some (bytes ++ (part ++ bytesOf e.values)) }
            index := { s.index with graph := graph } }) := by
  obtain ⟨db, hdb⟩ := h.catalog
  have hpos := dimension.pos
  have houtcome := removeTracked_outcome h.inv id
  have hinv := houtcome.inv h.inv
  generalize hr : s.index.graph.removeTracked id = r at houtcome hinv
  obtain ⟨result, graph⟩ := r
  -- after the removal the graph accepts the vector
  have hfree : graph.graph.live id = none := by
    cases houtcome with
    | absent hlive => exact hlive
    | removed hlive =>
      dsimp only
      rw [HnswGraph.live_setEntryPoint, HnswGraph.live_withTombstone, if_pos rfl]
  obtain ⟨delta, rfl⟩ : ∃ delta, result = .ok delta := by
    cases houtcome with
    | absent => exact ⟨_, rfl⟩
    | removed => exact ⟨_, rfl⟩
  obtain ⟨result', graph', hcall, houtcome', -⟩ :=
    insertTracked_spec (P := P) hinv levelFloat id e
  obtain ⟨delta', rfl⟩ : ∃ delta', result' = .ok delta' := by
    cases houtcome' with
    | mismatch hne => exact absurd (he.trans (congrArg Dimension.get hinv.dimension_eq.symm)) hne
    | duplicate _ n hlive =>
      rw [hfree] at hlive
      cases hlive
    | accepted => exact ⟨_, rfl⟩
  refine ⟨delta.isSome, (removedDb pc db graph delta).inserted pc graph' delta'.touchedNodes,
    graph', ?_⟩
  intro part hroom
  have hlen : e.values.length = dimension.get := he
  have hremove : Traces (call pc P levelFloat (.remove id)) (s.withTail part) _ _ _ :=
    traces_bind (traces_remove (s := s.withTail part) hdb hr) (traces_pure _ _)
  have hpart : (((s.withTail part).withGraph graph).withDb
      (removedDb pc db graph delta)).disk.segment = some (bytes ++ part) := by
    show s.disk.segment.map _ = _
    rw [hbytes]
    rfl
  have hdim : s.index.segment.dimension ≠ 0 := by
    rw [h.width]
    omega
  have hwhole : e.values.length % s.index.segment.dimension = 0 := by
    rw [h.width, hlen, Nat.mod_self]
  obtain ⟨marks, hinsert, -⟩ := traces_insert_ok pc P levelFloat id
    (s := ((s.withTail part).withGraph graph).withDb (removedDb pc db graph delta)) rfl
    hpart hdim hwhole (by rw [List.length_append, hlen]; omega) hcall
  have hinsert' : Traces (call pc P levelFloat (.insert id e)) _ _ _ _ :=
    traces_bind hinsert (traces_pure _ _)
  rw [answers, answer_of_traces hremove, Option.bind_some, answers, answer_of_traces hinsert',
    Option.bind_some, answers]
  simp only [Option.map_some, withTail, withGraph, withDb, hbytes, List.append_assoc]

/-- The vector that opening gives the last node, when its record is cut out of
    other bytes. -/
theorem reopened_value {db : HnswDb} {graph g : HnswIndex} {index : PersistentHnswIndex}
    {bytes rest : List Byte} {n : Nat} (hholds : db.Holds pc config dimension graph.snapshot)
    (hinv : Inv config dimension graph) (hcount : graph.graph.nodeCount = n + 1)
    (hstart : bytes.length = headerLen + n * (dimension.get * 4))
    (hrest : dimension.get * 4 ≤ rest.length)
    (hroom : bytes.length + dimension.get * 4 ≤ maxFileLen)
    (hg : reopenedGraph pc ⟨⟨some db, some (bytes ++ rest)⟩, index⟩ = some g) :
    (g.graph.nodes.map fun n => n.embedding.values)[n]? =
      some (floatsOf (rest.take (dimension.get * 4))) := by
  have hword : maxFileLen < 18446744073709551616 := by decide
  obtain ⟨opened, hopened, rfl⟩ : ∃ opened, (HnswDisk.opened pc
      ⟨some db, some (bytes ++ rest)⟩).1 = .ok opened ∧ opened.graph = g := by
    unfold reopenedGraph at hg
    cases hopen : (HnswDisk.opened pc ⟨some db, some (bytes ++ rest)⟩).1 with
    | ok opened =>
      rw [hopen] at hg
      exact ⟨opened, rfl, Option.some.inj hg⟩
    | err e => rw [hopen] at hg; cases hg
    | crashed => rw [hopen] at hg; cases hg
    | panicked => rw [hopen] at hg; cases hg
  obtain ⟨db', rows, parameters, bytes', snap, hread⟩ := HnswDisk.read_of_opened hopened
  obtain rfl := Option.some.inj hread.catalog
  obtain rfl := Option.some.inj hread.segment
  obtain rfl := Except.ok.inj (hholds.readMeta.symm.trans hread.readMeta)
  obtain rfl := Except.ok.inj ((HnswConfig.parameters_row config dimension).symm.trans
    hread.readParameters)
  obtain rfl := Except.ok.inj ((hholds.readSnapshot (snapshot_shaped hinv)).symm.trans
    hread.readSnapshot)
  obtain ⟨-, -, values, hvalues, -, hmap⟩ := restored_values hread.restored
  have hnodes : graph.snapshot.nodes.length = n + 1 := (length_snapshot hinv).trans hcount
  rw [hmap, ← hvalues n (by omega)]
  have hlen : Segment.validLen dimension.get graph.snapshot.stateRow.nodeCount =
      bytes.length + dimension.get * 4 := by
    show (wrap64 (headerLen + graph.snapshot.nodes.length * (dimension.get * 4))).val = _
    rw [hnodes, wrap64_val (by rw [Nat.succ_mul]; omega), Nat.succ_mul]
    omega
  have hresize : File.resize (bytes.length + dimension.get * 4) (bytes ++ rest) =
      bytes ++ rest.take (dimension.get * 4) := by
    rw [File.resize, List.take_append, List.length_append, Nat.add_sub_cancel_left,
      List.take_of_length_le (by omega), Nat.sub_eq_zero_of_le (by omega), List.replicate_zero,
      List.append_nil]
  dsimp only
  rw [hlen, hresize, @Segment.record_eq _ dimension.get (bytes.length + dimension.get * 4) n
    (bytes ++ rest.take (dimension.get * 4)) rfl rfl (by
      show n < graph.snapshot.nodes.length
      omega) (by omega) (by omega), ← hstart, List.drop_left, List.take_take, Nat.min_self]

/-- A removal and an insert that succeed add one node, and the store opens
    again. -/
theorem retried_aligned (haligned : s.Aligned pc) {levelFloat : LevelFloat} {id : VectorId}
    {e : Embedding} {existed : Bool}
    (hrun : s.answers pc P [(levelFloat, .remove id), (levelFloat, .insert id e)] =
      some ([.ok (.removed existed), .ok .done], t)) :
    ∃ db g, t.disk.catalog = some db ∧
      db.Holds pc s.index.graph.config s.index.graph.dimension t.index.graph.snapshot ∧
      Inv s.index.graph.config s.index.graph.dimension t.index.graph ∧
      t.index.graph.graph.nodeCount = s.index.graph.graph.nodeCount + 1 ∧
      t.reopenedGraph pc = some g := by
  obtain ⟨o, s₁, as₁, hremove, hrest, hanswers⟩ := answers_cons hrun
  obtain ⟨o₂, s₂, as₂, hinsert, hend, hanswers₂⟩ := answers_cons hrest
  cases hend
  subst hanswers₂
  cases hanswers
  obtain ⟨recs₁, hrep₁, hchange₁⟩ := answer_cases haligned hremove
  obtain ⟨recs₂, hrep₂, hchange₂⟩ := answer_cases hrep₁ hinsert
  have hcount₁ : s₁.index.graph.graph.nodeCount = s.index.graph.graph.nodeCount := by
    dsimp only at hchange₁
    generalize s₁.index.graph = g₁ at hchange₁
    cases hchange₁ with
    | removed =>
      have hnodes := congrArg List.length (map_embedding_removeTracked haligned.disk.inv id)
      rwa [List.length_map, List.length_map] at hnodes
  have hcount₂ : t.index.graph.graph.nodeCount = s₁.index.graph.graph.nodeCount + 1 := by
    dsimp only at hchange₂
    generalize t.index.graph = g₂ at hchange₂
    cases hchange₂ with
    | inserted hdim hid hi =>
      have hnodes := congrArg List.length (hi.nodes_map Node.embedding fun _ => rfl)
      rwa [List.length_append, List.length_map, List.length_map] at hnodes
  obtain ⟨db, hdb, hholds⟩ := hrep₂.disk.catalog
  obtain ⟨index, hopen, -⟩ := opened_reembedded hrep₂
  refine ⟨db, index.graph, hdb, hholds, hrep₂.disk.inv, by omega, ?_⟩
  rw [reopenedGraph, hopen]

/-- Bytes in front of the next record show: after one more insert the next
    opening gives another vector. -/
theorem not_sameLater_withTail (haligned : s.Aligned pc) {part : List Byte} (hpart : part ≠ [])
    (hroom : (s.disk.segment.getD []).length + part.length +
      s.index.graph.dimension.get * 4 ≤ maxFileLen) : ¬ SameLater pc P s (s.withTail part) := by
  intro hsame
  have hbytes := haligned.disk.segment
  have hlen := length_layout s.index.graph.config.metric []
    (uniform_values haligned.disk.dims)
  rw [List.length_map, List.length_map, List.length_nil, Nat.add_zero] at hlen
  rw [hbytes, Option.getD_some] at hroom
  obtain ⟨e, he, hunlike⟩ := exists_unlike s.index.graph.dimension hpart
  obtain ⟨existed, db', graph, hretried⟩ :=
    retried pc P haligned.live hbytes LevelFloat.base2 ⟨0⟩ he
  have hleft := hretried [] (by rw [List.length_nil]; omega)
  have hright := hretried part (by omega)
  rw [withTail_nil] at hleft
  -- both runs end, and the graphs they reopen are the same
  obtain ⟨db'', g, hdb'', hholds, hinv, hcount, hg⟩ := retried_aligned haligned hleft
  cases hdb''
  have hrel := hsame [(LevelFloat.base2, .remove ⟨0⟩), (LevelFloat.base2, .insert ⟨0⟩ e)]
  rw [hleft, hright] at hrel
  have hg' := (Option.rel_some_some.mp hrel).2.reopened.symm.trans hg
  have hwhole : (bytesOf e.values).length = s.index.graph.dimension.get * 4 := by
    rw [length_bytesOf, show e.values.length = _ from he]
  have hvalue := reopened_value hholds hinv hcount hlen (by
    rw [List.nil_append, hwhole]) (by omega) hg
  have hvalue' := reopened_value hholds hinv hcount hlen (by
    rw [List.length_append, hwhole]; omega) (by omega) hg'
  rw [hvalue', Option.some_inj, List.nil_append, List.take_of_length_le hwhole.le,
    floatsOf_bytesOf] at hvalue
  exact hunlike hvalue

/-! ## The theorem -/

/-- An insert or a removal fails at a step of its own.  If that is the first
    byte of an insert, nothing later differs, whatever the store.  Otherwise
    something does, for a store whose file holds the vectors of its nodes and
    has room for one more. -/
theorem failed_write_harmless (pc : HnswCodec) (P : Platform) (s : HnswStore)
    (levelFloat : LevelFloat) (op : HnswOp) (n : Nat) (hop : op ≠ .compact)
    (hfailed : (call pc P levelFloat op (World.start s (.stop n .fail))).2.plan = .none) :
    (NothingWritten op n →
      SameLater pc P s (call pc P levelFloat op (World.start s (.stop n .fail))).2.state) ∧
    (¬ NothingWritten op n → s.Aligned pc →
      (s.disk.segment.getD []).length + n + s.index.graph.dimension.get * 4 ≤ maxFileLen →
      ¬ SameLater pc P s (call pc P levelFloat op (World.start s (.stop n .fail))).2.state) := by
  constructor
  · rintro ⟨⟨id, e, rfl⟩, rfl⟩
    rw [state_of_refused]
    exact SameLater.refl pc P s
  · intro hwritten haligned hroom hsame
    rcases left_behind haligned.live hop hwritten hfailed with hgraph | ⟨part, hpart, hlen, hstate⟩
    · exact hgraph hsame.alike.graph.symm
    · rw [hstate] at hsame
      exact not_sameLater_withTail haligned hpart (by omega) hsame

/-- One node. -/
def oneInsert : List (LevelFloat × HnswOp) :=
  [(.base2, .insert ⟨1⟩ (.single (F32.ofInt 3) (.refl true)))]

/-- An insert of one value, of four bytes. -/
def fiveInsert : HnswOp := .insert ⟨2⟩ (.single (F32.ofInt 5) (.refl true))

/-- The store after some calls, on an empty disk. -/
def begun (calls : List (LevelFloat × HnswOp)) : Option HnswStore :=
  (HnswDisk.empty.made .postcard .small (.degreeTwo 50) .one .create).bind fun s =>
    (s.answers .postcard .small calls).map Prod.snd

/-- The commit fails: the graph in memory keeps the node. -/
theorem failed_write_harmless_five : ∃ s, begun oneInsert = some s ∧
    ((NothingWritten fiveInsert 4 → SameLater .postcard .small s
        (call .postcard .small .base2 fiveInsert (World.start s (.stop 4 .fail))).2.state) ∧
    (¬ NothingWritten fiveInsert 4 → s.Aligned .postcard →
      (s.disk.segment.getD []).length + 4 + s.index.graph.dimension.get * 4 ≤ maxFileLen →
      ¬ SameLater .postcard .small s
        (call .postcard .small .base2 fiveInsert (World.start s (.stop 4 .fail))).2.state)) := by
  have hfailed : (begun oneInsert).map (fun s => decide
      ((call .postcard .small .base2 fiveInsert (World.start s (.stop 4 .fail))).2.plan = .none)) =
        some true := by
    decide +kernel
  obtain ⟨s, hs, hplan⟩ := Option.map_eq_some_iff.mp hfailed
  exact ⟨s, hs, failed_write_harmless .postcard .small s .base2 fiveInsert 4 (by simp [fiveInsert])
    (of_decide_eq_true hplan)⟩

/-- The removal of a node fails at its commit, and the graph in memory has
    lost the node all the same. -/
theorem not_failed_write_harmless : ∃ s, begun oneInsert = some s ∧
    (call .postcard .small .base2 (.remove ⟨1⟩) (World.start s (.stop 0 .fail))).1 =
      .err .commitFailure ∧
    ¬ SameLater .postcard .small s
      (call .postcard .small .base2 (.remove ⟨1⟩) (World.start s (.stop 0 .fail))).2.state := by
  have hrun : (begun oneInsert).map (fun s =>
      (decide ((call .postcard .small .base2 (.remove ⟨1⟩) (World.start s (.stop 0 .fail))).1 =
          .err .commitFailure),
        s.index.graph.graph.live ⟨1⟩,
        (call .postcard .small .base2 (.remove ⟨1⟩)
          (World.start s (.stop 0 .fail))).2.state.index.graph.graph.live ⟨1⟩)) =
      some (true, some 0, none) := by
    decide +kernel
  obtain ⟨s, hs, hcall⟩ := Option.map_eq_some_iff.mp hrun
  simp only [Prod.mk.injEq, decide_eq_true_eq] at hcall
  obtain ⟨herr, hbefore, hafter⟩ := hcall
  refine ⟨s, hs, herr, fun hsame => ?_⟩
  rw [← hsame.alike.graph, hbefore] at hafter
  cases hafter

end HnswStore

end EidosDB
