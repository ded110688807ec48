import EidosDB.Storage.HnswReload

/-! # Records in Place

    Opening gives node `i` the vector of record `i`.  A write keeps its nodes
    in place if, before it, the file has no record yet where the new node
    goes, or the same vector there, and, for a compaction, the vector of each
    live point at the point's new number.  Runs of such writes reload
    faithfully; the two ways to leave the place are a rejected insert, which
    appends its vector all the same, and a compaction after a removal. -/

namespace EidosDB

open Bytes Effect HnswIndex

variable {pc : HnswCodec} {P : Platform} {config : HnswConfig} {dimension : Dimension}
  {recs : List Embedding} {s s' : HnswStore}

namespace HnswStore

/-- The record at a position of the segment file, if the file has it. -/
def recordAt (self : HnswStore) (slot : Nat) : Option (List F32) :=
  let bytes := self.disk.segment.getD []
  let start := headerLen + slot * self.index.segment.stride
  if start + self.index.segment.stride ≤ bytes.length then
    some (floatsOf ((bytes.drop start).take self.index.segment.stride))
  else none

/-- The nodes a call makes are where their vectors are in the file. -/
def InPlace (self : HnswStore) : HnswOp → Prop
  | .insert id e =>
    e.dimension = self.index.graph.dimension.get → self.index.graph.graph.live id = none →
      ∀ r, self.recordAt self.index.graph.graph.nodeCount = some r → r = e.values
  | .remove _ => True
  | .compact => ∀ (i : Nat) (p : VectorId × Embedding), self.index.graph.graph.points[i]? = some p →
      self.recordAt i = some p.2.values

/-- Every call of a run finds its nodes in place. -/
def AllInPlace (pc : HnswCodec) (P : Platform) : List (LevelFloat × HnswOp) → HnswStore → Prop
  | [], _ => True
  | c :: rest, s => s.InPlace c.2 ∧ ∀ o s', s.answer pc P c = some (o, s') → AllInPlace pc P rest s'

instance (self : HnswStore) (op : HnswOp) : Decidable (self.InPlace op) :=
  match op with
  | .insert id e =>
    inferInstanceAs (Decidable (e.dimension = self.index.graph.dimension.get →
      self.index.graph.graph.live id = none →
        ∀ r, self.recordAt self.index.graph.graph.nodeCount = some r → r = e.values))
  | .remove _ => isTrue trivial
  | .compact =>
    decidable_of_iff (∀ q ∈ self.index.graph.graph.points.zipIdx,
        self.recordAt q.2 = some q.1.2.values) (by
      constructor
      · intro h i p hp
        exact h (p, i) (List.mem_zipIdx_iff_getElem?.mpr hp)
      · intro h q hq
        exact h q.2 q.1 (List.mem_zipIdx_iff_getElem?.mp hq))

instance decidableAllInPlace (pc : HnswCodec) (P : Platform) :
    ∀ calls s, Decidable (AllInPlace pc P calls s)
  | [], _ => isTrue trivial
  | c :: rest, s =>
    have := decidableAllInPlace pc P rest
    decidable_of_iff (s.InPlace c.2 ∧ ∀ r, s.answer pc P c = some r → AllInPlace pc P rest r.2) (by
      constructor
      · intro h
        exact ⟨h.1, fun o s' hone => h.2 (o, s') hone⟩
      · intro h
        exact ⟨h.1, fun r hone => h.2 r.1 r.2 hone⟩)

theorem recordAt_eq (hrep : HnswRep pc config dimension recs s) (i : Nat) :
    s.recordAt i = recs[i]?.map Embedding.values := by
  have hpos := dimension.pos
  have huniform := hrep.disk.uniform
  have hlen := length_layout config.metric [] huniform
  rw [List.length_map, List.length_nil, Nat.add_zero] at hlen
  have hstride : s.index.segment.stride = dimension.get * 4 := by
    rw [Segment.stride, hrep.width]
  unfold recordAt
  dsimp only
  rw [hrep.disk.segment, Option.getD_some, hstride, hlen]
  cases hrec : recs[i]? with
  | none =>
    have hle : recs.length * (dimension.get * 4) ≤ i * (dimension.get * 4) :=
      Nat.mul_le_mul_right _ (List.getElem?_eq_none_iff.mp hrec)
    rw [if_neg (by omega), Option.map_none]
  | some e =>
    have hlt : (i + 1) * (dimension.get * 4) ≤ recs.length * (dimension.get * 4) :=
      Nat.mul_le_mul_right _ (List.getElem?_eq_some_iff.mp hrec).1
    rw [Nat.succ_mul] at hlt
    have hget : (recs.map Embedding.values)[i]? = some e.values := by
      rw [List.getElem?_map, hrec, Option.map_some]
    rw [if_pos (by omega), slice_layout huniform hget, floatsOf_bytesOf, Option.map_some]

/-- The place of a new node: its vector is appended there, or was there
    before. -/
theorem InPlace.record (hrep : HnswRep pc config dimension recs s) {id : VectorId} {e : Embedding}
    (h : s.InPlace (.insert id e)) (hdim : e.dimension = dimension.get)
    (hid : s.index.graph.graph.live id = none) :
    (recs ++ [e])[s.index.graph.graph.nodeCount]? = some e := by
  have hcount := hrep.disk.count
  have hplace := h (hdim.trans (congrArg Dimension.get hrep.disk.inv.dimension_eq.symm)) hid
  rw [recordAt_eq hrep] at hplace
  rcases Nat.lt_or_eq_of_le hcount with hlt | heq
  · have hrec := List.getElem?_eq_getElem hlt
    rw [List.getElem?_append_left hlt, hrec]
    exact congrArg some (Embedding.ext (hplace _ (by rw [hrec, Option.map_some])))
  · rw [heq, List.getElem?_append_right (le_refl _), Nat.sub_self]
    rfl

/-- What opening the files of a store gives. -/
theorem opened_reembedded (hrep : HnswRep pc config dimension recs s) :
    ∃ index, (s.disk.opened pc).1 = .ok index ∧ index.graph = s.index.graph.reembedded recs := by
  have hopen := HnswDisk.ends_openAt (w := World.start s.disk .none) hrep.disk
  unfold ends at hopen
  unfold HnswDisk.opened
  cases hrun : HnswDisk.openAt pc (World.start s.disk .none) with
  | mk o w =>
    rw [hrun] at hopen
    cases o with
    | ok index => exact ⟨index, rfl, hopen.2.1⟩
    | err e => exact absurd hopen.1.planned (by simp [World.start, Plan.how])
    | crashed => exact absurd hopen.1.planned (by simp [World.start, Plan.how])
    | panicked => exact absurd hopen.1.planned (by simp [World.start, Plan.how])

end HnswStore

/-! ## Inserts and removals -/

/-- The embeddings of the accepted inserts of a run, in order. -/
def acceptedEmbeddings :
    List (LevelFloat × HnswOp) → List (Outcome StorageError HnswReply) → List Embedding
  | (_, .insert _ e) :: calls, .ok _ :: as => e :: acceptedEmbeddings calls as
  | _ :: calls, _ :: as => acceptedEmbeddings calls as
  | _, _ => []

/-- Without compactions, the nodes are the accepted inserts, and their vectors
    the first records. -/
theorem HnswStore.answers_prefix (hrep : HnswRep pc config dimension recs s)
    (hinitial : s.index.graph.graph.nodes.map Node.embedding <+: recs)
    {calls : List (LevelFloat × HnswOp)} (hwrites : ∀ c ∈ calls, c.2 ≠ .compact)
    {as : List (Outcome StorageError HnswReply)} (hrun : s.answers pc P calls = some (as, s'))
    (hplace : s.AllInPlace pc P calls) :
    ∃ recs', HnswRep pc config dimension recs' s' ∧
      s'.index.graph.graph.nodes.map Node.embedding =
        s.index.graph.graph.nodes.map Node.embedding ++ acceptedEmbeddings calls as ∧
      s'.index.graph.graph.nodes.map Node.embedding <+: recs' := by
  induction calls generalizing s recs as with
  | nil =>
    cases hrun
    exact ⟨recs, hrep, (List.append_nil _).symm, hinitial⟩
  | cons c rest ih =>
    obtain ⟨o, s₁, as₁, hone, hrest, rfl⟩ := answers_cons hrun
    obtain ⟨recs₁, hrep₁, hchange⟩ := answer_cases hrep hone
    obtain ⟨hhere, hthere⟩ := hplace
    have hwrites' : ∀ c ∈ rest, c.2 ≠ .compact :=
      fun c hc => hwrites c (List.mem_cons_of_mem _ hc)
    have hnot := hwrites c List.mem_cons_self
    obtain ⟨levelFloat, op⟩ := c
    -- how far the call extends the nodes and the records
    have hstep : s₁.index.graph.graph.nodes.map Node.embedding <+: recs₁ ∧
        s₁.index.graph.graph.nodes.map Node.embedding ++ acceptedEmbeddings rest as₁ =
          s.index.graph.graph.nodes.map Node.embedding ++
            acceptedEmbeddings ((levelFloat, op) :: rest) (o :: as₁) := by
      dsimp only at hchange hhere hnot
      generalize s₁.index.graph = g₁ at hchange
      cases hchange with
      | @inserted id e level delta _ hdim hid hi =>
        have hnodes := hi.nodes_map Node.embedding (fun _ => rfl)
        rw [hnodes]
        refine ⟨?_, by rw [List.append_assoc]; rfl⟩
        have hrec := hhere.record hrep hdim hid
        obtain ⟨tail, rfl⟩ := hinitial
        rw [List.append_assoc, List.getElem?_append_right
          (by rw [List.length_map]; exact le_refl _)] at hrec
        simp only [HnswGraph.nodeCount, List.length_map, Nat.sub_self] at hrec
        rw [List.append_assoc]
        apply (List.prefix_append_right_inj _).mpr
        cases htail : tail ++ [e] with
        | nil => simp at htail
        | cons a l =>
          rw [htail] at hrec
          obtain rfl : a = e := by simpa using hrec
          exact List.prefix_append [a] l
      | refused news _ =>
        exact ⟨hinitial.trans (List.prefix_append _ _), rfl⟩
      | removed id =>
        rw [map_embedding_removeTracked hrep.disk.inv id]
        exact ⟨hinitial, rfl⟩
      | compacted _ _ => exact absurd rfl hnot
    obtain ⟨recs', hrep', hnodes, hinitial'⟩ := ih hrep₁ hstep.1 hwrites' hrest (hthere _ _ hone)
    exact ⟨recs', hrep', hnodes.trans hstep.2, hinitial'⟩

/-- A run of inserts and removals whose accepted inserts are in place reloads
    the graph as it is, every node with the vector of its insert. -/
theorem HnswStore.reload_inserts {disk : HnswDisk} (hempty : disk.db.NoNodes)
    (hmade : disk.made pc P config dimension .create = some s)
    {calls : List (LevelFloat × HnswOp)} (hwrites : ∀ c ∈ calls, c.2 ≠ .compact)
    {as : List (Outcome StorageError HnswReply)} (hrun : s.answers pc P calls = some (as, s'))
    (hplace : s.AllInPlace pc P calls) :
    ∃ index, (s'.disk.opened pc).1 = .ok index ∧
      index.graph.snapshot = s'.index.graph.snapshot ∧
      index.graph.graph.nodes.map Node.embedding = acceptedEmbeddings calls as := by
  obtain ⟨hrep, hnone, -⟩ := HnswDisk.made_rep hempty hmade
  have hinitial : s.index.graph.graph.nodes.map Node.embedding <+: HnswStart.create.points.map
      Prod.snd := by rw [hnone]
  obtain ⟨recs', hrep', hnodes, tail, htail⟩ :=
    answers_prefix hrep hinitial hwrites hrun hplace
  obtain ⟨index, hopen, hgraph⟩ := opened_reembedded hrep'
  have hself : s'.index.graph.graph.reembedded recs' = s'.index.graph.graph := by
    apply HnswGraph.reembedded_self
    intro n node e hnode he
    have hlt : n < (s'.index.graph.graph.nodes.map Node.embedding).length := by
      rw [List.length_map]
      exact (List.getElem?_eq_some_iff.mp hnode).1
    rw [← htail, List.getElem?_append_left hlt, List.getElem?_map, hnode] at he
    exact (Option.some.inj he).symm
  refine ⟨index, hopen, ?_, ?_⟩
  · rw [hgraph, snapshot_reembedded hrep'.disk.inv hrep'.disk.dims]
  · rw [hgraph, graph_reembedded, hself, hnodes, hnone]
    rfl

/-- What `read` finds in the index a clean `open` returns. -/
def HnswDisk.inspect {α : Type} (disk : HnswDisk) (read : HnswGraph → α) : Option α :=
  match (disk.opened .postcard).1 with
  | .ok index => some (read index.graph.graph)
  | _ => none

theorem HnswDisk.inspect_ok {α : Type} {disk : HnswDisk} {index : PersistentHnswIndex}
    (hopen : (disk.opened .postcard).1 = .ok index) (read : HnswGraph → α) :
    disk.inspect read = some (read index.graph.graph) := by
  unfold HnswDisk.inspect
  rw [hopen]

/-- An accepted insert, the same id again, and another id. -/
def duplicateCalls : List (LevelFloat × HnswOp) :=
  [ (.base2, .insert ⟨1⟩ (.single (F32.ofInt 3) (.refl true))),
    (.base2, .insert ⟨1⟩ (.single (F32.ofInt 5) (.refl true))),
    (.base2, .insert ⟨2⟩ (.single (F32.ofInt 7) (.refl true))) ]

/-- The second vector is never accepted, and becomes the third's after a
    reload. -/
theorem HnswStore.not_reload_duplicate : ∃ s as s',
    HnswDisk.empty.made .postcard .small (.degreeTwo 50) .one .create = some s ∧
    s.answers .postcard .small duplicateCalls = some (as, s') ∧
    ¬ ∃ index, (s'.disk.opened .postcard).1 = .ok index ∧
      index.graph.snapshot = s'.index.graph.snapshot ∧
      index.graph.graph.nodes.map Node.embedding = acceptedEmbeddings duplicateCalls as := by
  have hrun : ((HnswDisk.empty.made .postcard .small (.degreeTwo 50) .one .create).bind fun s =>
      (s.answers .postcard .small duplicateCalls).map fun r =>
        (acceptedEmbeddings duplicateCalls r.1,
          r.2.disk.inspect fun g => g.nodes.map Node.embedding)) =
      some ([.single (F32.ofInt 3) (.refl true), .single (F32.ofInt 7) (.refl true)],
        some [.single (F32.ofInt 3) (.refl true), .single (F32.ofInt 5) (.refl true)]) := by
    decide +kernel
  obtain ⟨s, hmade, hrun⟩ := Option.bind_eq_some_iff.mp hrun
  obtain ⟨⟨as, s'⟩, hrun, heq⟩ := Option.map_eq_some_iff.mp hrun
  refine ⟨s, as, s', hmade, hrun, ?_⟩
  rintro ⟨index, hopen, -, hnodes⟩
  rw [HnswDisk.inspect_ok hopen, Prod.mk.injEq] at heq
  have hclash := ((Option.some.inj heq.2).symm.trans hnodes).trans heq.1
  revert hclash
  decide

/-- The duplicate comes last. -/
def reinsertedCalls : List (LevelFloat × HnswOp) :=
  [ (.base2, .insert ⟨1⟩ (.single (F32.ofInt 3) (.refl true))),
    (.base2, .insert ⟨2⟩ (.single (F32.ofInt 5) (.refl true))),
    (.base2, .remove ⟨1⟩),
    (.base2, .insert ⟨1⟩ (.single (F32.ofInt 7) (.refl true))),
    (.base2, .insert ⟨2⟩ (.single (F32.ofInt 9) (.refl true))) ]

theorem HnswStore.reload_inserts_reinserted : ∃ s as s' index,
    HnswDisk.empty.made .postcard .small (.degreeTwo 50) .one .create = some s ∧
    s.answers .postcard .small reinsertedCalls = some (as, s') ∧
    (s'.disk.opened .postcard).1 = .ok index ∧
    index.graph.snapshot = s'.index.graph.snapshot ∧
    index.graph.graph.nodes.map Node.embedding = acceptedEmbeddings reinsertedCalls as ∧
    (acceptedEmbeddings reinsertedCalls as).length = 3 := by
  have hrun : ((HnswDisk.empty.made .postcard .small (.degreeTwo 50) .one .create).bind fun s =>
      (s.answers .postcard .small reinsertedCalls).map fun r =>
        (decide (s.AllInPlace .postcard .small reinsertedCalls),
          (acceptedEmbeddings reinsertedCalls r.1).length)) = some (true, 3) := by
    decide +kernel
  obtain ⟨s, hmade, hrun⟩ := Option.bind_eq_some_iff.mp hrun
  obtain ⟨⟨as, s'⟩, hrun, heq⟩ := Option.map_eq_some_iff.mp hrun
  rw [Prod.mk.injEq, decide_eq_true_eq] at heq
  have hwrites : ∀ c ∈ reinsertedCalls, c.2 ≠ .compact := by
    simp [reinsertedCalls]
  obtain ⟨index, hopen, hsnap, hnodes⟩ := reload_inserts (fun _ => rfl) hmade hwrites hrun heq.1
  exact ⟨s, as, s', index, hmade, hrun, hopen, hsnap, hnodes, heq.2⟩

/-! ## Compactions -/

/-- The contents once an accepted call took effect. -/
def HnswOp.apply : HnswOp → (VectorId → Option Embedding) → VectorId → Option Embedding
  | .insert id e, contents => Function.update contents id (some e)
  | .remove id, contents => Function.update contents id none
  | .compact, contents => contents

/-- The contents a run of accepted calls leaves: for each id, the embedding of
    its last insert or load. -/
def lastWritten (start : HnswStart) (calls : List (LevelFloat × HnswOp)) :
    VectorId → Option Embedding :=
  calls.foldl (fun contents c => c.2.apply contents)
    (fun id => (start.points.find? fun p => decide (p.1 = id)).map Prod.snd)

/-- The vector of each live node is the record of its number. -/
def LiveInPlace (g : HnswIndex) (recs : List Embedding) : Prop :=
  ∀ (n : Nat) (node : Node), g.graph.nodes[n]? = some node → node.tombstone = false →
    recs[n]? = some node.embedding

section LiveInPlace

variable {g g' : HnswIndex}

theorem LiveInPlace.inserted (h : LiveInPlace g recs) {id : VectorId} {e : Embedding} {level : Nat}
    {delta : InsertDelta} (hi : Inserted g id e level delta g')
    (hrec : (recs ++ [e])[g.graph.nodeCount]? = some e) : LiveInPlace g' (recs ++ [e]) := by
  intro n node hnode ht
  have hnodes := hi.nodes_map (fun x => (x.embedding, x.tombstone)) (fun _ => rfl)
  have hread : (g'.graph.nodes.map (fun x => (x.embedding, x.tombstone)))[n]? = _ :=
    congrArg (fun l => l[n]?) hnodes
  rw [List.getElem?_map, hnode, Option.map_some] at hread
  rcases lt_trichotomy n g.graph.nodes.length with hlt | heq | hgt
  · rw [List.getElem?_append_left (by rwa [List.length_map]), List.getElem?_map] at hread
    obtain ⟨old, hold, heq⟩ := Option.map_eq_some_iff.mp hread.symm
    rw [Prod.mk.injEq] at heq
    have hkept := h n old hold (heq.2.trans ht)
    rw [List.getElem?_append_left (List.getElem?_eq_some_iff.mp hkept).1, hkept, heq.1]
  · rw [List.getElem?_append_right (by rw [List.length_map]; omega), List.length_map,
      heq, Nat.sub_self] at hread
    have he : node.embedding = e := congrArg Prod.fst (Option.some.inj hread)
    rw [heq, he]
    exact hrec
  · rw [List.getElem?_eq_none (by
      rw [List.length_append, List.length_map, List.length_singleton]; omega)] at hread
    exact absurd hread (by simp)

theorem LiveInPlace.removed (hinv : Inv config dimension g) (h : LiveInPlace g recs)
    (id : VectorId) : LiveInPlace (g.removeTracked id).2 recs := by
  have houtcome := removeTracked_outcome hinv id
  generalize g.removeTracked id = out at houtcome
  obtain ⟨result, g'⟩ := out
  cases houtcome with
  | absent => exact h
  | @removed marked _ =>
    intro n node hnode ht
    rw [HnswGraph.nodes_setEntryPoint, HnswGraph.getElem?_withTombstone] at hnode
    obtain ⟨old, hold, rfl⟩ := Option.map_eq_some_iff.mp hnode
    split at ht
    · exact absurd ht (by simp)
    · next hne =>
      rw [if_neg hne]
      exact h n old hold ht

theorem LiveInPlace.compacted {points : List (VectorId × Embedding)}
    (hnodes : g'.graph.nodes.map (fun n => (n.id, n.embedding)) = points)
    (hplace : ∀ (i : Nat) p, points[i]? = some p → recs[i]? = some p.2) : LiveInPlace g' recs := by
  intro n node hnode _
  apply hplace n (node.id, node.embedding)
  rw [← hnodes, List.getElem?_map, hnode, Option.map_some]

end LiveInPlace

theorem HnswStore.answers_live (hrep : HnswRep pc config dimension recs s)
    (hlive : LiveInPlace s.index.graph recs) {calls : List (LevelFloat × HnswOp)}
    {as : List (Outcome StorageError HnswReply)} (hrun : s.answers pc P calls = some (as, s'))
    (haccepted : ∀ o ∈ as, ∃ reply, o = .ok reply) (hplace : s.AllInPlace pc P calls) :
    ∃ recs', HnswRep pc config dimension recs' s' ∧ LiveInPlace s'.index.graph recs' ∧
      s'.index.graph.graph.contents =
        calls.foldl (fun contents c => c.2.apply contents) s.index.graph.graph.contents := by
  induction calls generalizing s recs as with
  | nil =>
    cases hrun
    exact ⟨recs, hrep, hlive, rfl⟩
  | cons c rest ih =>
    obtain ⟨o, s₁, as₁, hone, hrest, rfl⟩ := answers_cons hrun
    obtain ⟨recs₁, hrep₁, hchange⟩ := answer_cases hrep hone
    obtain ⟨hhere, hthere⟩ := hplace
    have haccepted' : ∀ o ∈ as₁, ∃ reply, o = .ok reply :=
      fun o ho => haccepted o (List.mem_cons_of_mem _ ho)
    obtain ⟨reply, hreply⟩ := haccepted o List.mem_cons_self
    have hinv := hrep.disk.inv
    have hinv₁ := hrep₁.disk.inv
    obtain ⟨levelFloat, op⟩ := c
    have hstep : LiveInPlace s₁.index.graph recs₁ ∧
        s₁.index.graph.graph.contents = op.apply s.index.graph.graph.contents := by
      dsimp only at hchange hhere
      generalize s₁.index.graph = g₁ at hchange hinv₁
      cases hchange with
      | inserted hdim hid hi =>
        exact ⟨hlive.inserted hi (hhere.record hrep hdim hid), contents_inserted hinv hi⟩
      | refused _ _ => exact absurd hreply (by simp)
      | removed id => exact ⟨hlive.removed hinv id, contents_removed hinv id⟩
      | compacted hnodes hpoints =>
        refine ⟨LiveInPlace.compacted hnodes ?_, contents_of_points hinv hinv₁ hpoints⟩
        intro i p hp
        have hrec := hhere i p hp
        rw [recordAt_eq hrep] at hrec
        obtain ⟨e, he, hvalues⟩ := Option.map_eq_some_iff.mp hrec
        rw [he, Embedding.ext hvalues]
    obtain ⟨recs', hrep', hlive', hcontents⟩ :=
      ih hrep₁ hstep.1 hrest haccepted' (hthere _ _ hone)
    refine ⟨recs', hrep', hlive', ?_⟩
    rw [hcontents, hstep.2, List.foldl_cons]

/-- A run of accepted inserts, removals and compactions that are all in place
    reloads its contents: every live id has the embedding of its last accepted
    insert, before and after. -/
theorem HnswStore.reload_contents {disk : HnswDisk} (hempty : disk.db.NoNodes) {start : HnswStart}
    (hmade : disk.made pc P config dimension start = some s)
    {calls : List (LevelFloat × HnswOp)} {as : List (Outcome StorageError HnswReply)}
    (hrun : s.answers pc P calls = some (as, s'))
    (haccepted : ∀ o ∈ as, ∃ reply, o = .ok reply) (hplace : s.AllInPlace pc P calls) :
    ∃ index, (s'.disk.opened pc).1 = .ok index ∧
      (∀ id, index.graph.graph.contents id = s'.index.graph.graph.contents id) ∧
      ∀ id, s'.index.graph.graph.contents id = lastWritten start calls id := by
  obtain ⟨hrep, hnodes, hpoints⟩ := HnswDisk.made_rep hempty hmade
  have hlive : LiveInPlace s.index.graph (start.points.map Prod.snd) := by
    intro n node hnode _
    rw [← hnodes, List.getElem?_map, hnode, Option.map_some]
  obtain ⟨recs', hrep', hlive', hcontents⟩ := answers_live hrep hlive hrun haccepted hplace
  obtain ⟨index, hopen, hgraph⟩ := opened_reembedded hrep'
  refine ⟨index, hopen, ?_, ?_⟩
  · rw [hgraph]
    exact (HnswGraph.contents_reembedded_iff hrep'.disk.inv.nodes hrep'.disk.count).mpr hlive'
  · intro id
    have hstart : s.index.graph.graph.contents =
        fun id => (start.points.find? fun p => decide (p.1 = id)).map Prod.snd := by
      funext id
      rw [contents_eq_find hrep.disk.inv, hpoints]
    rw [hcontents, hstart, lastWritten]

/-- A compaction once the older of two points is removed. -/
def shiftedCalls : List (LevelFloat × HnswOp) :=
  [ (.base2, .insert ⟨1⟩ (.single (F32.ofInt 3) (.refl true))),
    (.base2, .insert ⟨2⟩ (.single (F32.ofInt 5) (.refl true))),
    (.base2, .remove ⟨1⟩),
    (.base2, .compact) ]

/-- The point left takes the vector of the point removed. -/
theorem HnswStore.not_reload_shifted : ∃ s as s',
    HnswDisk.empty.made .postcard .small (.degreeTwo 50) .one .create = some s ∧
    s.answers .postcard .small shiftedCalls = some (as, s') ∧
    (∀ o ∈ as, ∃ reply, o = .ok reply) ∧
    ¬ ∃ index, (s'.disk.opened .postcard).1 = .ok index ∧
      ∀ id, index.graph.graph.contents id = s'.index.graph.graph.contents id := by
  have hrun : ((HnswDisk.empty.made .postcard .small (.degreeTwo 50) .one .create).bind fun s =>
      (s.answers .postcard .small shiftedCalls).map fun r =>
        (r.1, r.2.index.graph.graph.contents ⟨2⟩,
          r.2.disk.inspect fun g => g.contents ⟨2⟩)) =
      some ([.ok .done, .ok .done, .ok (.removed true), .ok .done],
        some (.single (F32.ofInt 5) (.refl true)),
        some (some (.single (F32.ofInt 3) (.refl true)))) := by
    decide +kernel
  obtain ⟨s, hmade, hrun⟩ := Option.bind_eq_some_iff.mp hrun
  obtain ⟨⟨as, s'⟩, hrun, heq⟩ := Option.map_eq_some_iff.mp hrun
  rw [Prod.mk.injEq, Prod.mk.injEq] at heq
  obtain ⟨has, hbefore, hafter⟩ := heq
  dsimp only at has hbefore hafter
  refine ⟨s, as, s', hmade, hrun, ?_, ?_⟩
  · rw [has]
    simp
  · rintro ⟨index, hopen, hsame⟩
    rw [HnswDisk.inspect_ok hopen] at hafter
    have hclash := ((Option.some.inj hafter).symm.trans (hsame ⟨2⟩)).trans hbefore
    revert hclash
    decide

/-- Of three points the last is removed before the compaction, and its vector
    is inserted again. -/
def keptCalls : List (LevelFloat × HnswOp) :=
  [ (.base2, .insert ⟨3⟩ (.single (F32.ofInt 7) (.refl true))),
    (.base2, .remove ⟨3⟩),
    (.base2, .compact),
    (.base2, .insert ⟨4⟩ (.single (F32.ofInt 7) (.refl true))) ]

/-- Two points loaded at once. -/
def loadTwo : HnswStart :=
  .bulkLoad .base2
    [ (⟨1⟩, .single (F32.ofInt 3) (.refl true)), (⟨2⟩, .single (F32.ofInt 5) (.refl true)) ]

theorem HnswStore.reload_contents_kept : ∃ s as s' index,
    HnswDisk.empty.made .postcard .small (.degreeTwo 50) .one loadTwo = some s ∧
    s.answers .postcard .small keptCalls = some (as, s') ∧
    (s'.disk.opened .postcard).1 = .ok index ∧
    (∀ id, index.graph.graph.contents id = s'.index.graph.graph.contents id) ∧
    ∀ id, s'.index.graph.graph.contents id = lastWritten loadTwo keptCalls id := by
  have hrun : ((HnswDisk.empty.made .postcard .small (.degreeTwo 50) .one loadTwo).bind fun s =>
      (s.answers .postcard .small keptCalls).map fun r =>
        (decide (s.AllInPlace .postcard .small keptCalls), r.1)) =
      some (true, [.ok .done, .ok (.removed true), .ok .done, .ok .done]) := by
    decide +kernel
  obtain ⟨s, hmade, hrun⟩ := Option.bind_eq_some_iff.mp hrun
  obtain ⟨⟨as, s'⟩, hrun, heq⟩ := Option.map_eq_some_iff.mp hrun
  rw [Prod.mk.injEq, decide_eq_true_eq] at heq
  obtain ⟨hplace, has⟩ := heq
  dsimp only at has
  have haccepted : ∀ o ∈ as, ∃ reply, o = .ok reply := by
    rw [has]
    simp
  obtain ⟨index, hopen, hsame, hwritten⟩ :=
    reload_contents (fun _ => rfl) hmade hrun haccepted hplace
  exact ⟨s, as, s', index, hmade, hrun, hopen, hsame, hwritten⟩

end EidosDB
