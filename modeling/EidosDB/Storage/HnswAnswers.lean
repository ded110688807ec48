import EidosDB.Storage.HnswReload
import EidosDB.Storage.HnswTrace

/-! # Answers of the Persistent Graph

    Every call changes the graph in memory exactly as it changes an index
    that is only in memory.  The answers agree too, with one exception: an
    insert appends its vector before the graph looks at it, and the segment
    file refuses a vector that is no whole number of records with an error of
    its own. -/

namespace EidosDB

open Bytes Effect HnswIndex

variable {pc : HnswCodec} {P : Platform} {config : HnswConfig} {dimension : Dimension}

/-- What a call on the index in memory answers, as an outcome. -/
def Answer.reply : Answer → Outcome IndexError HnswReply
  | .done (.ok ()) => .ok .done
  | .done (.error e) => .err e
  | .removed (.ok existed) => .ok (.removed existed)
  | .removed (.error e) => .err e

/-- What the segment file asks of the vector of an insert. -/
def HnswOp.Whole (dimension : Dimension) : HnswOp → Prop
  | .insert _ e => e.dimension % dimension.get = 0
  | .remove _ => True
  | .compact => True

namespace HnswStore

/-- An open store, whatever its tables and its vectors are. -/
structure Live (config : HnswConfig) (dimension : Dimension) (s : HnswStore) : Prop where
  inv : Inv config dimension s.index.graph
  width : s.index.segment.dimension = dimension.get
  segment : ∃ bytes, s.disk.segment = some bytes ∧ bytes.length ≤ maxFileLen
  catalog : ∃ db, s.disk.catalog = some db

variable {s s' : HnswStore}

theorem Live.withGraph (h : s.Live config dimension) {graph : HnswIndex}
    (hinv : Inv config dimension graph) : (s.withGraph graph).Live config dimension where
  inv := hinv
  width := h.width
  segment := h.segment
  catalog := h.catalog

theorem Live.withDb (h : s.Live config dimension) (db : HnswDb) :
    (s.withDb db).Live config dimension where
  inv := h.inv
  width := h.width
  segment := h.segment
  catalog := ⟨db, rfl⟩

theorem Live.withTail (h : s.Live config dimension) {bytes part : List Byte}
    (hbytes : s.disk.segment = some bytes) (hlen : bytes.length + part.length ≤ maxFileLen) :
    (s.withTail part).Live config dimension where
  inv := h.inv
  width := h.width
  segment := ⟨bytes ++ part, by simp [HnswStore.withTail, hbytes], by rwa [List.length_append]⟩
  catalog := h.catalog

/-- A call of the store next to the same call of its graph in memory. -/
structure Agrees (pc : HnswCodec) (P : Platform) (config : HnswConfig) (dimension : Dimension)
    (levelFloat : LevelFloat) (op : HnswOp) (s : HnswStore) (o : Outcome StorageError HnswReply)
    (s' : HnswStore) : Prop where
  live : s'.Live config dimension
  step : ∃ a, s.index.graph.step P levelFloat op = some (a, s'.index.graph) ∧
    (o.mapErr StorageError.toIndexError = a.reply ↔ op.Whole dimension)

variable (pc P)

theorem agrees_insert (h : s.Live config dimension) (levelFloat : LevelFloat) (id : VectorId)
    (e : Embedding) : ∃ marks o s', Traces (call pc P levelFloat (.insert id e)) s marks o s' ∧
      (o = .err (.io .fileTooLarge) ∨
        Agrees pc P config dimension levelFloat (.insert id e) s o s') := by
  obtain ⟨bytes, hbytes, hmax⟩ := h.segment
  obtain ⟨db, hdb⟩ := h.catalog
  have hpos := dimension.pos
  have hdim : s.index.segment.dimension ≠ 0 := by
    rw [h.width]
    omega
  obtain ⟨r, graph, hcall, houtcome, hinv⟩ :=
    insertTracked_spec (P := P) h.inv levelFloat id e
  have hstep : s.index.graph.step P levelFloat (.insert id e) =
      some (.done (r.map fun _ => ()), graph) := by
    show (s.index.graph.insert P levelFloat id e).map _ = _
    rw [HnswIndex.insert, hcall]
    rfl
  by_cases hwhole : e.values.length % s.index.segment.dimension = 0
  · rcases Nat.lt_or_ge maxFileLen (bytes.length + e.values.length * 4) with hfull | hroom
    · obtain ⟨marks, s', htrace, -⟩ :=
        traces_insert_full pc P levelFloat id hbytes hdim hwhole hmax hfull
      exact ⟨_, _, _, traces_bind_err htrace, Or.inl rfl⟩
    · have htail : (s.withTail (bytesOf e.values)).Live config dimension :=
        h.withTail hbytes (by rwa [length_bytesOf])
      have hlive := htail.withGraph hinv
      have hagrees : HnswOp.Whole dimension (.insert id e) := by
        rw [h.width] at hwhole
        exact hwhole
      cases r with
      | error error =>
        obtain ⟨marks, htrace, -⟩ :=
          traces_insert_rejected pc P levelFloat id hbytes hdim hwhole hroom hcall
        exact ⟨_, _, _, traces_bind_err htrace,
          Or.inr ⟨hlive, _, hstep, iff_of_true rfl hagrees⟩⟩
      | ok delta =>
        obtain ⟨marks, htrace, -⟩ :=
          traces_insert_ok pc P levelFloat id hdb hbytes hdim hwhole hroom hcall
        exact ⟨_, _, _, traces_bind htrace (traces_pure _ _),
          Or.inr ⟨hlive.withDb _, _, hstep, iff_of_true rfl hagrees⟩⟩
  · -- the graph does not come to see the vector
    obtain ⟨message, htrace⟩ := traces_insert_ragged pc P levelFloat id hbytes hdim hwhole
    rw [h.width] at hwhole
    have hne : e.dimension ≠ s.index.graph.dimension.get := by
      rw [h.inv.dimension_eq]
      intro heq
      exact hwhole (by rw [show e.values.length = _ from heq, Nat.mod_self])
    cases houtcome with
    | mismatch =>
      refine ⟨_, _, _, traces_bind_err htrace, Or.inr ⟨h, _, hstep, ?_⟩⟩
      exact iff_of_false (by simp [Outcome.mapErr, StorageError.toIndexError, Answer.reply,
        Except.map]) hwhole
    | duplicate hdim => exact absurd hdim hne
    | accepted hdim => exact absurd hdim hne

theorem agrees_remove (h : s.Live config dimension) (levelFloat : LevelFloat) (id : VectorId) :
    ∃ marks o s', Traces (call pc P levelFloat (.remove id)) s marks o s' ∧
      Agrees pc P config dimension levelFloat (.remove id) s o s' := by
  obtain ⟨db, hdb⟩ := h.catalog
  have houtcome := removeTracked_outcome h.inv id
  have hinv := houtcome.inv h.inv
  have hstep : s.index.graph.step P levelFloat (.remove id) =
      some (.removed ((s.index.graph.removeTracked id).1.map Option.isSome),
        (s.index.graph.removeTracked id).2) := rfl
  generalize hr : s.index.graph.removeTracked id = r at houtcome hinv hstep
  obtain ⟨result, graph⟩ := r
  cases result with
  | error e => cases houtcome
  | ok delta =>
    exact ⟨_, _, _, traces_bind (traces_remove hdb hr) (traces_pure _ _),
      (h.withGraph hinv).withDb _, _, hstep, iff_of_true rfl trivial⟩

theorem agrees_compact (h : s.Live config dimension) (levelFloat : LevelFloat) :
    ∃ marks o s', Traces (call pc P levelFloat .compact) s marks o s' ∧
      Agrees pc P config dimension levelFloat .compact s o s' := by
  obtain ⟨db, hdb⟩ := h.catalog
  obtain ⟨graph, hcall, hinv, -⟩ := compact_spec (P := P) h.inv levelFloat
  have hgraph := traces_onGraph_ok (s := s) (f := fun graph => graph.compact P levelFloat) hcall
  have hflush : Traces (flushSnapshot pc) (s.withGraph graph) _ (.ok ()) _ :=
    traces_next (traces_get _) (traces_transaction (HnswDb.flushed pc graph.snapshot) hdb)
  refine ⟨_, _, _, traces_bind (traces_bind hgraph hflush) (traces_pure _ _),
    (h.withGraph hinv).withDb _, .done (.ok ()), ?_, iff_of_true rfl trivial⟩
  show (s.index.graph.compact P levelFloat).map _ = _
  rw [hcall]
  rfl

theorem traces_call (h : s.Live config dimension) (levelFloat : LevelFloat) (op : HnswOp) :
    ∃ marks o s', Traces (call pc P levelFloat op) s marks o s' ∧
      (o = .err (.io .fileTooLarge) ∨ Agrees pc P config dimension levelFloat op s o s') := by
  cases op with
  | insert id e => exact agrees_insert pc P h levelFloat id e
  | remove id =>
    obtain ⟨marks, o, s', htrace, hagrees⟩ := agrees_remove pc P h levelFloat id
    exact ⟨marks, o, s', htrace, Or.inr hagrees⟩
  | compact =>
    obtain ⟨marks, o, s', htrace, hagrees⟩ := agrees_compact pc P h levelFloat
    exact ⟨marks, o, s', htrace, Or.inr hagrees⟩

variable {pc P}

/-- One call that nothing interrupts. -/
theorem answer_agrees (h : s.Live config dimension) {c : LevelFloat × HnswOp}
    {o : Outcome StorageError HnswReply} (hrun : s.answer pc P c = some (o, s')) :
    Agrees pc P config dimension c.1 c.2 s o s' := by
  obtain ⟨marks, o₁, s₁, htrace, hend⟩ := traces_call pc P h c.1 c.2
  obtain ⟨ho, hs⟩ := htrace.undisturbed
  unfold answer at hrun
  dsimp only at hrun
  rw [ho, hs] at hrun
  split at hrun
  · cases hrun
  · next hroom =>
    cases hrun
    exact hend.resolve_left hroom

/-- Runs: the graphs stay the same, and the answers are the same if and only if
    every vector is a whole number of records. -/
theorem answers_agree (h : s.Live config dimension) {calls : List (LevelFloat × HnswOp)}
    {as : List (Outcome StorageError HnswReply)} (hrun : s.answers pc P calls = some (as, s')) :
    ∃ as', s.index.graph.run P calls = some (as', s'.index.graph) ∧
      (as.map (Outcome.mapErr StorageError.toIndexError) = as'.map Answer.reply ↔
        ∀ c ∈ calls, c.2.Whole dimension) := by
  induction calls generalizing s as with
  | nil =>
    cases hrun
    exact ⟨[], rfl, by simp⟩
  | cons c rest ih =>
    obtain ⟨o, s₁, as₁, hone, hrest, rfl⟩ := answers_cons hrun
    obtain ⟨hlive, a, hstep, hsame⟩ := answer_agrees h hone
    obtain ⟨as', hrun', hall⟩ := ih hlive hrest
    refine ⟨a :: as', ?_, ?_⟩
    · rw [HnswIndex.run, hstep, Option.bind_some, hrun']
      rfl
    · rw [List.map_cons, List.map_cons, List.cons.injEq, hsame, hall, List.forall_mem_cons]

end HnswStore

theorem HnswDisk.made_inv {disk : HnswDisk} {start : HnswStart} {s : HnswStore}
    (h : disk.made pc P config dimension start = some s) :
    ∃ index w, make pc P config dimension start (World.start disk .none) = (.ok index, w) ∧
      s = { disk := w.state, index := index } := by
  unfold made at h
  cases hrun : make pc P config dimension start (World.start disk .none) with
  | mk o w =>
    rw [hrun] at h
    cases o with
    | ok index => exact ⟨index, w, rfl, (Option.some.inj h).symm⟩
    | err e => cases h
    | crashed => cases h
    | panicked => cases h

/-- A store that was just created. -/
theorem HnswDisk.live_of_created {disk : HnswDisk} {s : HnswStore}
    (h : disk.made pc P config dimension .create = some s) :
    s.index.graph = HnswIndex.new config dimension ∧ s.Live config dimension := by
  obtain ⟨index, w, hrun, rfl⟩ := made_inv h
  have hrun : create pc config dimension (World.start disk .none) = (.ok index, w) := hrun
  cases hsegment : disk.segment with
  | some bytes =>
    obtain ⟨marks, htrace⟩ := @traces_create_exists pc config dimension disk bytes hsegment
    have herr := htrace.undisturbed.1
    rw [hrun] at herr
    cases herr
  | none =>
    obtain ⟨marks, htrace⟩ := @traces_create_new pc config dimension disk hsegment
    obtain ⟨hok, hstate⟩ := htrace.ok_inv hrun
    obtain rfl := Outcome.ok.inj hok
    refine ⟨rfl, inv_new config dimension, rfl, ⟨Segment.headerOf config.metric dimension, ?_, ?_⟩,
      ?_⟩
    · rw [hstate]
    · rw [Segment.length_headerOf]
      decide
    · rw [hstate]
      exact ⟨_, rfl⟩

/-- **The persistent graph answers like the graph in memory.**  In every run of
    calls on a store that was just created, in which the file system has room,
    the graphs are the same after every call.  The answers are the same if
    and only if the length of every inserted vector is a multiple of the
    index dimension. -/
theorem HnswStore.answers_like_memory (pc : HnswCodec) (P : Platform) (config : HnswConfig)
    (dimension : Dimension) (disk : HnswDisk) (s s' : HnswStore)
    (calls : List (LevelFloat × HnswOp)) (as : List (Outcome StorageError HnswReply))
    (hmade : disk.made pc P config dimension .create = some s)
    (hrun : s.answers pc P calls = some (as, s')) :
    ∃ as', (HnswIndex.new config dimension).run P calls = some (as', s'.index.graph) ∧
      (as.map (Outcome.mapErr StorageError.toIndexError) = as'.map Answer.reply ↔
        ∀ c ∈ calls, c.2.Whole dimension) := by
  obtain ⟨hgraph, hlive⟩ := HnswDisk.live_of_created hmade
  rw [← hgraph]
  exact answers_agree hlive hrun

/-- Two components. -/
def Dimension.two : Dimension := ⟨2, by decide, by decide⟩

/-- A vector that is half a record, and a removal. -/
def halfCalls : List (LevelFloat × HnswOp) :=
  [ (.base2, .insert ⟨1⟩ (.single (F32.ofInt 3) (.refl true))),
    (.base2, .remove ⟨1⟩) ]

theorem HnswStore.answers_like_memory_half : ∃ s as s',
    HnswDisk.empty.made .postcard .small (.degreeTwo 50) .two .create = some s ∧
    s.answers .postcard .small halfCalls = some (as, s') ∧
    ∃ as', (HnswIndex.new (.degreeTwo 50) .two).run .small halfCalls =
        some (as', s'.index.graph) ∧
      (as.map (Outcome.mapErr StorageError.toIndexError) = as'.map Answer.reply ↔
        ∀ c ∈ halfCalls, c.2.Whole .two) := by
  have hcount : ((HnswDisk.empty.made .postcard .small (.degreeTwo 50) .two .create).bind fun s =>
      (s.answers .postcard .small halfCalls).map fun r => r.1.length) = some 2 := by
    decide +kernel
  obtain ⟨s, hmade, hrun⟩ := Option.bind_eq_some_iff.mp hcount
  obtain ⟨⟨as, s'⟩, hrun, -⟩ := Option.map_eq_some_iff.mp hrun
  exact ⟨s, as, s', hmade, hrun, answers_like_memory .postcard .small (.degreeTwo 50) .two .empty s
    s' halfCalls as hmade hrun⟩

/-- The graph reports the dimensions, the store the length. -/
theorem HnswStore.not_answers_like_memory :
    ((HnswDisk.empty.made .postcard .small (.degreeTwo 50) .two .create).bind fun s =>
      (s.answers .postcard .small halfCalls).map fun r =>
        r.1.map (Outcome.mapErr StorageError.toIndexError)) =
      some [.err (.backend "corrupt store: append length 1 is not a multiple of dimension 2"),
        .ok (.removed false)] ∧
    ((HnswIndex.new (.degreeTwo 50) .two).run .small halfCalls).map
        (fun r => r.1.map Answer.reply) =
      some [.err (.dimensionMismatch 2 1), .ok (.removed false)] := by
  decide +kernel

end EidosDB
