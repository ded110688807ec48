import EidosDB.Query.Hybrid
import EidosDB.Query.StandIns
import EidosDB.Storage.FlatRefines
import EidosDB.Storage.HnswCrash
import EidosDB.Storage.LexicalSearch
import EidosDB.Storage.Reopening

/-! # The Stores on Disk Stand In for Those in Memory

    Each of the four stores on disk is related to one in memory, and every
    operation of its port keeps the relation.  The files of a store that is
    not open are related to the one in memory too, and opening them gives a
    store that stands in for it again. -/

namespace EidosDB

open Bytes Effect

/-- How a call on disk may halt that succeeds in memory: as the plan says, or
    because a file cannot grow.  A store's error is internal to the server. -/
def Blameless (how : Option Stop) : Halt QueryError → Prop
  | .err e => (queryErrorToStatus e).code = .internal ∧
      (how ≠ some .fail → e = .index (StorageError.io .fileTooLarge).toIndexError)
  | .crashed => how = some .crash
  | .panicked => False

/-- A halt the index is not to blame for. -/
theorem Interrupted.blameless {how : Option Stop} {r : Halt StorageError}
    (h : Interrupted how r) :
    Blameless how ((r.map StorageError.toIndexError).map QueryError.index) := by
  cases r with
  | err e =>
    obtain ⟨hfailure, htooLarge⟩ := h
    refine ⟨?_, fun hhow => ?_⟩
    · cases e with
      | io e => rfl
      | catalog m => rfl
      | corruption m => cases hfailure
      | formatMismatch m => cases hfailure
      | index e => cases hfailure
    · rw [htooLarge hhow]
  | crashed => exact h
  | panicked => exact h

/-! ## The flat index -/

namespace FlatStore

/-- The open store and the index in memory have the same points. -/
def StandsFor (metric : Metric) (dimension : Dimension) (s : FlatStore) (f : FlatIndex) : Prop :=
  ∃ l, Rep metric dimension l s ∧ InStep metric dimension l f

variable {metric : Metric} {dimension : Dimension} {s : FlatStore} {f : FlatIndex}

theorem StandsFor.searchFiltered (h : s.StandsFor metric dimension f) (ops : F32Ops)
    (query : Embedding) (k : Nat) (queryMetric : Metric) (isAdmissible : VectorId → Bool) :
    s.searchFiltered ops query k queryMetric isAdmissible =
      f.searchFiltered ops query k queryMetric isAdmissible := by
  obtain ⟨l, hrep, hstep⟩ := h
  rw [hrep.searchFiltered, FlatIndex.searchFiltered, hstep.dimension_eq, hstep.hits]

/-- A write on the store, against the same write in memory. -/
theorem ends_write_standsFor {w : World FlatStore} (h : w.state.StandsFor metric dimension f)
    (c : FlatWrite) (hok : ∀ e, (f.write c).1 ≠ .error e) :
    ends (FlatStore.write c)
      (fun a w' => w'.plan.how = w.plan.how ∧ (f.write c).1 = .ok a ∧
        w'.state.StandsFor metric dimension (f.write c).2)
      (fun r _ => Interrupted w.plan.how r) w := by
  obtain ⟨l, hrep, hstep⟩ := h
  apply ends_mono (ends_write hrep hstep c)
  · rintro a w' ⟨hhow, hanswer, l', hrep', hstep', -⟩
    exact ⟨hhow, hanswer, l', hrep', hstep'⟩
  · rintro r w' (⟨-, e, -, hrefused⟩ | ⟨hhalt, -⟩)
    · -- the index in memory does not refuse it
      exact absurd (by rw [hrefused]) (hok e)
    · exact hhalt.cause

/-- A write ends as the operation it is made of. -/
theorem ends_of_write {α : Type} {m : Effect StorageError FlatStore α} {build : α → FlatAnswer}
    {Q : FlatAnswer → World FlatStore → Prop} {E : Halt StorageError → World FlatStore → Prop}
    {w : World FlatStore} (h : ends (m >>= fun a => pure (build a)) Q E w) :
    ends m (fun a w' => Q (build a) w') E w := by
  rw [ends_bind] at h
  exact h

theorem standsIn_port (ops : F32Ops) (metric : Metric) (dimension : Dimension) :
    (FlatStore.port ops).StandsIn Blameless (FlatIndex.port ops) dimension
      (fun id f => ∀ e, (id, e) ∉ f.points) (StandsFor metric dimension) where
  metric := by
    rintro s f ⟨l, hrep, hstep⟩
    exact hrep.metric_eq.trans hstep.metric_eq.symm
  supportedMetrics _ := rfl
  len := by
    rintro s f ⟨l, hrep, hstep⟩
    show s.index.liveCount = f.len
    rw [hrep.liveCount, hstep.len]
  remove id := by
    rw [FlatIndex.port_remove]
    apply simulates_call
    intro w f h
    show ends (mapErr StorageError.toIndexError (FlatStore.remove id)) _ _ w
    rw [ends_mapErr]
    have hok : ∀ e, (f.write (.remove id)).1 ≠ .error e := by
      intro e
      rcases f.remove_cases id with ⟨-, heq⟩ | ⟨-, heq⟩ <;> simp [FlatIndex.write, heq, Except.map]
    apply ends_mono (ends_of_write (ends_write_standsFor h (.remove id) hok))
    · rintro existed w' ⟨hhow, hanswer, hstands⟩
      refine ⟨hhow, (f.remove id).2, ?_, hstands, ?_⟩
      · rcases f.remove_cases id with ⟨-, heq⟩ | ⟨-, heq⟩ <;>
          simp_all [FlatIndex.write, Except.map]
      · obtain ⟨l, -, hstep⟩ := h
        intro e he
        rcases f.remove_cases id with ⟨-, heq⟩ | ⟨hnone, heq⟩
        · rw [heq] at he
          exact ((FlatIndex.mem_eraseP_iff hstep.inv.nodup id _).mp he).2 rfl
        · rw [heq] at he
          exact hnone e he
    · exact fun r w' hcause => Or.inl hcause.blameless
  insert id e hdim := by
    rw [FlatIndex.port_insert]
    apply simulates_call
    rintro w f ⟨h, habsent⟩
    show ends (mapErr StorageError.toIndexError (FlatStore.insert id e)) _ _ w
    rw [ends_mapErr]
    have hdimension : f.dimension = dimension := by
      obtain ⟨l, -, hstep⟩ := h
      exact hstep.dimension_eq
    have hinsert : (f.insert id e).1 = .ok () := by
      rcases f.insert_cases id e with ⟨hne, -⟩ | ⟨-, ⟨e', he'⟩, -⟩ | ⟨-, -, heq⟩
      · rw [hdimension] at hne
        exact absurd hdim hne
      · exact absurd he' (habsent e')
      · rw [heq]
    have hok : ∀ error, (f.write (.insert id e)).1 ≠ .error error := by
      intro error
      simp [FlatIndex.write, hinsert, Except.map]
    have hends := ends_write_standsFor h (.insert id e) hok
    apply ends_mono (@ends_of_write Unit _ (fun _ => .done) _ _ _ hends)
    · rintro _ w' ⟨hhow, -, hstands⟩
      exact ⟨hhow, (f.insert id e).2, by rw [← hinsert], hstands⟩
    · exact fun r w' hcause => Or.inl hcause.blameless
  searchFiltered h query k metric isAdmissible :=
    congrArg some (h.searchFiltered ops query k metric isAdmissible)

/-- Compaction changes the files only. -/
theorem ends_compact_standsFor {w : World FlatStore} (h : w.state.StandsFor metric dimension f) :
    ends FlatStore.compact
      (fun _ w' => w'.plan.how = w.plan.how ∧ w'.state.StandsFor metric dimension f)
      (fun r _ => Interrupted w.plan.how r) w := by
  obtain ⟨l, hrep, hstep⟩ := h
  apply ends_mono (ends_compact hrep)
  · rintro _ w' ⟨hhow, hrep'⟩
    exact ⟨hhow, l.compacted, hrep', hstep.congr l.contents_compacted⟩
  · exact fun _ _ hcause => hcause

end FlatStore

namespace FlatDisk

variable {metric : Metric} {dimension : Dimension} {disk : FlatDisk} {f : FlatIndex}

/-- The files hold the points of the index in memory, whether or not a store is
    open on them. -/
def StandsFor (metric : Metric) (dimension : Dimension) (disk : FlatDisk) (f : FlatIndex) : Prop :=
  ∃ l junk, OnDisk metric dimension l junk disk ∧ InStep metric dimension l f

theorem standsFor_of_store {index : PersistentFlatIndex}
    (h : FlatStore.StandsFor metric dimension ⟨disk, index⟩ f) :
    disk.StandsFor metric dimension f := by
  obtain ⟨l, hrep, hstep⟩ := h
  exact ⟨l, [], hrep.disk, hstep⟩

theorem finishes_openAt_standsFor (h : disk.StandsFor metric dimension f) :
    Finishes (openAt metric dimension) disk
      fun index disk' => FlatStore.StandsFor metric dimension ⟨disk', index⟩ f := by
  obtain ⟨l, junk, hdisk, hstep⟩ := h
  apply finishes_mono (finishes_openAt_onDisk hdisk)
  intro index disk' hrep
  exact ⟨l, hrep, hstep⟩

/-- The store that is made in an empty directory. -/
theorem finishes_openAt_new (metric : Metric) (dimension : Dimension) :
    Finishes (openAt metric dimension) empty
      fun index disk' => FlatStore.StandsFor metric dimension ⟨disk', index⟩
        (.new metric dimension) := by
  apply finishes_mono (finishes_openAt_empty metric dimension)
  intro index disk' hrep
  exact ⟨.empty, hrep, inStep_new metric dimension⟩

end FlatDisk

/-! ## The graph index -/

namespace HnswStore

/-- The open store has the graph in memory, and if `placed` holds, the vectors
    of its nodes are in the segment at their places. -/
def StandsFor (pc : HnswCodec) (config : HnswConfig) (dimension : Dimension) (placed : Prop)
    (s : HnswStore) (g : HnswIndex) : Prop :=
  s.index.graph = g ∧ ∃ recs, (placed → EidosDB.Aligned g recs) ∧ HnswRep pc config dimension recs s

variable {pc : HnswCodec} {P : Platform} {config : HnswConfig} {dimension : Dimension}
  {placed : Prop}

theorem remove_eq_of_removeTracked {g : HnswIndex} (hinv : HnswIndex.Inv config dimension g)
    (id : VectorId) : g.remove id =
      (.ok (g.graph.live id).isSome, (g.removeTracked id).2) ∧
      (g.removeTracked id).2.graph.live id = none := by
  have houtcome := HnswIndex.removeTracked_outcome hinv id
  have hnodes := hinv.nodes
  unfold HnswIndex.remove
  generalize g.removeTracked id = out at houtcome
  obtain ⟨result, g'⟩ := out
  cases houtcome with
  | absent hlive => exact ⟨by rw [hlive]; rfl, hlive⟩
  | @removed node hlive =>
    refine ⟨by rw [hlive]; rfl, ?_⟩
    simp [HnswGraph.setEntryPoint, HnswGraph.withTombstone]

theorem standsIn_port (pc : HnswCodec) (P : Platform) (levelFloat : LevelFloat)
    (config : HnswConfig) (dimension : Dimension) (placed : Prop) :
    (HnswStore.port pc P levelFloat).StandsIn Blameless (HnswIndex.port P levelFloat) dimension
      (fun id g => g.graph.live id = none) (StandsFor pc config dimension placed) where
  metric := by
    rintro s g ⟨rfl, -⟩
    rfl
  supportedMetrics := by
    rintro s g ⟨rfl, -⟩
    rfl
  len := by
    rintro s g ⟨rfl, -⟩
    rfl
  remove id := by
    rw [HnswIndex.port_remove]
    apply simulates_call
    rintro w _ ⟨rfl, recs, halign, hrep⟩
    show ends (mapErr StorageError.toIndexError (writeThroughRemove pc id)) _ _ w
    rw [ends_mapErr]
    obtain ⟨hremove, habsent⟩ := remove_eq_of_removeTracked hrep.disk.inv id
    apply ends_mono (ends_remove hrep id)
    · rintro existed w' ⟨-, hhow, rfl, hgraph, hrep'⟩
      refine ⟨hhow, _, congrArg some hremove, ⟨hgraph, recs, ?_, hrep'⟩, habsent⟩
      intro hplaced
      -- a removal moves no node
      rw [EidosDB.Aligned, HnswIndex.map_embedding_removeTracked hrep.disk.inv id, halign hplaced]
    · exact fun r w' hend => Or.inl hend.1.cause.blameless
  insert id e hdim := by
    rw [HnswIndex.port_insert]
    apply simulates_call
    rintro w _ ⟨⟨rfl, recs, halign, hrep⟩, habsent⟩
    show ends (mapErr StorageError.toIndexError (writeThroughInsert pc P levelFloat id e)) _ _ w
    rw [ends_mapErr]
    apply ends_mono (ends_insert hrep levelFloat id e)
    · rintro _ w' ⟨-, hhow, hrep', -, delta, level, hcall, hi⟩
      refine ⟨hhow, w'.state.index.graph, ?_, rfl, recs ++ [e], ?_, hrep'⟩
      · show (HnswIndex.insert P levelFloat _ id e) = _
        rw [HnswIndex.insert, hcall]
        rfl
      · intro hplaced
        rw [EidosDB.Aligned, hi.nodes_map Node.embedding (fun _ => rfl), halign hplaced]
        rfl
    · rintro r w' (hrefused | ⟨hhalt, -⟩)
      · -- the graph refuses neither the dimension nor the id
        exfalso
        obtain ⟨result, g', hcall, houtcome, -⟩ :=
          HnswIndex.insertTracked_spec (P := P) hrep.disk.inv levelFloat id e
        cases hrefused with
        | torn _ hwidth => exact hwidth (by rw [hdim, Nat.mod_self])
        | rejected _ hcall' _ _ _ =>
          rw [hcall] at hcall'
          obtain ⟨rfl, -⟩ : result = _ ∧ _ := by simpa using hcall'
          cases houtcome with
          | mismatch hne =>
            rw [hrep.disk.inv.dimension_eq] at hne
            exact hne hdim
          | duplicate _ n hn =>
            rw [habsent] at hn
            cases hn
      · exact Or.inl hhalt.cause.blameless
  searchFiltered := by
    rintro s g ⟨rfl, -⟩ query k metric isAdmissible
    rfl

/-- A graph whose nodes are all live. -/
theorem points_of_all_live {g : HnswIndex} (hinv : HnswIndex.Inv config dimension g)
    (hlen : g.len = g.graph.nodeCount) :
    g.graph.points = g.graph.nodes.map fun n => (n.id, n.embedding) := by
  have hlive : g.graph.nodes.countP (fun n => !n.tombstone) = g.graph.nodes.length := by
    rw [← HnswGraph.length_liveNodes, ← hinv.nodes.liveCount]
    exact hlen
  rw [List.countP_eq_length] at hlive
  unfold HnswGraph.points
  rw [List.filterMap_eq_map_iff_forall_eq_some]
  intro n hn
  have htombstone : n.tombstone = false := by simpa using hlive n hn
  unfold HnswGraph.Node.point
  rw [htombstone]
  rfl

/-- Compaction drops the removed nodes.  The segment keeps their vectors, so
    that only if there were none the vectors stay at their places. -/
theorem ends_compact_standsFor {w : World HnswStore} {g : HnswIndex} {placed : Prop}
    (h : w.state.StandsFor pc config dimension placed g) (levelFloat : LevelFloat) :
    ends (HnswStore.compact pc P levelFloat)
      (fun _ w' => w'.plan.how = w.plan.how ∧ ∃ g',
        g.compact P levelFloat = some (.ok (), g') ∧
          w'.state.StandsFor pc config dimension (placed ∧ g.len = g.graph.nodeCount) g')
      (fun r _ => Interrupted w.plan.how r) w := by
  obtain ⟨rfl, recs, halign, hrep⟩ := h
  apply ends_mono (HnswStore.ends_compact hrep levelFloat)
  · rintro _ w' ⟨hhow, hrep', hcompact, hnodes, -⟩
    refine ⟨hhow, _, hcompact, rfl, recs, ?_, hrep'⟩
    rintro ⟨hplaced, hlen⟩
    -- no node is dropped, and none moves
    rw [points_of_all_live hrep.disk.inv hlen] at hnodes
    have hembeddings := congrArg (List.map Prod.snd) hnodes
    rw [List.map_map, List.map_map] at hembeddings
    exact hembeddings.trans (halign hplaced)
  · exact fun r w' hend => hend.1.cause

end HnswStore

namespace HnswDisk

variable {pc : HnswCodec} {config : HnswConfig} {dimension : Dimension} {disk : HnswDisk}
  {g : HnswIndex}

/-- The files hold the graph in memory, its vectors at their places. -/
def StandsFor (pc : HnswCodec) (config : HnswConfig) (dimension : Dimension) (disk : HnswDisk)
    (g : HnswIndex) : Prop :=
  ∃ recs junk, Aligned g recs ∧ HnswOnDisk pc config dimension g recs junk disk

theorem standsFor_of_store {placed : Prop} {index : PersistentHnswIndex}
    (h : HnswStore.StandsFor pc config dimension placed ⟨disk, index⟩ g) (hplaced : placed) :
    disk.StandsFor pc config dimension g := by
  obtain ⟨rfl, recs, halign, hrep⟩ := h
  exact ⟨recs, [], halign hplaced, hrep.disk⟩

theorem finishes_openAt_standsFor (h : disk.StandsFor pc config dimension g) (placed : Prop) :
    Finishes (openAt pc) disk
      fun index disk' => HnswStore.StandsFor pc config dimension placed ⟨disk', index⟩ g := by
  obtain ⟨recs, junk, halign, hdisk⟩ := h
  apply finishes_of_ends
  intro c
  apply ends_mono (@ends_openAt pc config dimension g recs junk ⟨disk, .none, c⟩ hdisk)
  · rintro index w' ⟨hplan, hgraph, hrep⟩
    rw [halign.reembedded] at hgraph
    rw [halign.take] at hrep
    exact ⟨hplan.how, hgraph, recs, fun _ => halign, hrep⟩
  · exact fun _ _ h => nomatch h.1.planned

/-- The graph that is made in an empty directory. -/
theorem finishes_create_new (pc : HnswCodec) (config : HnswConfig) (dimension : Dimension)
    (placed : Prop) : Finishes (create pc config dimension) empty
      fun index disk' => HnswStore.StandsFor pc config dimension placed ⟨disk', index⟩
        (.new config dimension) := by
  obtain ⟨marks, htrace⟩ := @traces_create_new pc config dimension empty rfl
  have hnew : Finishes (create pc config dimension) empty
      fun index _ => index.graph = .new config dimension := finishes_of_traces htrace rfl
  have hrep : Leads (fun disk => disk = empty) (create pc config dimension)
      fun index disk' => HnswRep pc config dimension [] ⟨disk', index⟩ := by
    intro w hw
    have hempty : w.state.db.NoNodes := by
      rw [hw]
      exact fun _ => rfl
    exact ends_mono (ends_create hempty) (fun _ _ h => h.2.2) fun _ _ h => h
  apply finishes_mono (hnew.leads hrep)
  rintro index disk' ⟨hgraph, hrep⟩
  exact ⟨hgraph, [], fun _ => rfl, hrep⟩

end HnswDisk

/-! ## The lexical index -/

namespace LexicalStore

variable (U : Unicode) (codecs : LexicalCodecs) (ops : F64Ops)

theorem steady_commitChange (change : LexicalDb.Change) : Steady (commitChange change) :=
  steady_bind (steady_commit _ _) fun _ => steady_call _

theorem steady_insert (postings terms : HashOrder) (id : VectorId) (document : Document) :
    Steady (insert U codecs postings terms id document) := by
  refine steady_bind (steady_call _) fun stats => steady_get fun self => ?_
  exact steady_bind (steady_liftExcept _) fun change => steady_commitChange change

theorem steady_remove (id : VectorId) : Steady (remove codecs id) :=
  steady_get fun _ => steady_bind (steady_liftExcept _) fun change => steady_commitChange change

theorem blameless_fail (e : LexicalError) :
    Blameless (some .fail) ((Halt.err e).map QueryError.lexical) :=
  ⟨rfl, fun hhow => absurd rfl hhow⟩

theorem standsIn_port :
    (LexicalStore.port U codecs ops).StandsIn Blameless (InMemoryLexicalIndex.port U ops)
      (Mirrors codecs) where
  insert before after id document :=
    (steady_insert U codecs before after id document).simulates blameless_fail rfl
      fun _ _ h => insert_mirrors h before after before after id document
  remove order id :=
    (steady_remove codecs id).simulates blameless_fail rfl fun _ _ h => remove_mirrors h order id
  searchTextFiltered h order text k isAdmissible :=
    searchTextFiltered_eq h order order text k isAdmissible

end LexicalStore

namespace LexicalDb

variable {codecs : LexicalCodecs} {t : InMemoryLexicalIndex}

/-- The rows are those of the documents in memory. -/
def StandsFor (codecs : LexicalCodecs) (db : LexicalDb) (t : InMemoryLexicalIndex) : Prop :=
  ∃ counters, LexicalStore.Mirrors codecs ⟨db, counters⟩ t

/-- Opening counts the documents again. -/
theorem finishes_openAt_standsFor {file : Option LexicalDb}
    (h : (file.getD .fresh).StandsFor codecs t) :
    Finishes (PersistentLexicalIndex.openAt codecs) file
      fun index file' => ∃ db, file' = some db ∧ LexicalStore.Mirrors codecs ⟨db, index⟩ t := by
  obtain ⟨counters, hmirrors⟩ := h
  have hcounters := LexicalStore.counters_eq hmirrors.rows
    (hmirrors.inv.totalTokens ▸ hmirrors.tokens_le)
  unfold PersistentLexicalIndex.openAt
  refine finishes_bind (fun _ file' => file' = some (file.getD .fresh)) (finishes_durable rfl) ?_
  rintro _ _ rfl
  refine finishes_bind (fun _ file' => file' = some (file.getD .fresh)) (finishes_commit rfl) ?_
  rintro _ _ rfl
  apply finishes_call
  · show (LexicalDb.counters codecs (file.getD .fresh)).run.map _ = _
    rw [hcounters]
    rfl
  · exact ⟨_, rfl, hmirrors.inv, hmirrors.tokens_le, hmirrors.rows, rfl,
      hmirrors.inv.totalTokens.symm⟩

end LexicalDb

/-! ## The payload store -/

namespace StoredPayloads

/-- The rows are the encoded payloads of the store in memory, and the counter
    is their number. -/
structure StandsFor (codec : Codec Payload) (s : StoredPayloads) (t : InMemoryPayloadStore) :
    Prop where
  rows : s.db.payloads = t.payloads.mapValues codec.encode
  count : s.store.count = t.payloads.len

variable (codec : Codec Payload)

theorem parse_encode (payload : Payload) : parse codec (codec.encode payload) = .ok payload := by
  rw [parse, codec.decode_encode]
  rfl

variable {codec} {s : StoredPayloads} {t : InMemoryPayloadStore}

theorem StandsFor.get_row (h : s.StandsFor codec t) (id : VectorId) :
    s.db.payloads.get id = (t.get id).map codec.encode := by
  rw [h.rows, OrderedTable.get_mapValues]
  rfl

theorem StandsFor.get (h : s.StandsFor codec t) (id : VectorId) :
    StoredPayloads.get codec s id = .ok (t.get id) := by
  unfold StoredPayloads.get
  rw [h.get_row]
  cases t.get id with
  | none => rfl
  | some payload =>
    show (parse codec (codec.encode payload)).map some = _
    rw [parse_encode]
    rfl

/-- The scan of encoded rows collects the ids of the payloads that match. -/
theorem foldlM_matchRow (ops : F64Ops) (filter : CompiledFilter)
    (rows : List (VectorId × Payload)) (matched : OrderedTable VectorId Unit) :
    (rows.map fun p => (p.1, codec.encode p.2)).foldlM (matchRow codec ops filter) matched =
      .ok (matched.insertMany
        ((rows.filter fun p => filter.matches ops p.2).map fun p => (p.1, ()))) := by
  induction rows generalizing matched with
  | nil => rfl
  | cons row rest ih =>
    have hone : matchRow codec ops filter matched (row.1, codec.encode row.2) =
        .ok (if filter.matches ops row.2 then matched.insert row.1 () else matched) := by
      unfold matchRow
      rw [parse_encode]
      rfl
    rw [List.map_cons, List.foldlM_cons, hone]
    show (rest.map _).foldlM (matchRow codec ops filter) _ = _
    rw [ih, List.filter_cons]
    split <;> rfl

theorem StandsFor.matchingIds (h : s.StandsFor codec t) (ops : F64Ops) (order : HashOrder)
    (filter : CompiledFilter) :
    StoredPayloads.matchingIds codec ops s filter = .ok (t.matchingIds ops order filter) := by
  rw [InMemoryPayloadStore.matchingIds_order ops t order .ascending]
  unfold StoredPayloads.matchingIds
  rw [h.rows]
  exact foldlM_matchRow ops filter t.payloads.entries .empty

theorem StandsFor.set (h : s.StandsFor codec t) (id : VectorId) (payload : Payload)
    {count : Nat}
    (hnew : count = if (t.payloads.get id).isNone then s.store.count + 1 else s.store.count) :
    StandsFor codec ⟨⟨s.db.payloads.insert id (codec.encode payload)⟩, ⟨count⟩⟩
      (t.set id payload) where
  rows := by
    show s.db.payloads.insert id (codec.encode payload) = _
    rw [h.rows, InMemoryPayloadStore.set, OrderedTable.mapValues_insert]
  count := by
    show count = (t.payloads.insert id payload).len
    rw [hnew, h.count]
    cases hget : t.payloads.get id with
    | none =>
      rw [OrderedTable.len_insert_new _ _ hget]
      rfl
    | some old =>
      rw [OrderedTable.len_insert, ← OrderedTable.len_erase _ hget]
      rfl

theorem StandsFor.remove (h : s.StandsFor codec t) (id : VectorId) {count : Nat}
    (hold : count = if (t.payloads.get id).isSome then s.store.count - 1 else s.store.count) :
    StandsFor codec ⟨⟨s.db.payloads.erase id⟩, ⟨count⟩⟩ (t.remove id).2 where
  rows := by
    show s.db.payloads.erase id = _
    rw [h.rows, InMemoryPayloadStore.remove, OrderedTable.mapValues_erase]
  count := by
    show count = (t.payloads.erase id).len
    rw [hold, h.count]
    cases hget : t.payloads.get id with
    | none => rw [OrderedTable.len_erase_none _ hget]; rfl
    | some old =>
      rw [← OrderedTable.len_erase _ hget]
      rfl

theorem standsIn_port (codec : Codec Payload) (ops : F64Ops) :
    (StoredPayloads.port codec ops).StandsIn Blameless (InMemoryPayloadStore.port ops)
      (StandsFor codec) where
  set id payload := by
    show Simulates _ _ (StoredPayloads.set codec id payload)
      (call fun self : InMemoryPayloadStore => some (.ok (), self.set id payload)) _
    apply simulates_call
    intro w t h
    have hsome : (w.state.db.payloads.get id).isNone = (t.payloads.get id).isNone := by
      rw [h.rows, OrderedTable.get_mapValues, Option.isNone_map]
    unfold StoredPayloads.set
    simp only [ends_bind, ends_get]
    apply ends_commit
    · intro plan hplan
      split
      · next hnew =>
        rw [ends_modify]
        exact ⟨hplan, _, rfl, h.set id payload (by rw [← hsome, if_pos hnew])⟩
      · next hold =>
        rw [ends_pure]
        exact ⟨hplan, _, rfl, h.set id payload (by rw [← hsome, if_neg hold])⟩
    · exact fun hcrash _ => Or.inl hcrash
    · exact fun hfail _ => Or.inl ⟨rfl, fun hhow => absurd hfail hhow⟩
  remove id := by
    show Simulates _ _ (StoredPayloads.remove id)
      (call fun self : InMemoryPayloadStore =>
        some (.ok (self.remove id).1, (self.remove id).2)) _
    apply simulates_call
    intro w t h
    have hsome : (w.state.db.payloads.get id).isSome = (t.payloads.get id).isSome := by
      rw [h.rows, OrderedTable.get_mapValues, Option.isSome_map]
    unfold StoredPayloads.remove
    simp only [ends_bind, ends_get]
    apply ends_commit
    · intro plan hplan
      split
      · next hthere =>
        simp only [ends_bind, ends_modify, ends_pure]
        exact ⟨hplan, _, by rw [hsome]; rfl, h.remove id (by rw [← hsome, if_pos hthere])⟩
      · next hnone =>
        rw [ends_pure]
        exact ⟨hplan, _, by rw [hsome]; rfl, h.remove id (by rw [← hsome, if_neg hnone])⟩
    · exact fun hcrash _ => Or.inl hcrash
    · exact fun hfail _ => Or.inl ⟨rfl, fun hhow => absurd hfail hhow⟩
  get h id := h.get id
  matchingIds h order filter := ⟨_, h.matchingIds ops order filter, rfl⟩

end StoredPayloads

namespace PayloadDb

/-- Opening counts the rows again. -/
theorem finishes_openAt_standsFor {codec : Codec Payload} {file : Option PayloadDb}
    {t : InMemoryPayloadStore}
    (h : (file.getD .fresh).payloads = t.payloads.mapValues codec.encode) :
    Finishes PersistentPayloadStore.openAt file fun store file' => ∃ db, file' = some db ∧
      StoredPayloads.StandsFor codec ⟨db, store⟩ t := by
  unfold PersistentPayloadStore.openAt
  refine finishes_bind (fun _ file' => file' = some (file.getD .fresh)) (finishes_durable rfl) ?_
  rintro _ _ rfl
  refine finishes_bind (fun _ file' => file' = some (file.getD .fresh)) (finishes_commit rfl) ?_
  rintro _ _ rfl
  apply finishes_get
  refine finishes_pure ⟨_, rfl, h, ?_⟩
  show (file.getD .fresh).payloads.len = t.payloads.len
  rw [h, OrderedTable.len_mapValues]

end PayloadDb

end EidosDB
