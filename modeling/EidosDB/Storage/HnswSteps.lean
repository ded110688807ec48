import EidosDB.Hnsw.Reembed
import EidosDB.Storage.PersistentHnsw

/-! # What the HNSW Store Operations Do

    The files of a store hold a graph's snapshot and a list of vectors, one
    for each record.  The list is at least as long as the graph, but nothing
    ties vector `i` to node `i`: opening gives node `i` whatever record `i`
    is.  Each operation is specified by what it does to the graph and to the
    list when it ends normally, and by what an interruption leaves on
    disk. -/

namespace EidosDB

open Bytes Effect HnswIndex

/-- The files hold the snapshot of `g`, the vectors `recs`, and bytes past
    the last record. -/
structure HnswOnDisk (pc : HnswCodec) (config : HnswConfig) (dimension : Dimension)
    (g : HnswIndex) (recs : List Embedding) (junk : List Byte) (disk : HnswDisk) : Prop where
  inv : Inv config dimension g
  catalog : ∃ db, disk.catalog = some db ∧ db.Holds pc config dimension g.snapshot
  segment : disk.segment = some (layout config.metric dimension (recs.map Embedding.values) junk)
  dims : ∀ e ∈ recs, e.dimension = dimension.get
  count : g.graph.nodeCount ≤ recs.length
  fits : (layout config.metric dimension (recs.map Embedding.values) junk).length ≤ maxFileLen

/-- An open store whose files hold its graph and the vectors `recs`. -/
structure HnswRep (pc : HnswCodec) (config : HnswConfig) (dimension : Dimension)
    (recs : List Embedding) (s : HnswStore) : Prop where
  disk : HnswOnDisk pc config dimension s.index.graph recs [] s.disk
  width : s.index.segment.dimension = dimension.get

variable {pc : HnswCodec} {P : Platform} {config : HnswConfig} {dimension : Dimension}
  {g : HnswIndex} {recs : List Embedding} {junk : List Byte}

theorem uniform_values (hdims : ∀ e ∈ recs, e.dimension = dimension.get) :
    Uniform dimension (recs.map Embedding.values) := by
  intro r hr
  obtain ⟨e, he, rfl⟩ := List.mem_map.mp hr
  exact hdims e he

/-! ## Cutting values into records -/

/-- Finite values of a whole number of records are the values of as many
    embeddings. -/
theorem exists_records {values : List F32} (hfinite : ∀ v ∈ values, v.isFinite = true) (n : Nat)
    (hlen : values.length = n * dimension.get) :
    ∃ news : List Embedding, (news.map Embedding.values).flatten = values ∧
      ∀ e ∈ news, e.dimension = dimension.get := by
  have hpos := dimension.pos
  induction n generalizing values with
  | zero =>
    rw [Nat.zero_mul, List.length_eq_zero_iff] at hlen
    exact ⟨[], hlen.symm, by simp⟩
  | succ n ih =>
    rw [Nat.succ_mul] at hlen
    have hwidth : (values.take dimension.get).length = dimension.get := by
      rw [List.length_take]
      omega
    have hrest : (values.drop dimension.get).length = n * dimension.get := by
      rw [List.length_drop]
      omega
    obtain ⟨news, hflat, hdims⟩ := ih (fun v hv => hfinite v (List.mem_of_mem_drop hv)) hrest
    let first : Embedding :=
      { values := values.take dimension.get
        nonempty := by
          intro hnil
          rw [hnil, List.length_nil] at hwidth
          omega
        finite := fun v hv => hfinite v (List.mem_of_mem_take hv) }
    refine ⟨first :: news, ?_, ?_⟩
    · rw [List.map_cons, List.flatten_cons, hflat]
      exact List.take_append_drop _ _
    · intro e he
      rcases List.mem_cons.mp he with rfl | he
      · exact hwidth
      · exact hdims e he

/-- Records are told apart by their values. -/
theorem records_unique {as bs : List Embedding} (ha : ∀ e ∈ as, e.dimension = dimension.get)
    (hb : ∀ e ∈ bs, e.dimension = dimension.get)
    (h : (as.map Embedding.values).flatten = (bs.map Embedding.values).flatten) : as = bs := by
  have hpos := dimension.pos
  induction as generalizing bs with
  | nil =>
    have hlen := (uniform_values hb).length_flatten
    rw [← h, List.length_map] at hlen
    have hzero : bs.length * dimension.get = 0 := by simpa using hlen.symm
    exact (List.length_eq_zero_iff.mp ((Nat.mul_eq_zero.mp hzero).resolve_right (by omega))).symm
  | cons a as ih =>
    cases bs with
    | nil =>
      have hwidth : a.values.length = dimension.get := ha a List.mem_cons_self
      have hlen := congrArg List.length h
      simp only [List.map_cons, List.flatten_cons, List.map_nil, List.flatten_nil,
        List.length_append, List.length_nil] at hlen
      omega
    | cons b bs =>
      have hwidth : a.values.length = b.values.length :=
        (ha a List.mem_cons_self).trans (hb b List.mem_cons_self).symm
      rw [List.map_cons, List.map_cons, List.flatten_cons, List.flatten_cons] at h
      obtain ⟨hhead, htail⟩ := List.append_inj h hwidth
      rw [Embedding.ext hhead, ih (fun e he => ha e (List.mem_cons_of_mem _ he))
        (fun e he => hb e (List.mem_cons_of_mem _ he)) htail]

/-! ## The files -/

namespace HnswOnDisk

variable {disk : HnswDisk}

theorem uniform (h : HnswOnDisk pc config dimension g recs junk disk) :
    Uniform dimension (recs.map Embedding.values) := uniform_values h.dims

/-- Records past the last node are bytes that opening cuts off. -/
theorem take (h : HnswOnDisk pc config dimension g recs junk disk) :
    HnswOnDisk pc config dimension g (recs.take g.graph.nodeCount)
      (((recs.drop g.graph.nodeCount).map Embedding.values).flatMap bytesOf ++ junk) disk := by
  have hsplit : layout config.metric dimension (recs.map Embedding.values) junk =
      layout config.metric dimension ((recs.take g.graph.nodeCount).map Embedding.values)
        (((recs.drop g.graph.nodeCount).map Embedding.values).flatMap bytesOf ++ junk) := by
    unfold layout
    rw [← List.append_assoc (List.flatMap _ _), ← List.flatMap_append, ← List.map_append,
      List.take_append_drop]
  exact
    { inv := h.inv
      catalog := h.catalog
      segment := h.segment.trans (congrArg some hsplit)
      dims := fun e he => h.dims e (List.mem_of_mem_take he)
      count := by
        have hcount := h.count
        rw [List.length_take]
        omega
      fits := hsplit ▸ h.fits }

end HnswOnDisk

/-! ## Opening -/

theorem HnswDisk.ends_openAt {w : World HnswDisk}
    (h : HnswOnDisk pc config dimension g recs junk w.state) :
    ends (openAt pc)
      (fun index w' => Later w w' ∧ index.graph = g.reembedded recs ∧
        HnswRep pc config dimension (recs.take g.graph.nodeCount)
          { disk := w'.state, index := index })
      (fun r w' => Stopped w r w' ∧ ∃ junk', HnswOnDisk pc config dimension g
        (recs.take g.graph.nodeCount) junk' w'.state) w := by
  obtain ⟨db, hdb, hholds⟩ := h.catalog
  have hcut := h.take
  have hshaped := snapshot_shaped h.inv
  have hcount : g.snapshot.stateRow.nodeCount =
      ((recs.take g.graph.nodeCount).map Embedding.values).length := by
    have hle := h.count
    show g.snapshot.nodes.length = _
    rw [length_snapshot h.inv, List.length_map, List.length_take]
    omega
  have hrow : config.row dimension.u32 = config.row ⟨dimension.get, dimension.lt⟩ := rfl
  simp only [openAt, HnswDisk.onSegmentFile, ends_bind, ends_get, hdb, hholds.readMeta,
    liftExcept_ok, ends_pure, hrow, HnswConfig.parameters_row, hcount, ends_zoom]
  apply ends_mono (Segment.ends_openAt hcut.segment hcut.uniform hcut.fits)
  · intro seg w' hend'
    obtain ⟨hlater, hfile, hmapped⟩ := hend'
    have hdisk : HnswOnDisk pc config dimension g (recs.take g.graph.nodeCount) []
        { w.state with segment := w'.state } :=
      { inv := h.inv
        catalog := ⟨db, hdb, hholds⟩
        segment := hfile
        dims := hcut.dims
        count := hcut.count
        fits := by
          have hfits := hcut.fits
          rw [length_layout _ _ hcut.uniform] at hfits ⊢
          rw [List.length_nil]
          omega }
    -- the records behind the last node of the snapshot are cut off, the others stay
    have hrecord : ∀ i e, i < g.graph.nodeCount → recs[i]? = some e →
        Segment.record w'.state seg i = some e.values := by
      intro i e hi he
      have hget : ((recs.take g.graph.nodeCount).map Embedding.values)[i]? = some e.values := by
        rw [List.getElem?_map, List.getElem?_take, if_pos hi, he, Option.map_some]
      rw [hfile]
      exact hmapped.record hcut.uniform hdisk.fits (List.getElem?_eq_some_iff.mp hget).1 hget
    have hgraph := fromSnapshot_reembedded h.inv h.dims h.count hrecord
    simp only [hholds.readSnapshot hshaped, liftExcept_ok, ends_pure, hgraph, Except.mapError]
    refine ⟨⟨hlater.commits, hlater.how⟩, trivial, ?_⟩
    have hsnap := snapshot_reembedded h.inv h.dims
    exact
      { disk :=
          { inv := h.inv.reembedded h.dims
            catalog := ⟨db, rfl, hsnap.symm ▸ hholds⟩
            segment := hdisk.segment
            dims := hdisk.dims
            count := by
              rw [graph_reembedded, HnswGraph.nodeCount_reembedded]
              exact hdisk.count
            fits := hdisk.fits }
        width := hmapped.dim }
  · intro r w' hend'
    obtain ⟨hstop, junk', hfile, hfits⟩ := hend'
    refine ⟨⟨⟨hstop.cause, hstop.commits⟩, hstop.planned⟩, junk', ?_⟩
    exact
      { inv := h.inv
        catalog := ⟨db, rfl, hholds⟩
        segment := hfile
        dims := hcut.dims
        count := hcut.count
        fits := hfits }

/-! ## Parts of an operation -/

namespace HnswStore

section Parts

variable {w : World HnswStore}

theorem ends_onGraph {α : Type} {f : HnswIndex → Option (Except IndexError α × HnswIndex)}
    {Q : α → World HnswStore → Prop} {E : Halt StorageError → World HnswStore → Prop}
    (result : Except IndexError α) (graph : HnswIndex)
    (hcall : f w.state.index.graph = some (result, graph))
    (hok : ∀ a, result = .ok a → Q a { w with state :=
      { w.state with index := { w.state.index with graph := graph } } })
    (herr : ∀ e, result = .error e → E (.err (.index e)) { w with state :=
      { w.state with index := { w.state.index with graph := graph } } }) :
    ends (onGraph f) Q E w := by
  simp only [onGraph, ends_bind, ends_get, hcall, ends_modify]
  cases result with
  | ok a => exact hok a rfl
  | error e => exact herr e rfl

theorem ends_transaction {change : HnswDb → HnswDb} {Q : Unit → World HnswStore → Prop}
    {E : Halt StorageError → World HnswStore → Prop} (db : HnswDb)
    (hdb : w.state.disk.catalog = some db)
    (hQ : ∀ w', w'.commits = w.commits + 1 → w'.plan.how = w.plan.how → w'.state =
      { w.state with disk := { w.state.disk with catalog := some (change db) } } → Q () w')
    (hE : ∀ r w', Stopped w r w' → w'.state = w.state → E r w') :
    ends (transaction change) Q E w := by
  have hread : w.state.disk.db = db := by rw [HnswDisk.db, hdb, Option.getD_some]
  rw [transaction, ends_zoom, hread]
  apply ends_commit_storage rfl
  · intro w' hcommits hhow hstate
    exact hQ _ hcommits hhow (by rw [hstate])
  · intro r w' hstop hstate
    apply hE
    · exact ⟨⟨hstop.cause, hstop.commits⟩, hstop.planned⟩
    · rw [hstate, ← hdb]

/-- Appending the values of whole records. -/
theorem ends_appendValues (hrep : HnswRep pc config dimension recs w.state) {values : List F32}
    {news : List Embedding} (hflat : (news.map Embedding.values).flatten = values)
    (hnews : ∀ e ∈ news, e.dimension = dimension.get) :
    ends (onSegment (Segment.append values))
      (fun _ w' => Later w w' ∧ HnswRep pc config dimension (recs ++ news) w'.state ∧
        w'.state.index.graph = w.state.index.graph ∧
        w'.state.disk.catalog = w.state.disk.catalog)
      (fun r w' => Halted w r w' ∧ w'.state.index.graph = w.state.index.graph ∧
        ∃ junk, HnswOnDisk pc config dimension w.state.index.graph recs junk w'.state.disk) w := by
  have hdisk := hrep.disk
  have hpos := dimension.pos
  have hmultiple : values.length % w.state.index.segment.dimension = 0 := by
    rw [hrep.width, ← hflat, (uniform_values hnews).length_flatten, Nat.mul_mod_left]
  have hwritten : layout config.metric dimension (recs.map Embedding.values) [] ++
      bytesOf values = layout config.metric dimension ((recs ++ news).map Embedding.values) [] := by
    rw [← hflat, layout_append_records, List.map_append]
  have hstate : (⟨(w.state.disk.segment, w.state.index.segment), w.plan, w.commits⟩ :
      World (File × Segment)).state =
        (some (layout config.metric dimension (recs.map Embedding.values) []),
          w.state.index.segment) := by
    rw [← hdisk.segment]
  rw [onSegment, ends_zoom]
  apply ends_mono (Segment.ends_append hstate hdisk.fits (by rw [hrep.width]; omega) hmultiple)
  · intro _ w' hend'
    obtain ⟨hlater, hfile, hfits⟩ := hend'
    rw [hwritten] at hfile hfits
    refine ⟨⟨hlater.commits, hlater.how⟩, ?_, rfl, rfl⟩
    exact
      { disk :=
          { inv := hdisk.inv
            catalog := hdisk.catalog
            segment := congrArg Prod.fst hfile
            dims := by
              intro e he
              rcases List.mem_append.mp he with he | he
              · exact hdisk.dims e he
              · exact hnews e he
            count := by
              rw [List.length_append]
              exact Nat.le_add_right_of_le hdisk.count
            fits := hfits }
        width := by rw [hfile]; exact hrep.width }
  · intro r w' hend'
    obtain ⟨hhalt, _, part, hfile, hfits⟩ := hend'
    refine ⟨⟨hhalt.cause, hhalt.commits⟩, rfl, part, ?_⟩
    rw [layout_append_bytes, List.nil_append] at hfile hfits
    exact
      { inv := hdisk.inv
        catalog := hdisk.catalog
        segment := congrArg Prod.fst hfile
        dims := hdisk.dims
        count := hdisk.count
        fits := hfits }

/-- The bytes of whole records after the last one may as well be records. -/
theorem onDisk_of_records {disk : HnswDisk} {news : List Embedding}
    (h : HnswOnDisk pc config dimension g (recs ++ news) [] disk)
    (hcount : g.graph.nodeCount ≤ recs.length) : ∃ junk,
    HnswOnDisk pc config dimension g recs junk disk := by
  have hlayout : layout config.metric dimension ((recs ++ news).map Embedding.values) [] =
      layout config.metric dimension (recs.map Embedding.values)
        (bytesOf (news.map Embedding.values).flatten) := by
    rw [List.map_append, ← layout_append_records, layout_append_bytes, List.nil_append]
  refine ⟨_, h.inv, h.catalog, h.segment.trans (congrArg some hlayout), ?_, hcount, hlayout ▸ h.fits⟩
  intro e he
  exact h.dims e (List.mem_append_left _ he)

end Parts

/-! ## Writes -/

section Writes

variable {w : World HnswStore}

/-- How an insert is refused: the vector is not a whole number of records, or
    it is, and stays in the file although the graph rejects the point. -/
inductive InsertRefused (pc : HnswCodec) (P : Platform) (config : HnswConfig)
    (dimension : Dimension) (recs : List Embedding) (levelFloat : LevelFloat) (id : VectorId)
    (e : Embedding) (w : World HnswStore) : Halt StorageError → World HnswStore → Prop where
  | torn (message : String) (hwidth : e.dimension % dimension.get ≠ 0) :
      InsertRefused pc P config dimension recs levelFloat id e w (.err (.corruption message)) w
  | rejected {error : IndexError} {w' : World HnswStore} (news : List Embedding)
      (hcall : insertTracked P levelFloat w.state.index.graph id e =
        some (.error error, w.state.index.graph))
      (hlater : Later w w') (hgraph : w'.state.index.graph = w.state.index.graph)
      (hrep : HnswRep pc config dimension (recs ++ news) w'.state) :
      InsertRefused pc P config dimension recs levelFloat id e w (.err (.index error)) w'

/-- An insert that ends normally was accepted by the graph and its vector is
    the next record. -/
theorem ends_insert (hrep : HnswRep pc config dimension recs w.state) (levelFloat : LevelFloat)
    (id : VectorId) (e : Embedding) :
    ends (writeThroughInsert pc P levelFloat id e)
      (fun _ w' => w'.commits = w.commits + 1 ∧ w'.plan.how = w.plan.how ∧
        HnswRep pc config dimension (recs ++ [e]) w'.state ∧
        e.dimension = dimension.get ∧ ∃ delta level,
          insertTracked P levelFloat w.state.index.graph id e =
            some (.ok delta, w'.state.index.graph) ∧
          Inserted w.state.index.graph id e level delta w'.state.index.graph)
      (fun r w' => InsertRefused pc P config dimension recs levelFloat id e w r w' ∨
        (Halted w r w' ∧ ∃ junk, HnswOnDisk pc config dimension w.state.index.graph recs junk
          w'.state.disk)) w := by
  have hinv := hrep.disk.inv
  rw [writeThroughInsert, ends_bind]
  by_cases hwhole : e.dimension % dimension.get = 0
  · have hlen : e.values.length = e.dimension / dimension.get * dimension.get :=
      (Nat.div_mul_cancel (Nat.dvd_of_mod_eq_zero hwhole)).symm
    obtain ⟨news, hflat, hnews⟩ := exists_records e.finite _ hlen
    apply ends_mono (ends_appendValues hrep hflat hnews)
    · intro _ w₁ hend₁
      obtain ⟨hlater₁, hrep₁, hgraph₁, hcatalog₁⟩ := hend₁
      obtain ⟨result, graph, hcall, houtcome, hinv'⟩ :=
        insertTracked_spec (P := P) hinv levelFloat id e
      rw [ends_bind]
      apply ends_onGraph result graph (by rw [hgraph₁]; exact hcall)
      · rintro delta rfl
        cases houtcome with
        | @accepted hdim _ level _ _ _ hi =>
          -- a vector of the right dimension is one record
          rw [hinv.dimension_eq] at hdim
          obtain rfl : news = [e] := by
            apply records_unique hnews
            · intro e' he'
              rw [List.mem_singleton.mp he', hdim]
            · rw [hflat, List.map_singleton, List.flatten_singleton]
          obtain ⟨db, hdb, hholds⟩ := hrep₁.disk.catalog
          rw [hgraph₁] at hholds
          simp only [ends_bind, ends_get]
          apply ends_transaction db
          · exact hdb
          · intro w₂ hcommits₂ hhow₂ hstate₂
            refine ⟨by rw [hcommits₂, hlater₁.commits], hhow₂.trans hlater₁.how, ?_, hdim, delta,
              level, ?_, ?_⟩
            · rw [hstate₂]
              exact
                { disk :=
                    { inv := hinv'
                      catalog := ⟨_, rfl, hholds.inserted hinv hinv' hi⟩
                      segment := hrep₁.disk.segment
                      dims := hrep₁.disk.dims
                      count := by
                        have hcount := hrep.disk.count
                        rw [hi.shape.nodeCount, HnswGraph.nodeCount_setEntryPoint,
                          HnswGraph.nodeCount_withNode, List.length_append,
                          List.length_singleton]
                        omega
                      fits := hrep₁.disk.fits }
                  width := hrep₁.width }
            · rw [hstate₂]
              exact hcall
            · rw [hstate₂]
              exact hi
          · intro r w₂ hstop hstate₂
            have hdisk₁ := hrep₁.disk
            rw [hgraph₁] at hdisk₁
            obtain ⟨junk, hdisk⟩ := onDisk_of_records hdisk₁ hrep.disk.count
            refine Or.inr ⟨Halted.after hlater₁ ⟨hstop.cause, hstop.commits⟩, junk, ?_⟩
            rw [hstate₂]
            exact hdisk
      · rintro error rfl
        have hsame : graph = w.state.index.graph := by cases houtcome <;> rfl
        subst hsame
        refine Or.inl (.rejected news hcall ⟨hlater₁.commits, hlater₁.how⟩ rfl ?_)
        rw [← hgraph₁]
        exact hrep₁
    · intro r w₁ hend₁
      obtain ⟨hhalt, _, hdisk⟩ := hend₁
      exact Or.inr ⟨hhalt, hdisk⟩
  · -- the segment takes whole records only
    have hpos := dimension.pos
    rw [onSegment, ends_zoom]
    simp only [Segment.append, ends_bind, ends_get, hrep.width]
    rw [if_neg (by omega), if_pos (by exact hwhole), ends_throw]
    exact Or.inl (.torn _ hwhole)

/-- A removal changes no record. -/
theorem ends_remove (hrep : HnswRep pc config dimension recs w.state) (id : VectorId) :
    ends (writeThroughRemove pc id)
      (fun existed w' => w'.commits = w.commits + (if existed then 1 else 0) ∧
        w'.plan.how = w.plan.how ∧ existed = (w.state.index.graph.graph.live id).isSome ∧
        w'.state.index.graph = (w.state.index.graph.removeTracked id).2 ∧
        HnswRep pc config dimension recs w'.state)
      (fun r w' => Stopped w r w' ∧
        HnswOnDisk pc config dimension w.state.index.graph recs [] w'.state.disk) w := by
  have hinv := hrep.disk.inv
  have houtcome := removeTracked_outcome hinv id
  have hinv' := houtcome.inv hinv
  rw [writeThroughRemove, ends_bind]
  generalize hr : w.state.index.graph.removeTracked id = out at houtcome hinv'
  obtain ⟨result, graph⟩ := out
  apply ends_onGraph result graph (by rw [hr])
  · rintro delta rfl
    cases houtcome with
    | absent hlive =>
      refine ⟨rfl, rfl, by rw [hlive]; rfl, rfl, ?_⟩
      exact ⟨hrep.disk, hrep.width⟩
    | @removed node hlive =>
      obtain ⟨hnode, _⟩ := (hinv.nodes.live_iff id node).mp hlive
      obtain ⟨db, hdb, hholds⟩ := hrep.disk.catalog
      simp only [ends_bind, ends_get, ends_pure]
      apply ends_transaction db
      · exact hdb
      · intro w' hcommits hhow hstate
        refine ⟨hcommits, hhow, by rw [hlive]; rfl, by rw [hstate], ?_⟩
        rw [hstate]
        exact
          { disk :=
              { inv := hinv'
                catalog := ⟨_, rfl, hholds.removed hinv hnode.1 rfl hinv'⟩
                segment := hrep.disk.segment
                dims := hrep.disk.dims
                count := by
                  have hcount := hrep.disk.count
                  rwa [HnswGraph.nodeCount_setEntryPoint, HnswGraph.nodeCount_withTombstone]
                fits := hrep.disk.fits }
            width := hrep.width }
      · intro r w' hstop hstate
        refine ⟨⟨⟨hstop.cause, hstop.commits⟩, hstop.planned⟩, ?_⟩
        rw [hstate]
        exact hrep.disk
  · rintro error rfl
    cases houtcome

theorem ends_flushSnapshot (db : HnswDb) (hdb : w.state.disk.catalog = some db)
    (hinv : Inv config dimension w.state.index.graph)
    (hconfig : db.metaTable.config = some (pc.metaConfig.encode (config.row dimension.u32))) :
    ends (flushSnapshot pc)
      (fun _ w' => w'.commits = w.commits + 1 ∧ w'.plan.how = w.plan.how ∧
        ∃ db', w'.state = { w.state with disk := { w.state.disk with catalog := some db' } } ∧
          db'.Holds pc config dimension w.state.index.graph.snapshot)
      (fun r w' => Stopped w r w' ∧ w'.state = w.state) w := by
  rw [flushSnapshot, ends_bind, ends_get]
  apply ends_transaction db hdb
  · intro w' hcommits hhow hstate
    exact ⟨hcommits, hhow, _, hstate, HnswDb.holds_flushed hinv hconfig⟩
  · intro r w' hstop hstate
    exact ⟨hstop, hstate⟩

theorem length_points_le (g : HnswGraph) : g.points.length ≤ g.nodeCount :=
  List.length_filterMap_le _ _

/-- A compaction renumbers the nodes and changes no record. -/
theorem ends_compact (hrep : HnswRep pc config dimension recs w.state) (levelFloat : LevelFloat) :
    ends (compact pc P levelFloat)
      (fun _ w' => w'.plan.how = w.plan.how ∧ HnswRep pc config dimension recs w'.state ∧
        w.state.index.graph.compact P levelFloat = some (.ok (), w'.state.index.graph) ∧
        w'.state.index.graph.graph.nodes.map (fun n => (n.id, n.embedding)) =
          w.state.index.graph.graph.points ∧
        w'.state.index.graph.graph.points = w.state.index.graph.graph.points)
      (fun r w' => Stopped w r w' ∧
        HnswOnDisk pc config dimension w.state.index.graph recs [] w'.state.disk) w := by
  have hinv := hrep.disk.inv
  obtain ⟨graph, hcall, hinv', hnodes, hpoints⟩ := compact_spec (P := P) hinv levelFloat
  obtain ⟨db, hdb, hholds⟩ := hrep.disk.catalog
  have hconfig : db.metaTable.config =
      some (pc.metaConfig.encode (config.row dimension.u32)) := by
    rw [HnswDb.metaTable, hholds.metaRows, Option.getD_some]
  rw [compact, ends_bind]
  apply ends_onGraph _ graph hcall
  · intro _ _
    refine ends_mono (ends_flushSnapshot db hdb hinv' hconfig) ?_ ?_
    · intro _ w' hend'
      obtain ⟨_, hhow, db', hstate, hholds'⟩ := hend'
      refine ⟨hhow, ?_, by rw [hstate]; exact hcall, by rw [hstate]; exact hnodes,
        by rw [hstate]; exact hpoints⟩
      rw [hstate]
      exact
        { disk :=
            { inv := hinv'
              catalog := ⟨db', rfl, hholds'⟩
              segment := hrep.disk.segment
              dims := hrep.disk.dims
              count := by
                have hlen := congrArg List.length hnodes
                rw [List.length_map] at hlen
                have hle := length_points_le w.state.index.graph.graph
                have hcount := hrep.disk.count
                show graph.graph.nodes.length ≤ _
                omega
              fits := hrep.disk.fits }
          width := hrep.width }
    · intro r w' hend'
      obtain ⟨hstop, hstate⟩ := hend'
      refine ⟨⟨⟨hstop.cause, hstop.commits⟩, hstop.planned⟩, ?_⟩
      rw [hstate]
      exact hrep.disk
  · intro e he
    exact absurd he (by simp)

end Writes

/-! ## Creation and bulk loading -/

section Creation

variable {w : World HnswStore}

/-- The vectors of a bulk load, cut into records. -/
theorem ends_appendAll (points : List (VectorId × Embedding))
    (hrep : HnswRep pc config dimension recs w.state) :
    ends (appendAll points)
      (fun _ w' => Later w w' ∧ w'.state.index.graph = w.state.index.graph ∧ ∃ news,
        HnswRep pc config dimension (recs ++ news) w'.state ∧
        (news.map Embedding.values).flatten =
          ((points.map Prod.snd).map Embedding.values).flatten ∧
        ∀ e ∈ news, e.dimension = dimension.get)
      (fun _ _ => True) w := by
  induction points generalizing recs w with
  | nil => exact ⟨Later.refl w, rfl, [], by rw [List.append_nil]; exact hrep, rfl, by simp⟩
  | cons p rest ih =>
    obtain ⟨id, e⟩ := p
    rw [appendAll, ends_bind]
    by_cases hwhole : e.dimension % dimension.get = 0
    · obtain ⟨news, hflat, hnews⟩ := exists_records e.finite _
        (Nat.div_mul_cancel (Nat.dvd_of_mod_eq_zero hwhole)).symm
      apply ends_mono (ends_appendValues hrep hflat hnews)
      · intro _ w₁ hend₁
        obtain ⟨hlater₁, hrep₁, hgraph₁, _⟩ := hend₁
        apply ends_mono (ih hrep₁)
        · intro _ w₂ hend₂
          obtain ⟨hlater₂, hgraph₂, news₂, hrep₂, hflat₂, hnews₂⟩ := hend₂
          refine ⟨hlater₁.trans hlater₂, hgraph₂.trans hgraph₁, news ++ news₂, ?_, ?_, ?_⟩
          · rw [← List.append_assoc]
            exact hrep₂
          · rw [List.map_append, List.flatten_append, hflat, hflat₂]
            rfl
          · intro e' he'
            rcases List.mem_append.mp he' with he' | he'
            · exact hnews e' he'
            · exact hnews₂ e' he'
        · intro _ _ _
          trivial
      · intro _ _ _
        trivial
    · have hpos := dimension.pos
      rw [onSegment, ends_zoom]
      simp only [Segment.append, ends_bind, ends_get, hrep.width]
      rw [if_neg (by omega), if_pos (by exact hwhole), ends_throw]
      trivial

/-- A bulk insert that succeeds adds the points as nodes. -/
theorem bulkInsert_spec (levelFloat : LevelFloat) (items : List (VectorId × Embedding))
    {s : HnswIndex} (h : Inv config dimension s) :
    ∃ result s', bulkInsert P levelFloat s items = some (result, s') ∧ Inv config dimension s' ∧
      (result = .ok () → (∀ p ∈ items, p.2.dimension = dimension.get) ∧
        s'.graph.nodes.map Node.embedding = s.graph.nodes.map Node.embedding ++
          items.map Prod.snd ∧
        s'.graph.points = s.graph.points ++ items) := by
  induction items generalizing s with
  | nil => exact ⟨_, s, rfl, h, fun _ => ⟨by simp, by simp, by simp⟩⟩
  | cons p rest ih =>
    obtain ⟨id, e⟩ := p
    obtain ⟨result, s₁, hcall, houtcome, hinv⟩ := insertTracked_spec (P := P) h levelFloat id e
    have hrefused : ∀ error, result = .error error →
        bulkInsert P levelFloat s ((id, e) :: rest) = some (.error error, s₁) := by
      rintro error rfl
      simp [bulkInsert, HnswIndex.insert, hcall, Except.map]
    cases houtcome with
    | mismatch _ => exact ⟨_, _, hrefused _ rfl, hinv, fun hok => absurd hok (by simp)⟩
    | duplicate _ _ _ => exact ⟨_, _, hrefused _ rfl, hinv, fun hok => absurd hok (by simp)⟩
    | @accepted hdim _ _ _ _ _ hi =>
      obtain ⟨result', s', hrest, hinv', hok⟩ := ih hinv
      refine ⟨result', s', by simp [bulkInsert, HnswIndex.insert, hcall, Except.map, hrest],
        hinv', ?_⟩
      intro hresult
      obtain ⟨hdims, hnodes, hpoints⟩ := hok hresult
      rw [h.dimension_eq] at hdim
      refine ⟨?_, ?_, ?_⟩
      · intro q hq
        rcases List.mem_cons.mp hq with rfl | hq
        · exact hdim
        · exact hdims q hq
      · rw [hnodes, hi.nodes_map Node.embedding (fun _ => rfl), List.append_assoc]
        rfl
      · rw [hpoints, hi.shape.points, HnswGraph.points_setEntryPoint,
          HnswGraph.points_withNode, List.append_assoc]
        rfl

end Creation

end HnswStore

/-- A new store is empty. -/
theorem HnswDisk.ends_create {w : World HnswDisk} (hempty : w.state.db.NoNodes) :
    ends (create pc config dimension)
      (fun index w' => w'.plan.how = w.plan.how ∧ index.graph = HnswIndex.new config dimension ∧
        HnswRep pc config dimension [] { disk := w'.state, index := index })
      (fun _ _ => True) w := by
  have hdim : tryU32 dimension.get = .ok dimension.u32 := tryU32_of_lt dimension.lt
  simp only [create, createDirAll, HnswDisk.onCatalogFile, HnswDisk.onSegmentFile, ends_bind,
    ends_zoom, hdim, liftExcept_ok, ends_pure]
  apply ends_durable_storage rfl
  · intro w₁ hlater₁ hkept₁
    apply ends_durable_storage rfl
    · intro w₂ hlater₂ hfresh₂
      apply ends_commit_storage rfl
      · intro w₃ _ hhow₃ hcreated₃
        cases hfile : w₁.state.segment with
        | some bytes => simp [Segment.create, File.createNew]
        | none =>
          apply ends_mono (Segment.ends_create rfl)
          · intro seg w₄ hend₄
            obtain ⟨hlater₄, hfile₄, hmapped₄⟩ := hend₄
            refine ⟨((hlater₄.how.trans hhow₃).trans hlater₂.how).trans hlater₁.how, trivial, ?_⟩
            have hcatalog : w₃.state = some (HnswDb.created pc (config.row dimension.u32)
                { entryPoint := none, entryLevel := 0, rngState := config.seed, nodeCount := 0 }
                w.state.db) := by
              rw [hcreated₃, hfresh₂, hkept₁]
              rfl
            exact
              { disk :=
                  { inv := inv_new config dimension
                    catalog := ⟨_, hcatalog, HnswDb.holds_created hempty⟩
                    segment := hfile₄
                    dims := by simp
                    count := le_refl 0
                    fits := by
                      rw [length_layout _ _ (by intro r hr; simp at hr), List.map_nil,
                        List.length_nil, Nat.zero_mul]
                      decide }
                width := hmapped₄.dim }
          · intro _ _ _
            trivial
      · intro _ _ _ _
        trivial
    · intro _ _ _ _
      trivial
  · intro _ _ _ _
    trivial

/-- A bulk load that succeeds has one node and one record for each point. -/
theorem HnswDisk.ends_bulkLoad {w : World HnswDisk} (hempty : w.state.db.NoNodes)
    (levelFloat : LevelFloat) (points : List (VectorId × Embedding)) :
    ends (bulkLoad pc P levelFloat config dimension points)
      (fun index w' =>
        HnswRep pc config dimension (points.map Prod.snd) { disk := w'.state, index := index } ∧
        index.graph.graph.nodes.map Node.embedding = points.map Prod.snd ∧
        index.graph.graph.points = points)
      (fun _ _ => True) w := by
  simp only [bulkLoad, ends_bind]
  apply ends_mono (HnswDisk.ends_create hempty)
  · intro index w₁ hend₁
    obtain ⟨_, hnew, hrep₁⟩ := hend₁
    simp only [ends_withVar, ends_zoom, ends_bind]
    apply ends_mono (HnswStore.ends_appendAll points hrep₁)
    · intro _ w₂ hend₂
      obtain ⟨_, hgraph₂, news, hrep₂, hflat, hnews⟩ := hend₂
      obtain ⟨result, graph, hcall, hinv, hok⟩ :=
        HnswStore.bulkInsert_spec (P := P) levelFloat points hrep₂.disk.inv
      obtain ⟨db, hdb, hholds⟩ := hrep₂.disk.catalog
      have hconfig : db.metaTable.config =
          some (pc.metaConfig.encode (config.row dimension.u32)) := by
        rw [HnswDb.metaTable, hholds.metaRows, Option.getD_some]
      apply HnswStore.ends_onGraph _ graph hcall
      · rintro _ rfl
        obtain ⟨hdims, hnodes, hpoints⟩ := hok rfl
        rw [hgraph₂, hnew] at hnodes hpoints
        have hnodes : graph.graph.nodes.map Node.embedding = points.map Prod.snd := hnodes
        have hpoints : graph.graph.points = points := hpoints
        -- the file holds the values one after another; the dimension cuts them again
        have hrecs : news = points.map Prod.snd := by
          apply records_unique hnews
          · intro e he
            obtain ⟨p, hp, rfl⟩ := List.mem_map.mp he
            exact hdims p hp
          · exact hflat
        subst hrecs
        rw [List.nil_append] at hrep₂
        refine ends_mono (HnswStore.ends_flushSnapshot db hdb hinv hconfig) ?_ ?_
        · intro _ w₃ hend₃
          obtain ⟨_, _, db', hstate, hholds'⟩ := hend₃
          rw [hstate]
          refine ⟨?_, hnodes, hpoints⟩
          exact
            { disk :=
                { inv := hinv
                  catalog := ⟨db', rfl, hholds'⟩
                  segment := hrep₂.disk.segment
                  dims := hrep₂.disk.dims
                  count := by
                    have hlen := congrArg List.length hnodes
                    rw [List.length_map] at hlen
                    exact le_of_eq hlen
                  fits := hrep₂.disk.fits }
              width := hrep₂.width }
        · intro _ _ _
          trivial
      · intro _ _
        trivial
    · intro _ _ _
      trivial
  · intro _ _ _
    trivial

end EidosDB
