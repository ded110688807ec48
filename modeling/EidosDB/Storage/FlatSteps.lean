import EidosDB.Storage.Ledger
import EidosDB.Storage.SegmentSpec

/-! # What the Flat Store Operations Do

    The files of a flat store represent a ledger; so does an open store,
    whose memory agrees with its files.  Each operation is specified by what
    it does to the ledger when it ends normally, and by what an interruption
    leaves on disk. -/

namespace EidosDB

open Bytes Effect

/-! ## Representation -/

/-- The manifest of a store with `n` records. -/
def manifestOf (metric : Metric) (dimension : Dimension) (n : Nat) : Manifest :=
  { formatVersion := formatVersion
    dimension := dimension.u32
    metric := metric
    recordCount := wrap64 n }

/-- The files hold the ledger `l`, and bytes past its records. -/
structure OnDisk (metric : Metric) (dimension : Dimension) (l : Ledger) (junk : List Byte)
    (disk : FlatDisk) : Prop where
  catalog : disk.catalog = some (.stored (manifestOf metric dimension l.recs.length) l.slots)
  segment : disk.segment = some (layout metric dimension (l.recs.map Embedding.values) junk)
  dims : ∀ e ∈ l.recs, e.dimension = dimension.get
  fits : (layout metric dimension (l.recs.map Embedding.values) junk).length ≤ maxFileLen

/-- An open store represents the ledger `l`: the mapped records are the first
    ones, the tail holds the others. -/
structure Rep (metric : Metric) (dimension : Dimension) (l : Ledger) (s : FlatStore) : Prop where
  metric_eq : s.index.metric = metric
  dimension_eq : s.index.dimension = dimension
  disk : OnDisk metric dimension l [] s.disk
  recordCount : s.index.recordCount = l.recs.length
  liveCount : s.index.liveCount = l.slots.len
  mapped_le : s.index.segment.mappedRecords ≤ l.recs.length
  mapped : Segment.Mapped dimension s.index.segment.mappedRecords s.index.segment
  tail : s.index.tail.map Prod.snd = l.recs.drop s.index.segment.mappedRecords

variable {metric : Metric} {dimension : Dimension} {l : Ledger} {junk : List Byte}

namespace OnDisk

variable {disk : FlatDisk}

theorem uniform (h : OnDisk metric dimension l junk disk) :
    Uniform dimension (l.recs.map Embedding.values) := by
  intro r hr
  obtain ⟨e, he, rfl⟩ := List.mem_map.mp hr
  exact h.dims e he

theorem catalogDb (h : OnDisk metric dimension l junk disk) :
    disk.catalogDb = .stored (manifestOf metric dimension l.recs.length) l.slots := by
  rw [FlatDisk.catalogDb, h.catalog, Option.getD_some]

/-- The number of records fits its field in the manifest. -/
theorem count (h : OnDisk metric dimension l junk disk) :
    (wrap64 l.recs.length).val = l.recs.length := by
  have hlen := h.fits
  rw [length_layout _ _ h.uniform, List.length_map] at hlen
  have hpos := dimension.pos
  have hword : maxFileLen < 18446744073709551616 := by decide
  have hle : l.recs.length ≤ l.recs.length * (dimension.get * 4) :=
    Nat.le_mul_of_pos_right _ (by omega)
  exact wrap64_val (by omega)

end OnDisk

namespace Rep

variable {s : FlatStore}

theorem catalog (h : Rep metric dimension l s) :
    s.catalog = .stored (manifestOf metric dimension l.recs.length) l.slots := h.disk.catalogDb

/-- Every slot is read through the map or the tail as the record it was
    written with. -/
theorem valuesAtWith {ε : Type} (h : Rep metric dimension l s) (missing : String → ε)
    {slot : Nat} {e : Embedding} (he : l.recs[slot]? = some e) :
    FlatStore.valuesAtWith missing s slot s.index.segment.mappedRecords = .ok e.values := by
  unfold FlatStore.valuesAtWith
  by_cases hslot : slot < s.index.segment.mappedRecords
  · have hrec : (l.recs.map Embedding.values)[slot]? = some e.values := by
      rw [List.getElem?_map, he]
      rfl
    rw [if_pos hslot, h.disk.segment,
      h.mapped.record h.disk.uniform h.disk.fits hslot hrec]
  · -- above the map, the tail lists the records in order
    have htail : (s.index.tail.map Prod.snd)[slot - s.index.segment.mappedRecords]? = some e := by
      rw [h.tail, List.getElem?_drop, ← he]
      congr 1
      omega
    rw [List.getElem?_map] at htail
    obtain ⟨item, hitem, rfl⟩ := Option.map_eq_some_iff.mp htail
    rw [if_neg hslot, hitem]

theorem scoreLive (h : Rep metric dimension l s) (ops : F32Ops) (query : Embedding)
    (queryMetric : Metric) (isAdmissible : VectorId → Bool) {live : List (VectorId × Nat)}
    (hlive : ∀ p ∈ live, p.2 < l.recs.length) :
    s.scoreLive ops query queryMetric isAdmissible s.index.segment.mappedRecords live =
      .ok (((l.pointsAt live).filter (fun p => isAdmissible p.1)).map
        (neighborOf ops queryMetric query.values)) := by
  induction live with
  | nil => rfl
  | cons p live ih =>
    have hp := List.getElem?_eq_getElem (hlive p List.mem_cons_self)
    have hrest := ih (fun q hq => hlive q (List.mem_cons_of_mem _ hq))
    rw [FlatStore.scoreLive, Ledger.pointsAt_cons hp, List.filter_cons]
    by_cases hadm : isAdmissible p.1 = true
    · rw [if_pos hadm, if_pos hadm, FlatStore.valuesAt, h.valuesAtWith _ hp, hrest]
      rfl
    · rw [if_neg hadm, if_neg hadm, hrest]

theorem gatherValues (h : Rep metric dimension l s) {live : List (VectorId × Nat)}
    (hlive : ∀ p ∈ live, p.2 < l.recs.length) :
    s.gatherValues s.index.segment.mappedRecords live =
      .ok ((l.pointsAt live).map (fun p => p.2.values)) := by
  induction live with
  | nil => rfl
  | cons p live ih =>
    have hp := List.getElem?_eq_getElem (hlive p List.mem_cons_self)
    have hrest := ih (fun q hq => hlive q (List.mem_cons_of_mem _ hq))
    rw [FlatStore.gatherValues, FlatStore.valuesAtStorage, h.valuesAtWith _ hp, hrest,
      Ledger.pointsAt_cons hp]
    rfl

/-- A search is exact over the points of the ledger. -/
theorem searchFiltered (h : Rep metric dimension l s) (ops : F32Ops) (query : Embedding) (k : Nat)
    (queryMetric : Metric) (isAdmissible : VectorId → Bool) :
    s.searchFiltered ops query k queryMetric isAdmissible =
      if query.dimension ≠ dimension.get then
        .error (.dimensionMismatch dimension.get query.dimension)
      else .ok (hits ops queryMetric query.values k isAdmissible l.points) := by
  unfold FlatStore.searchFiltered
  rw [h.dimension_eq, h.catalog, CatalogDb.liveSlots_stored]
  split
  · rfl
  · have hscore := h.scoreLive ops query queryMetric isAdmissible l.entries_lt
    simp only [Except.mapError, Bind.bind, Except.bind, hscore]
    rfl

end Rep

/-! ## Opening -/

namespace FlatDisk

/-- Opening the files of a ledger succeeds unless it is interrupted, and cuts
    what lies past the records. -/
theorem ends_openExisting {w : World FlatDisk} (h : OnDisk metric dimension l junk w.state) :
    ends (openExisting metric dimension)
      (fun index w' => Later w w' ∧ Rep metric dimension l ⟨w'.state, index⟩)
      (fun r w' => Stopped w r w' ∧ ∃ junk', OnDisk metric dimension l junk' w'.state) w := by
  have hdim : tryU32 dimension.get = .ok dimension.u32 := tryU32_of_lt dimension.lt
  have hfile : w.state.segment = some (layout metric dimension (l.recs.map Embedding.values) junk) :=
    h.segment
  have hlen : (l.recs.map Embedding.values).length = l.recs.length := List.length_map _
  simp only [openExisting, onCatalogFile, onSegmentFile, Catalog.openAt, ends_bind, ends_zoom,
    ends_get, h.catalog, CatalogDb.readManifest_stored, liftExcept_ok, ends_pure, hdim]
  rw [if_neg (by simp [manifestOf])]
  simp only [ends_bind, ends_pure]
  rw [if_neg (by simp [manifestOf]), show (manifestOf metric dimension l.recs.length).recordCount.val =
    (l.recs.map Embedding.values).length by rw [hlen]; exact h.count]
  simp only [ends_bind, ends_zoom]
  have hstate : (⟨w.state.segment, w.plan, w.commits⟩ : World File).state =
    some (layout metric dimension (l.recs.map Embedding.values) junk) := hfile
  apply ends_mono (Segment.ends_openAt hstate h.uniform h.fits)
  · intro seg w₁ hend₁
    obtain ⟨hlater, hcut, hmapped⟩ := hend₁
    have hcutLen := length_layout metric [] h.uniform
    have hfullLen := length_layout metric junk h.uniform
    have hfits := h.fits
    simp only [ends_get, FlatDisk.catalogDb, Option.getD_some, CatalogDb.liveCount_stored,
      liftExcept_ok, ends_pure]
    refine ⟨⟨hlater.commits, hlater.how⟩, ?_⟩
    rw [hlen] at hmapped
    have hcount : seg.mappedRecords = l.recs.length := hmapped.count
    exact
      { metric_eq := rfl
        dimension_eq := rfl
        disk :=
          { catalog := rfl
            segment := hcut
            dims := h.dims
            fits := by rw [hcutLen, List.length_nil]; omega }
        recordCount := hlen
        liveCount := rfl
        mapped_le := le_of_eq hcount
        mapped := hcount ▸ hmapped
        tail := by simp only [hcount, List.drop_length, List.map_nil] }
  · intro r w₁ hend₁
    obtain ⟨hstop, junk', hkept, hfits⟩ := hend₁
    refine ⟨⟨⟨hstop.cause, hstop.commits⟩, hstop.planned⟩, junk', ?_⟩
    exact { catalog := rfl, segment := hkept, dims := h.dims, fits := hfits }

theorem ends_openNew {w : World FlatDisk} (h : w.state = empty) :
    ends (openNew metric dimension)
      (fun index w' => w'.plan.how = w.plan.how ∧
        Rep metric dimension .empty ⟨w'.state, index⟩)
      (fun r _ => w.plan.how = some (stopOf r)) w := by
  have hdim : tryU32 dimension.get = .ok dimension.u32 := tryU32_of_lt dimension.lt
  simp only [openNew, onCatalogFile, onSegmentFile, ends_bind, ends_zoom, hdim, liftExcept_ok,
    ends_pure, h]
  apply ends_mono (Catalog.ends_create (by rfl))
  · intro _ w₁ hend₁
    obtain ⟨_, hhow₁, hcatalog⟩ := hend₁
    apply ends_mono (Segment.ends_create (by rfl))
    · intro seg w₂ hend₂
      obtain ⟨hlater₂, hsegment, hmapped⟩ := hend₂
      have hcount : seg.mappedRecords = 0 := hmapped.count
      have hlen : (layout metric dimension [] []).length ≤ maxFileLen := by
        rw [length_layout _ _ (by intro r hr; simp at hr), List.length_nil, List.length_nil,
          Nat.zero_mul]
        decide
      refine ⟨hlater₂.how.trans hhow₁, ?_⟩
      exact
        { metric_eq := rfl
          dimension_eq := rfl
          disk :=
            { catalog := hcatalog
              segment := hsegment
              dims := by intro e he; simp at he
              fits := hlen }
          recordCount := rfl
          liveCount := rfl
          mapped_le := le_of_eq hcount
          mapped := hcount ▸ hmapped
          tail := by simp }
    · intro r w₂ hstop
      exact hhow₁.symm.trans hstop.planned
  · intro r w₁ hstop
    exact hstop.planned

/-- `open` on the files of a ledger. -/
theorem ends_openAt {w : World FlatDisk} (h : OnDisk metric dimension l junk w.state) :
    ends (openAt metric dimension)
      (fun index w' => Later w w' ∧ Rep metric dimension l ⟨w'.state, index⟩)
      (fun r w' => Stopped w r w' ∧ ∃ junk', OnDisk metric dimension l junk' w'.state) w := by
  simp only [openAt, createDirAll, ends_bind]
  apply ends_durable_storage rfl
  · intro w₁ hlater₁ hkept
    rw [id_eq] at hkept
    rw [← hkept] at h
    simp only [ends_get, h.catalog, Option.isSome_some, if_true]
    apply ends_mono (ends_openExisting h)
    · intro index w₂ hend₂
      obtain ⟨hlater₂, hrep⟩ := hend₂
      exact ⟨hlater₁.trans hlater₂, hrep⟩
    · intro r w₂ hend₂
      obtain ⟨hstop, hdisk⟩ := hend₂
      exact ⟨hstop.after hlater₁, hdisk⟩
  · intro r w₁ hstop hkept
    exact ⟨hstop, junk, hkept ▸ h⟩

/-- `open` on an empty directory. -/
theorem ends_openAt_empty (metric : Metric) (dimension : Dimension) {w : World FlatDisk}
    (h : w.state = empty) :
    ends (openAt metric dimension)
      (fun index w' => w'.plan.how = w.plan.how ∧
        Rep metric dimension .empty ⟨w'.state, index⟩)
      (fun r _ => w.plan.how = some (stopOf r)) w := by
  simp only [openAt, createDirAll, ends_bind]
  apply ends_durable_storage rfl
  · intro w₁ hlater₁ hkept
    rw [id_eq, h] at hkept
    simp only [ends_get, hkept, empty, Option.isSome_none, Bool.false_eq_true, if_false]
    apply ends_mono (ends_openNew hkept)
    · intro index w₂ hend₂
      obtain ⟨hhow, hrep⟩ := hend₂
      exact ⟨hhow.trans hlater₁.how, hrep⟩
    · intro r w₂ hplanned
      exact hlater₁.how.symm.trans hplanned
  · intro r w₁ hstop _
    exact hstop.planned

end FlatDisk

namespace FlatStore

/-! ## Appending

    `insert` and `insert_batch` end the same way: bytes, then slots, then the
    fields in memory. -/

def appendItems (s : FlatStore) (items : List (VectorId × Embedding)) :
    Effect StorageError FlatStore Unit := do
  let next := s.index.recordCount + items.length
  onSegment (Segment.append (items.flatMap (·.2.values)))
  onCatalog (Catalog.insertSlots (assignSlots s.index.recordCount (items.map Prod.fst)) next)
  assign (fun index =>
    { index with
      recordCount := next
      liveCount := index.liveCount + items.length
      tail := index.tail ++ items })

theorem insertBatch_eq (items : List (VectorId × Embedding)) :
    insertBatch items = if items.isEmpty then pure ()
      else (do
        let s ← get
        liftExcept (s.validateItems [] items)
        s.appendItems items) := rfl

theorem insert_eq (id : VectorId) (embedding : Embedding) :
    insert id embedding = (do
      let s ← get
      if embedding.dimension ≠ s.index.dimension.get then
        throw (.index (.dimensionMismatch s.index.dimension.get embedding.dimension))
      else
        let present ← liftExcept (s.catalog.contains id)
        if present then throw (.index (.duplicateId id))
        else s.appendItems [(id, embedding)]) := by
  simp only [insert, appendItems, List.flatMap_cons, List.flatMap_nil, List.append_nil]
  rfl

/-- The values of items laid end to end. -/
theorem flatMap_values (items : List (VectorId × Embedding)) :
    items.flatMap (·.2.values) = (items.map (·.2.values)).flatten := List.flatMap_def ..

theorem length_flatMap_values {items : List (VectorId × Embedding)}
    (hdims : ∀ p ∈ items, p.2.dimension = dimension.get) :
    (items.flatMap (·.2.values)).length = items.length * dimension.get :=
  length_flatMap_of_width hdims

/-- New items are appended to the ledger by one commit; before it, only bytes
    past the records can have appeared. -/
theorem ends_appendItems {s : FlatStore} {items : List (VectorId × Embedding)}
    {w : World FlatStore} (hstate : w.state = s) (hrep : Rep metric dimension l s)
    (hdims : ∀ p ∈ items, p.2.dimension = dimension.get)
    (hnodup : (items.map Prod.fst).Nodup) (hnew : ∀ p ∈ items, l.slots.get p.1 = none) :
    ends (s.appendItems items)
      (fun _ w' => w'.commits = w.commits + 1 ∧ w'.plan.how = w.plan.how ∧
        Rep metric dimension (l.add items) w'.state)
      (fun r w' => Halted w r w' ∧ ∃ junk, OnDisk metric dimension l junk w'.state.disk) w := by
  have hdim : s.index.segment.dimension = dimension.get := hrep.mapped.dim
  have hpos := dimension.pos
  have hmultiple : (items.flatMap (·.2.values)).length % s.index.segment.dimension = 0 := by
    rw [length_flatMap_values hdims, hdim, Nat.mul_mod_left]
  -- the values are whole records, so the file stays a list of records
  have hlayout : layout metric dimension (l.recs.map Embedding.values) [] ++
        bytesOf (items.flatMap (·.2.values)) =
      layout metric dimension ((l.add items).recs.map Embedding.values) [] := by
    rw [flatMap_values, layout_append_records, Ledger.add, List.map_append, List.map_map]
    rfl
  have hseg : (⟨(s.disk.segment, s.index.segment), w.plan, w.commits⟩ :
      World (File × Segment)).state =
        (some (layout metric dimension (l.recs.map Embedding.values) []), s.index.segment) := by
    rw [← hrep.disk.segment]
  simp only [appendItems, onSegment, onCatalog, assign, ends_bind, ends_zoom, hstate]
  apply ends_mono (Segment.ends_append hseg hrep.disk.fits (by omega) hmultiple)
  · intro _ w₁ hend₁
    obtain ⟨hlater₁, hwritten, hfits⟩ := hend₁
    rw [hlayout] at hwritten hfits
    apply ends_mono (Catalog.ends_writeSlots l.slots hrep.catalog)
    · intro _ w₂ hend₂
      obtain ⟨hcommits, hhow, hdb⟩ := hend₂
      rw [ends_modify]
      refine ⟨by rw [hcommits, hlater₁.commits], hhow.trans hlater₁.how, ?_⟩
      have hcount : s.index.recordCount + items.length = (l.add items).recs.length := by
        rw [hrep.recordCount, Ledger.add, List.length_append, List.length_map]
      exact
        { metric_eq := hrep.metric_eq
          dimension_eq := hrep.dimension_eq
          disk :=
            { catalog := by
                rw [← hcount, hdb, hrep.recordCount]
                rfl
              segment := by rw [hwritten]
              dims := by
                intro e he
                rcases List.mem_append.mp he with he | he
                · exact hrep.disk.dims e he
                · obtain ⟨p, hp, rfl⟩ := List.mem_map.mp he
                  exact hdims p hp
              fits := hfits }
          recordCount := hcount
          liveCount := by
            show s.index.liveCount + items.length = (l.add items).slots.len
            rw [hrep.liveCount, Ledger.add, OrderedTable.len_insertMany_new, length_assignSlots,
              List.length_map]
            · rw [map_fst_assignSlots]
              exact hnodup
            · intro p hp
              obtain ⟨i, hi, _⟩ := mem_assignSlots.mp hp
              obtain ⟨q, hq, hid⟩ := List.mem_map.mp (List.mem_of_getElem? hi)
              rw [← hid]
              exact hnew q hq
          mapped_le := by
            rw [hwritten]
            show s.index.segment.mappedRecords ≤ _
            rw [← hcount, hrep.recordCount]
            exact le_trans hrep.mapped_le (Nat.le_add_right _ _)
          mapped := by
            rw [hwritten]
            exact hrep.mapped
          tail := by
            rw [hwritten]
            show (s.index.tail ++ items).map Prod.snd =
              (l.recs ++ items.map Prod.snd).drop s.index.segment.mappedRecords
            rw [List.map_append, hrep.tail, List.drop_append_of_le_length hrep.mapped_le] }
    · intro r w₂ hend₂
      obtain ⟨hstop, hkept⟩ := hend₂
      -- all the bytes are there, but no slot points at them
      have hstop' := Stopped.after hlater₁ ⟨⟨hstop.cause, hstop.commits⟩, hstop.planned⟩
      refine ⟨⟨hstop'.cause, hstop'.commits⟩, bytesOf (items.flatMap (·.2.values)), ?_⟩
      rw [← hlayout, layout_append_bytes, List.nil_append] at hwritten hfits
      exact
        { catalog := by rw [hkept]
          segment := by rw [hwritten]
          dims := hrep.disk.dims
          fits := hfits }
  · intro r w₁ hend₁
    obtain ⟨hhalt, _, part, hpart, hfits⟩ := hend₁
    rw [layout_append_bytes, List.nil_append] at hpart hfits
    refine ⟨⟨hhalt.cause, hhalt.commits⟩, part, ?_⟩
    exact
      { catalog := hrep.disk.catalog
        segment := by rw [hpart]
        dims := hrep.disk.dims
        fits := hfits }

end FlatStore

end EidosDB
