import EidosDB.Storage.FlatCompaction

/-! # Inserts that Fail

    An insert writes the bytes of its records at the end of the segment file
    and commits their slots after that.  When one of these steps fails, what
    was written stays in the file and nothing counts it: the next record is
    appended behind it, and gets the slot it would have had without it.  The
    tail in memory hides the difference until the next checkpoint. -/

namespace EidosDB

open Bytes Effect

/-- The items that an insert appends. -/
def FlatWrite.items : FlatWrite → Option (List (VectorId × Embedding))
  | .insert id embedding => some [(id, embedding)]
  | .insertBatch items => some items
  | .remove _ => none
  | .checkpoint => none

namespace FlatStore

/-! ## Steps -/

/-- The store with more bytes at the end of its segment file. -/
def withTail (self : FlatStore) (part : List Byte) : FlatStore :=
  { self with disk := { self.disk with segment := self.disk.segment.map (· ++ part) } }

/-- The store after items were appended, over any slot table. -/
def extended (self : FlatStore) (slots : OrderedTable VectorId Nat)
    (items : List (VectorId × Embedding)) : FlatStore where
  disk :=
    { catalog := some (.stored
        (manifestOf self.index.metric self.index.dimension (self.index.recordCount + items.length))
        (slots.insertMany (assignSlots self.index.recordCount (items.map Prod.fst))))
      segment := self.disk.segment.map (· ++ bytesOf (items.flatMap (·.2.values))) }
  index := { self.index with
    recordCount := self.index.recordCount + items.length
    liveCount := self.index.liveCount + items.length
    tail := self.index.tail ++ items }

variable {metric : Metric} {dimension : Dimension} {s : FlatStore}

theorem withTail_nil : s.withTail [] = s := by
  obtain ⟨⟨catalog, segment⟩, index⟩ := s
  cases segment <;> simp [withTail]

theorem Sane.withTail (h : s.Sane metric dimension) {part bytes : List Byte}
    (hbytes : s.disk.segment = some bytes) (hlen : bytes.length + part.length ≤ maxFileLen) :
    (s.withTail part).Sane metric dimension where
  metric_eq := h.metric_eq
  dimension_eq := h.dimension_eq
  catalog := h.catalog
  segment := ⟨bytes ++ part, by simp [FlatStore.withTail, hbytes], by rwa [List.length_append]⟩
  segmentDimension := h.segmentDimension
  mmap := by
    intro len hmmap
    have hle := h.mmap len hmmap
    rw [hbytes, Option.getD_some] at hle
    simp only [FlatStore.withTail, hbytes, Option.map_some, Option.getD_some, List.length_append]
    omega
  tail := h.tail

/-- `append` of whole records, with the store before each step. -/
theorem traces_append_states {values : List F32} {bytes : List Byte}
    (hbytes : s.disk.segment = some bytes) (hdim : s.index.segment.dimension ≠ 0)
    (hvalues : values.length % s.index.segment.dimension = 0)
    (hroom : bytes.length + values.length * 4 ≤ maxFileLen) :
    ∃ marks, Traces (onSegment (Segment.append values)) s marks (.ok ())
        (s.withTail (bytesOf values)) ∧
      marks.length = (bytesOf values).length + 1 ∧
      ∀ n mark, marks[n]? = some mark → mark.state = s.withTail ((bytesOf values).take n) := by
  obtain ⟨⟨catalog, segment⟩, index⟩ := s
  obtain rfl : segment = some bytes := hbytes
  exact Segment.traces_append_zoom _ _ rfl hdim hvalues hroom

/-- One commit of the catalog. -/
theorem traces_commit_state {m : Effect StorageError CatalogDb Unit} {db db' : CatalogDb}
    {e : StorageError} (hdb : s.disk.catalog = some db) (h : Traces m db [⟨db, e⟩] (.ok ()) db') :
    Traces (onCatalog m) s [⟨s, e⟩] (.ok ())
      { s with disk := { s.disk with catalog := some db' } } := by
  obtain ⟨⟨catalog, segment⟩, index⟩ := s
  obtain rfl : catalog = some db := hdb
  exact traces_zoom FlatStore.catalog
    (fun db (s : FlatStore) => { s with disk := { s.disk with catalog := some db } })
    (⟨⟨some db, segment⟩, index⟩ : FlatStore) h

/-- Appending items whose bytes fit: before its durable step `n` the store
    has the first `n` of them at the end of its segment file. -/
theorem traces_appendItems (h : s.Sane metric dimension) {bytes : List Byte}
    (hbytes : s.disk.segment = some bytes) {items : List (VectorId × Embedding)}
    (hdims : ∀ p ∈ items, p.2.dimension = dimension.get)
    (hroom : bytes.length + items.length * (dimension.get * 4) ≤ maxFileLen) :
    ∃ marks, Traces (s.appendItems items) s marks (.ok ()) (s.extended s.slotTable items) ∧
      marks.length = (bytesOf (items.flatMap (·.2.values))).length + 2 ∧
      ∀ n mark, marks[n]? = some mark →
        mark.state = s.withTail ((bytesOf (items.flatMap (·.2.values))).take n) := by
  obtain rfl := h.metric_eq
  obtain rfl := h.dimension_eq
  obtain ⟨db, hdb, n₀, slots, rfl⟩ := h.catalog
  have hpos := s.index.dimension.pos
  have hlen := length_flatMap_values hdims
  have hslots : s.slotTable = slots := by
    rw [slotTable, FlatStore.catalog, FlatDisk.catalogDb, hdb]
    rfl
  have hwhole : (items.flatMap (·.2.values)).length % s.index.segment.dimension = 0 := by
    rw [hlen, h.segmentDimension, Nat.mul_mod_left]
  obtain ⟨marks, happend, hcount, hstates⟩ := traces_append_states hbytes
    (by rw [h.segmentDimension]; omega) hwhole (by rw [hlen, Nat.mul_assoc]; exact hroom)
  have hcommit := traces_commit_state (s := s.withTail (bytesOf (items.flatMap (·.2.values)))) hdb
    (Catalog.traces_writeSlots (fun table => table.insertMany
      (assignSlots s.index.recordCount (items.map Prod.fst))) (s.index.recordCount + items.length))
  have htrace : Traces (s.appendItems items) s
      (marks ++ ([⟨s.withTail (bytesOf (items.flatMap (·.2.values))), .commitFailure⟩] ++ []))
      (.ok ()) (s.extended s.slotTable items) := by
    rw [hslots]
    exact traces_bind happend (traces_bind hcommit (traces_modify _ _))
  refine ⟨_, htrace, by simp [hcount], ?_⟩
  intro n mark hmark
  rcases Nat.lt_or_ge n marks.length with hlt | hge
  · rw [List.getElem?_append_left hlt] at hmark
    exact hstates n mark hmark
  · -- the commit comes when all bytes are there
    rw [List.getElem?_append_right hge, List.append_nil] at hmark
    obtain rfl := List.mem_singleton.mp (List.mem_of_getElem? hmark)
    rw [List.take_of_length_le (by omega)]

/-- Appending items whose bytes do not fit. -/
theorem traces_appendItems_full (h : s.Sane metric dimension) {bytes : List Byte}
    (hbytes : s.disk.segment = some bytes) (hmax : bytes.length ≤ maxFileLen)
    {items : List (VectorId × Embedding)} (hdims : ∀ p ∈ items, p.2.dimension = dimension.get)
    (hfull : maxFileLen < bytes.length + items.length * (dimension.get * 4)) :
    ∃ marks part, Traces (s.appendItems items) s marks (.err (.io .fileTooLarge))
        (s.withTail part) ∧
      marks.length ≤ (bytesOf (items.flatMap (·.2.values))).length ∧
      ∀ n mark, marks[n]? = some mark →
        mark.state = s.withTail ((bytesOf (items.flatMap (·.2.values))).take n) := by
  obtain rfl := h.dimension_eq
  have hpos := s.index.dimension.pos
  have hlen := length_flatMap_values hdims
  have hwhole : (items.flatMap (·.2.values)).length % s.index.segment.dimension = 0 := by
    rw [hlen, h.segmentDimension, Nat.mul_mod_left]
  have hdim : s.index.segment.dimension ≠ 0 := by
    rw [h.segmentDimension]
    omega
  have hfull' : maxFileLen < bytes.length + (items.flatMap (·.2.values)).length * 4 := by
    rw [hlen, Nat.mul_assoc]
    exact hfull
  obtain ⟨⟨catalog, segment⟩, index⟩ := s
  obtain rfl : segment = some bytes := hbytes
  obtain ⟨marks, part, happend, hcount, hstates⟩ := Segment.traces_append_full_zoom
    (fun s : FlatStore => (s.disk.segment, s.index.segment))
    (fun p s => { disk := { s.disk with segment := p.1 }, index := { s.index with segment := p.2 } })
    (t := ⟨⟨catalog, some bytes⟩, index⟩) rfl hdim hwhole hmax hfull'
  exact ⟨marks, part, traces_bind_err happend, hcount, hstates⟩

/-- An insert does nothing, or has validated its items and appends them. -/
structure Appends (s : FlatStore) (c : FlatWrite) (items : List (VectorId × Embedding)) :
    Prop where
  nonempty : items ≠ []
  dims : ∀ p ∈ items, p.2.dimension = s.index.dimension.get
  fresh : ∀ p ∈ items, s.slotTable.get p.1 = none
  same : ∀ w, w.state = s →
    write c w = (do
      s.appendItems items
      pure .done : Effect StorageError FlatStore FlatAnswer) w

theorem contains_stored {manifest : Manifest} {slots : OrderedTable VectorId Nat}
    (hcatalog : s.catalog = .stored manifest slots) (id : VectorId) :
    s.catalog.contains id = .ok (s.slotTable.get id).isSome := by
  rw [slotTable, hcatalog]
  rfl

theorem fresh_of_validateItems {manifest : Manifest} {slots : OrderedTable VectorId Nat}
    (hcatalog : s.catalog = .stored manifest slots) {seen : List VectorId}
    {items : List (VectorId × Embedding)} (h : s.validateItems seen items = .ok ()) :
    ∀ p ∈ items, s.slotTable.get p.1 = none := by
  induction items generalizing seen with
  | nil => simp
  | cons p rest ih =>
    obtain ⟨id, e⟩ := p
    rw [validateItems, contains_stored hcatalog] at h
    split at h
    · cases h
    · split at h
      · cases h
      · simp only [Bind.bind, Except.bind] at h
        split at h
        · cases h
        · rename_i hnew
          intro q hq
          rcases List.mem_cons.mp hq with rfl | hq
          · simpa using hnew
          · exact ih h q hq

/-- A valid item is appended. -/
theorem insert_fresh (h : s.Sane metric dimension) {id : VectorId} {e : Embedding}
    (hdim : e.dimension = s.index.dimension.get) (hid : s.slotTable.get id = none)
    {w : World FlatStore} (hw : w.state = s) : insert id e w = s.appendItems [(id, e)] w := by
  obtain ⟨db, hdb, n₀, slots, rfl⟩ := h.catalog
  have hcatalog : s.catalog = .stored (manifestOf metric dimension n₀) slots := by
    rw [FlatStore.catalog, FlatDisk.catalogDb, hdb, Option.getD_some]
  rw [insert_eq, bind_apply, get_apply]
  dsimp only
  rw [hw, if_neg (not_not.mpr hdim), contains_stored hcatalog, hid]
  rfl

theorem appends_insert (h : s.Sane metric dimension) {id : VectorId} {e : Embedding}
    (hdim : e.dimension = s.index.dimension.get) (hid : s.slotTable.get id = none) :
    s.Appends (.insert id e) [(id, e)] := by
  refine ⟨by simp, by simpa using hdim, by simpa using hid, ?_⟩
  intro w hw
  have hrun := insert_fresh h hdim hid hw
  show (insert id e >>= fun _ => pure FlatAnswer.done) w =
    (s.appendItems [(id, e)] >>= fun _ => pure FlatAnswer.done) w
  rw [bind_apply, bind_apply, hrun]

theorem insert_cases (h : s.Sane metric dimension) {c : FlatWrite}
    {items : List (VectorId × Embedding)} (hitems : c.items = some items) :
    (∃ o, Traces (write c) s [] o s) ∨ s.Appends c items := by
  obtain ⟨db, hdb, n₀, slots, rfl⟩ := h.catalog
  have hcatalog : s.catalog = .stored (manifestOf metric dimension n₀) slots := by
    rw [FlatStore.catalog, FlatDisk.catalogDb, hdb, Option.getD_some]
  cases c with
  | insert id e =>
    obtain rfl : [(id, e)] = items := Option.some.inj hitems
    by_cases hdim : e.dimension = s.index.dimension.get
    · cases hid : s.slotTable.get id with
      | some slot =>
        refine Or.inl ⟨_, traces_bind_err (e := .index (.duplicateId id)) ?_⟩
        rw [insert_eq]
        apply traces_next (traces_get _)
        rw [if_neg (not_not.mpr hdim), contains_stored hcatalog, hid]
        exact traces_next (traces_pure _ _) (traces_throw _ _)
      | none => exact Or.inr (appends_insert h hdim hid)
    · refine Or.inl ⟨_, traces_bind_err (e := .index (.dimensionMismatch s.index.dimension.get
        e.dimension)) ?_⟩
      rw [insert_eq]
      apply traces_next (traces_get _)
      rw [if_pos hdim]
      exact traces_throw _ _
  | insertBatch batch =>
    obtain rfl : batch = items := Option.some.inj hitems
    by_cases hempty : batch.isEmpty = true
    · refine Or.inl ⟨.ok .done, ?_⟩
      show Traces (insertBatch batch >>= fun _ => pure FlatAnswer.done) s [] _ s
      rw [insertBatch_eq, if_pos hempty]
      exact traces_next (traces_pure _ _) (traces_pure _ _)
    · cases hvalid : s.validateItems [] batch with
      | error e =>
        refine Or.inl ⟨_, traces_bind_err (e := e) ?_⟩
        rw [insertBatch_eq, if_neg hempty]
        apply traces_next (traces_get _)
        rw [hvalid]
        exact traces_bind_err (traces_throw _ _)
      | ok u =>
        refine Or.inr ⟨by simpa using hempty, dims_of_validateItems hvalid,
          fresh_of_validateItems hcatalog hvalid, ?_⟩
        intro w hw
        have hrun : insertBatch batch w = s.appendItems batch w := by
          rw [insertBatch_eq, if_neg hempty, bind_apply, get_apply]
          dsimp only
          rw [hw, hvalid]
          rfl
        show (insertBatch batch >>= fun _ => pure FlatAnswer.done) w =
          (s.appendItems batch >>= fun _ => pure FlatAnswer.done) w
        rw [bind_apply, bind_apply, hrun]
  | remove id => cases hitems
  | checkpoint => cases hitems

/-- **What a failed insert leaves.**  The step that failed was number `n`: the
    items were valid, and the store has the first `n` of their bytes at the
    end of its segment file, and is otherwise as it was. -/
theorem failed_insert (h : s.Sane metric dimension) {c : FlatWrite}
    {items : List (VectorId × Embedding)} (hitems : c.items = some items) {n : Nat}
    (hfailed : (write c (World.start s (.stop n .fail))).2.plan = .none) :
    s.Appends c items ∧ (write c (World.start s (.stop n .fail))).2.state =
      s.withTail ((bytesOf (items.flatMap (·.2.values))).take n) := by
  rcases insert_cases h hitems with ⟨o, htrace⟩ | happends
  · obtain ⟨mark, hmark, -⟩ := htrace.spent hfailed
    simp at hmark
  · refine ⟨happends, ?_⟩
    obtain ⟨bytes, hbytes, hmax⟩ := h.segment
    have hdims := happends.dims
    rw [h.dimension_eq] at hdims
    rw [happends.same _ rfl] at hfailed ⊢
    rcases Nat.lt_or_ge maxFileLen (bytes.length + items.length * (dimension.get * 4)) with
      hfull | hroom
    · obtain ⟨marks, part, htrace, -, hstates⟩ := traces_appendItems_full h hbytes hmax hdims hfull
      obtain ⟨mark, hmark, hstate⟩ := (traces_bind_err htrace).spent hfailed
      rw [hstate, hstates n mark hmark]
    · obtain ⟨marks, htrace, -, hstates⟩ := traces_appendItems h hbytes hdims hroom
      have hall : Traces (do
          s.appendItems items
          pure FlatAnswer.done) s (marks ++ []) (.ok .done) (s.extended s.slotTable items) :=
        traces_bind htrace (traces_pure _ _)
      rw [List.append_nil] at hall
      obtain ⟨mark, hmark, hstate⟩ := hall.spent hfailed
      rw [hstate, hstates n mark hmark]

/-! ## Later runs -/

/-- Nothing tells the stores apart: their lengths, the vectors they read, and
    all searches, in any arithmetic. -/
structure Alike (s t : FlatStore) : Prop where
  len : s.len = t.len
  values : ∀ id, s.valuesOf id = t.valuesOf id
  searches : ∀ ops query k queryMetric isAdmissible,
    s.searchFiltered ops query k queryMetric isAdmissible =
      t.searchFiltered ops query k queryMetric isAdmissible

/-- Every later run of calls answers alike and ends in stores that are
    alike. -/
def SameLater (s t : FlatStore) : Prop :=
  ∀ calls, Option.Rel (fun r r' => r.1 = r'.1 ∧ Alike r.2 r'.2)
    (FlatStore.answers calls s) (FlatStore.answers calls t)

theorem Alike.refl (s : FlatStore) : Alike s s := ⟨rfl, fun _ => rfl, fun _ _ _ _ _ => rfl⟩

theorem SameLater.refl (s : FlatStore) : SameLater s s := by
  intro calls
  cases FlatStore.answers calls s with
  | none => exact .none
  | some r => exact .some ⟨rfl, Alike.refl r.2⟩

/-- The segment file ends at the watermark: nothing was left behind the last
    record. -/
def EndsAtWatermark (s : FlatStore) : Prop :=
  (s.disk.segment.getD []).length =
    headerLen + s.index.recordCount * (s.index.dimension.get * 4)

/-- A store that no step failed in ends at its watermark. -/
theorem endsAtWatermark_of_rep {l : Ledger} (h : Rep metric dimension l s) :
    s.EndsAtWatermark := by
  have hlen := length_layout metric [] h.disk.uniform
  rw [List.length_nil, List.length_map, Nat.add_zero] at hlen
  rw [EndsAtWatermark, h.disk.segment, Option.getD_some, hlen, h.recordCount, h.dimension_eq]

/-! ## The record behind the bytes left over -/

theorem answer_of_traces {c : FlatCall} {marks : List (Mark StorageError FlatStore)}
    {a : FlatAnswer} {s' : FlatStore} (h : Traces (FlatStore.call c) s marks (.ok a) s') :
    s.answer c = some (.ok a, s') := by
  obtain ⟨hok, hstate⟩ := h.undisturbed
  unfold FlatStore.answer
  generalize FlatStore.call c (World.start s .none) = r at hok hstate
  obtain ⟨o, w⟩ := r
  cases hok
  cases hstate
  rfl

/-- The store after a checkpoint over a segment file of so many bytes. -/
def checkpointed (self : FlatStore) (len : Nat) : FlatStore :=
  { self with index := { self.index with
    segment := { self.index.segment with
      mmap := some len, mappedRecords := self.index.recordCount }
    tail := [] } }

theorem traces_checkpoint (hdim : s.index.segment.dimension = dimension.get) {bytes : List Byte}
    (hbytes : s.disk.segment = some bytes)
    (hneeded : headerLen + s.index.recordCount * (dimension.get * 4) ≤ bytes.length) :
    ∃ marks, Traces (FlatStore.call (.write .checkpoint)) s marks (.ok .done)
      (s.checkpointed bytes.length) := by
  obtain ⟨⟨catalog, segment⟩, index⟩ := s
  obtain rfl : segment = some bytes := hbytes
  have hremap := @Segment.traces_remap index.recordCount bytes index.segment (by
    rw [Segment.stride, hdim]
    exact le_trans (Nat.mod_le _ _) hneeded)
  obtain ⟨marks, htrace, -⟩ := traces_onSegment (s := ⟨⟨catalog, some bytes⟩, index⟩) hremap
  have hcheckpoint : Traces checkpoint ⟨⟨catalog, some bytes⟩, index⟩ (marks ++ []) (.ok ())
      (checkpointed ⟨⟨catalog, some bytes⟩, index⟩ bytes.length) :=
    traces_next (traces_get _) (traces_bind htrace (traces_modify _ _))
  exact ⟨_, traces_bind hcheckpoint (traces_pure _ _)⟩

/-- An insert over bytes left behind, and a checkpoint: the record that is
    read begins with those bytes. -/
theorem retried (h : s.Sane metric dimension) (hclean : s.EndsAtWatermark) {bytes part : List Byte}
    (hbytes : s.disk.segment = some bytes) {id : VectorId} {e : Embedding}
    (hid : s.slotTable.get id = none) (he : e.dimension = dimension.get)
    (hroom : bytes.length + part.length + dimension.get * 4 ≤ maxFileLen) :
    ∃ t, FlatStore.answers [.write (.insert id e), .write .checkpoint] (s.withTail part) =
        some ([.ok .done, .ok .done], t) ∧
      t.valuesOf id = .ok (some (floatsOf ((part ++ bytesOf e.values).take (dimension.get * 4)))) := by
  obtain rfl := h.dimension_eq
  have hlen : (bytesOf e.values).length = s.index.dimension.get * 4 := by
    rw [length_bytesOf]
    exact congrArg (· * 4) he
  have hstart : bytes.length = headerLen + s.index.recordCount * (s.index.dimension.get * 4) := by
    rw [← hclean, hbytes, Option.getD_some]
  have hwith := h.withTail hbytes (by omega : bytes.length + part.length ≤ maxFileLen)
  have hpart : (s.withTail part).disk.segment = some (bytes ++ part) := by
    simp [withTail, hbytes]
  -- the record is appended behind the bytes
  obtain ⟨marks, happend, -⟩ := @traces_appendItems _ _ _ hwith _ hpart [(id, e)]
    (by simpa using he) (by rw [List.length_append, List.length_singleton]; omega)
  have hinsert : Traces (FlatStore.call (.write (.insert id e))) (s.withTail part) (marks ++ [])
      (.ok .done) ((s.withTail part).extended (s.withTail part).slotTable [(id, e)]) :=
    traces_congr (appends_insert hwith he hid).same (traces_bind happend (traces_pure _ _))
  generalize hs₁ : (s.withTail part).extended (s.withTail part).slotTable [(id, e)] = s₁ at hinsert
  have hbytes₁ : s₁.disk.segment = some (bytes ++ (part ++ bytesOf e.values)) := by
    rw [← hs₁, ← List.append_assoc]
    simp [extended, hpart]
  have hcount₁ : s₁.index.recordCount = s.index.recordCount + 1 := by
    rw [← hs₁]
    rfl
  have hdim₁ : s₁.index.segment.dimension = s.index.dimension.get := by
    rw [← hs₁]
    exact h.segmentDimension
  have hslot₁ : ∃ manifest slots, s₁.catalog = .stored manifest slots ∧
      slots.get id = some s.index.recordCount := by
    rw [← hs₁]
    refine ⟨_, _, rfl, OrderedTable.get_insertMany_of_mem _ _ _ _ ?_ ?_⟩
    · simp [assignSlots, withTail]
    · simp [assignSlots, withTail]
  obtain ⟨marks', hcheckpoint⟩ := traces_checkpoint hdim₁ hbytes₁ (by
    rw [hcount₁, List.length_append, List.length_append, hlen, Nat.succ_mul]
    omega)
  refine ⟨s₁.checkpointed (bytes ++ (part ++ bytesOf e.values)).length, ?_, ?_⟩
  · rw [FlatStore.answers, answer_of_traces hinsert]
    dsimp only
    rw [FlatStore.answers, answer_of_traces hcheckpoint]
    rfl
  · obtain ⟨manifest, slots, hcatalog, hget⟩ := hslot₁
    have hstored : (s₁.checkpointed (bytes ++ (part ++ bytesOf e.values)).length).catalog =
      .stored manifest slots := hcatalog
    have hslot : s.index.recordCount < s₁.index.recordCount := by omega
    have hrecord := @Segment.record_eq
      (s₁.checkpointed (bytes ++ (part ++ bytesOf e.values)).length).index.segment _ _
      s.index.recordCount (bytes ++ (part ++ bytesOf e.values)) hdim₁ rfl hslot
      (by rw [← hstart]; omega) (by rw [← hstart, List.length_append, List.length_append]; omega)
    rw [← hstart, List.drop_left, ← hbytes₁] at hrecord
    have hvalues : (s₁.checkpointed (bytes ++ (part ++ bytesOf e.values)).length).valuesAtStorage
        s.index.recordCount
        (s₁.checkpointed (bytes ++ (part ++ bytesOf e.values)).length).index.segment.mappedRecords =
        .ok (floatsOf ((part ++ bytesOf e.values).take (s.index.dimension.get * 4))) :=
      (valuesAt_opened rfl).mpr hrecord
    rw [valuesOf_stored hstored, hget]
    dsimp only
    rw [hvalues]
    rfl

/-- **When a failed insert has no effect.**  In every history, an insert or a
    batch whose durable step `n` fails has no effect on any later run if no
    byte had been written.  If one had, on a store that ends at its
    watermark, a later run tells the difference, as long as the file system
    has room for one more record. -/
theorem failed_insert_harmless (events : List DirEvent) (s : FlatStore) (c : FlatWrite)
    (items : List (VectorId × Embedding)) (n : Nat)
    (hreached : FlatProcess.after events = .up s) (hitems : c.items = some items)
    (hfailed : (write c (World.start s (.stop n .fail))).2.plan = .none) :
    (n = 0 → SameLater s (write c (World.start s (.stop n .fail))).2.state) ∧
    (n ≠ 0 → s.EndsAtWatermark →
      (s.disk.segment.getD []).length + n + s.index.dimension.get * 4 ≤ maxFileLen →
      ¬ SameLater s (write c (World.start s (.stop n .fail))).2.state) := by
  have h : s.Sane s.index.metric s.index.dimension := by
    have hsound := FlatProcess.sound_after events
    rw [hreached] at hsound
    exact hsound
  obtain ⟨happends, hstate⟩ := failed_insert h hitems hfailed
  rw [hstate]
  constructor
  · intro hzero
    rw [hzero, List.take_zero, withTail_nil]
    exact SameLater.refl s
  · intro hsome hclean hroom hsame
    obtain ⟨bytes, hbytes, -⟩ := h.segment
    rw [hbytes, Option.getD_some] at hroom
    obtain ⟨⟨id, e⟩, rest, rfl⟩ := List.exists_cons_of_ne_nil happends.nonempty
    obtain ⟨hdim, -⟩ := List.forall_mem_cons.mp happends.dims
    obtain ⟨hid, -⟩ := List.forall_mem_cons.mp happends.fresh
    generalize hpart : (bytesOf (((id, e) :: rest).flatMap (·.2.values))).take n = part at hsame
    have hlen : part.length ≤ n := by
      rw [← hpart, List.length_take]
      omega
    have hnonempty : part ≠ [] := by
      intro hnil
      rw [hnil] at hpart
      have hzero := congrArg List.length hpart
      have hpos := s.index.dimension.pos
      have hlong : e.values.length = s.index.dimension.get := hdim
      rw [List.length_take, length_bytesOf, List.flatMap_cons, List.length_append,
        List.length_nil] at hzero
      dsimp only at hzero
      omega
    -- the same insert over the bytes left behind, and over nothing
    obtain ⟨e', he', hother⟩ := exists_unlike s.index.dimension hnonempty
    obtain ⟨t, hrun, hvalues⟩ := @retried _ _ s h hclean bytes part hbytes id e' hid he' (by omega)
    obtain ⟨t₀, hrun₀, hvalues₀⟩ :=
      @retried _ _ s h hclean bytes [] hbytes id e' hid he' (by rw [List.length_nil]; omega)
    rw [withTail_nil] at hrun₀
    have hrel := hsame [.write (.insert id e'), .write .checkpoint]
    rw [hrun, hrun₀] at hrel
    obtain ⟨-, halike⟩ := Option.rel_some_some.mp hrel
    have heq := halike.values id
    rw [hvalues, hvalues₀, List.nil_append, List.take_of_length_le (by
      rw [length_bytesOf, ← he']
      exact le_rfl), floatsOf_bytesOf] at heq
    exact hother (by simpa using heq.symm)

/-- One insert. -/
def oneEvents : List DirEvent :=
  [ .openDir .dotProduct .one .none,
    .write (.insert ⟨1⟩ (.single (F32.ofInt 3) (.refl true))) .none ]

/-- An insert of one value, of four bytes. -/
def five : FlatWrite := .insert ⟨2⟩ (.single (F32.ofInt 5) (.refl true))

theorem failed_insert_harmless_five : ∃ s, FlatProcess.after oneEvents = .up s ∧
    ((3 = 0 → SameLater s (write five (World.start s (.stop 3 .fail))).2.state) ∧
    (3 ≠ 0 → s.EndsAtWatermark →
      (s.disk.segment.getD []).length + 3 + s.index.dimension.get * 4 ≤ maxFileLen →
      ¬ SameLater s (write five (World.start s (.stop 3 .fail))).2.state)) := by
  obtain ⟨s, hs⟩ := FlatProcess.exists_running (p := FlatProcess.after oneEvents) (by decide +kernel)
  have hfailed : (FlatProcess.after oneEvents).running.map (fun s =>
      decide ((write five (World.start s (.stop 3 .fail))).2.plan = .none)) = some true := by
    decide +kernel
  rw [hs] at hfailed
  exact ⟨s, hs, failed_insert_harmless oneEvents s five _ 3 hs rfl
    (by simpa [FlatProcess.running] using hfailed)⟩

/-- The vector that is read for an id after some calls. -/
def readAfter (self : FlatStore) (calls : List FlatCall) (id : VectorId) :
    Option (Option (List F32)) :=
  (FlatStore.answers calls self).bind (fun r => (r.2.valuesOf id).toOption)

theorem not_sameLater_of_readAfter {t : FlatStore} {calls : List FlatCall} {id : VectorId}
    (h : s.readAfter calls id ≠ t.readAfter calls id) : ¬ SameLater s t := by
  intro hsame
  have hrel := hsame calls
  unfold readAfter at h
  cases hs : FlatStore.answers calls s with
  | none =>
    cases ht : FlatStore.answers calls t with
    | none => exact h (by rw [hs, ht])
    | some r => rw [hs, ht] at hrel; cases hrel
  | some r =>
    cases ht : FlatStore.answers calls t with
    | none => rw [hs, ht] at hrel; cases hrel
    | some r' =>
      rw [hs, ht] at hrel h
      obtain ⟨-, halike⟩ := Option.rel_some_some.mp hrel
      exact h (congrArg Except.toOption (halike.values id))

/-- The insert fails when three bytes were written; it is repeated, and after a
    checkpoint another vector is read. -/
theorem not_failed_insert_harmless : ∃ s, FlatProcess.after oneEvents = .up s ∧
    (write five (World.start s (.stop 3 .fail))).1 = .err (.io .other) ∧
    ¬ SameLater s (write five (World.start s (.stop 3 .fail))).2.state := by
  obtain ⟨s, hs⟩ := FlatProcess.exists_running (p := FlatProcess.after oneEvents) (by decide +kernel)
  have hrun : (FlatProcess.after oneEvents).running.map (fun s =>
      (decide ((write five (World.start s (.stop 3 .fail))).1 = .err (.io .other)),
        decide (s.readAfter [.write five, .write .checkpoint] ⟨2⟩ ≠
          (write five (World.start s (.stop 3 .fail))).2.state.readAfter
            [.write five, .write .checkpoint] ⟨2⟩))) = some (true, true) := by
    decide +kernel
  rw [hs] at hrun
  simp only [FlatProcess.running, Option.map_some, Option.some.injEq, Prod.mk.injEq,
    decide_eq_true_eq] at hrun
  exact ⟨s, hs, hrun.1, not_sameLater_of_readAfter hrun.2⟩

end FlatStore

end EidosDB
