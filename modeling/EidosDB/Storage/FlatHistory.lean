import EidosDB.Storage.FlatCreation

/-! # Histories of a Flat Directory

    Everything that can happen to one directory: processes open it, call the
    store, and die, and any durable step of an opening or of a call may be
    the last one before a crash or may fail.  A store that lives through a
    failed step goes on with what the step left behind, so its files need not
    be those of a ledger.  What remains true of every store is weaker: the
    catalog names its parameters, there is a segment file, and the memory map
    does not reach past it. -/

namespace EidosDB

open Bytes Effect

/-! ## Histories -/

inductive DirEvent where
  /-- The directory is opened, under a plan. -/
  | openDir (metric : Metric) (dimension : Dimension) (plan : Plan)
  /-- The running process makes a call, under a plan. -/
  | write (c : FlatWrite) (plan : Plan)
  | compact (plan : Plan)
  /-- A snapshot is taken into a new directory, under a plan, and the history
      goes on there. -/
  | copy (plan : Plan)
  /-- The process ends between two calls. -/
  | kill

/-- What a call leaves of the process that makes it. -/
def FlatProcess.left {α : Type} : Outcome StorageError α × World FlatStore → FlatProcess
  | (.ok _, w) => .up w.state
  | (.err _, w) => .up w.state
  | (.crashed, w) => .down w.state.disk
  | (.panicked, w) => .down w.state.disk

/-- One event; an event that does not fit the process changes nothing. -/
def FlatProcess.next (p : FlatProcess) (event : DirEvent) : FlatProcess :=
  match event, p with
  | .openDir metric dimension plan, .down disk =>
    match FlatDisk.openAt metric dimension (World.start disk plan) with
    | (.ok index, w) => .up ⟨w.state, index⟩
    | (_, w) => .down w.state
  | .write c plan, .up s => FlatProcess.left (FlatStore.write c (World.start s plan))
  | .compact plan, .up s => FlatProcess.left (FlatStore.compact (World.start s plan))
  | .copy plan, .up s =>
    .down (FlatStore.snapshot (World.start (s, FlatDisk.empty) plan)).2.state.2
  | .kill, .up s => .down s.disk
  | _, p => p

/-- The store of a running process. -/
def FlatProcess.running : FlatProcess → Option FlatStore
  | .up s => some s
  | .down _ => none
  | .broken => none

theorem FlatProcess.exists_running {p : FlatProcess} (h : p.running.isSome = true) :
    ∃ s, p = .up s := by
  cases p with
  | up s => exact ⟨s, rfl⟩
  | down disk => cases h
  | broken => cases h

/-- What a history makes of an empty directory. -/
def FlatProcess.after (events : List DirEvent) : FlatProcess :=
  events.foldl FlatProcess.next (.down .empty)

/-! ## What every history leaves -/

/-- The catalog names the parameters of the store. -/
def Named (metric : Metric) (dimension : Dimension) (db : CatalogDb) : Prop :=
  ∃ n slots, db = .stored (manifestOf metric dimension n) slots

/-- The files a directory can hold. -/
structure FlatDisk.Possible (disk : FlatDisk) : Prop where
  catalog : disk.catalog = none ∨ disk.catalog = some .fresh ∨
    ∃ metric dimension db, disk.catalog = some db ∧ Named metric dimension db
  segment : Segment.Bounded disk.segment

/-- What is true of every open store. -/
structure FlatStore.Sane (metric : Metric) (dimension : Dimension) (s : FlatStore) : Prop where
  metric_eq : s.index.metric = metric
  dimension_eq : s.index.dimension = dimension
  catalog : ∃ db, s.disk.catalog = some db ∧ Named metric dimension db
  segment : ∃ bytes, s.disk.segment = some bytes ∧ bytes.length ≤ maxFileLen
  segmentDimension : s.index.segment.dimension = dimension.get
  mmap : ∀ len, s.index.segment.mmap = some len → len ≤ (s.disk.segment.getD []).length
  tail : ∀ item ∈ s.index.tail, item.2.dimension = dimension.get

variable {metric : Metric} {dimension : Dimension}

theorem FlatStore.Sane.bounded {s : FlatStore} (h : s.Sane metric dimension) :
    Segment.Bounded s.disk.segment := by
  obtain ⟨bytes, hbytes, hlen⟩ := h.segment
  intro bytes' hbytes'
  rw [hbytes] at hbytes'
  obtain rfl := Option.some.inj hbytes'
  exact hlen

theorem FlatStore.Sane.possible {s : FlatStore} (h : s.Sane metric dimension) :
    s.disk.Possible := by
  obtain ⟨db, hcatalog, hnamed⟩ := h.catalog
  exact ⟨Or.inr (Or.inr ⟨metric, dimension, db, hcatalog, hnamed⟩), h.bounded⟩

/-! ## Opening -/

/-- What an opening ends with and where it can be stopped. -/
structure FlatDisk.Opened (metric : Metric) (dimension : Dimension) (disk : FlatDisk)
    (marks : List (Mark StorageError FlatDisk)) (o : Outcome StorageError PersistentFlatIndex)
    (disk' : FlatDisk) : Prop where
  traces : Traces (FlatDisk.openAt metric dimension) disk marks o disk'
  marks : ∀ mark ∈ marks, mark.state.Possible
  last : disk'.Possible
  sane : ∀ index, o = .ok index → FlatStore.Sane metric dimension ⟨disk', index⟩

namespace FlatDisk

theorem possible_named {db : CatalogDb} (hnamed : Named metric dimension db) {file : File}
    (hfile : Segment.Bounded file) : Possible { catalog := some db, segment := file } :=
  ⟨Or.inr (Or.inr ⟨metric, dimension, db, rfl, hnamed⟩), hfile⟩

theorem named_emptyCatalog (metric : Metric) (dimension : Dimension) :
    Named metric dimension (emptyCatalog metric dimension) := ⟨0, .empty, rfl⟩

theorem opened_empty (metric : Metric) (dimension : Dimension) :
    ∃ marks o disk', Opened metric dimension empty marks o disk' := by
  have hnamed := named_emptyCatalog metric dimension
  have hlen := Segment.length_headerOf metric dimension
  have hshort : ∀ bytes : List Byte, bytes.length ≤ headerLen → Segment.Bounded (some bytes) := by
    intro bytes hle bytes' hbytes
    obtain rfl := Option.some.inj hbytes
    exact le_trans hle (by decide)
  refine ⟨_, _, _, ⟨traces_openAt_empty metric dimension, ?_,
    possible_named hnamed (hshort _ (le_of_eq hlen)), ?_⟩⟩
  · intro mark hmark
    rcases List.mem_append.mp hmark with hmark | hmark
    · simp only [List.mem_cons, List.not_mem_nil, or_false] at hmark
      rcases hmark with rfl | rfl | rfl | rfl
      · exact ⟨Or.inl rfl, Segment.bounded_none⟩
      · exact ⟨Or.inl rfl, Segment.bounded_none⟩
      · exact ⟨Or.inr (Or.inl rfl), Segment.bounded_none⟩
      · exact possible_named hnamed Segment.bounded_none
    · obtain ⟨mark', hmark', rfl⟩ := List.mem_map.mp hmark
      rcases List.mem_append.mp hmark' with hbyte | hsync
      · obtain ⟨i, -, rfl⟩ := List.mem_map.mp hbyte
        apply possible_named hnamed
        apply hshort
        rw [List.nil_append, List.length_take]
        omega
      · simp only [List.mem_cons, List.not_mem_nil, or_false, or_self] at hsync
        obtain rfl := hsync
        exact possible_named hnamed (hshort _ (le_of_eq hlen))
  · intro index hok
    obtain rfl : createdIndex metric dimension = index := by simpa using hok
    exact
      { metric_eq := rfl
        dimension_eq := rfl
        catalog := ⟨_, rfl, hnamed⟩
        segment := ⟨_, rfl, hshort _ (le_of_eq hlen) _ rfl⟩
        segmentDimension := rfl
        mmap := by
          intro len hlen'
          obtain rfl : headerLen = len := by simpa [createdIndex] using hlen'
          exact le_of_eq hlen.symm
        tail := by simp [createdIndex] }

/-- A segment file that is there already keeps a store from being made. -/
theorem opened_orphan (metric : Metric) (dimension : Dimension) {bytes : List Byte}
    (hbytes : Segment.Bounded (some bytes)) :
    ∃ marks o disk', Opened metric dimension { catalog := none, segment := some bytes }
      marks o disk' := by
  have hcatalog := traces_onCatalogFile { catalog := none, segment := some bytes }
    (Catalog.traces_create (manifestOf metric dimension 0))
  have hcreate : Traces (Segment.create metric dimension.get) (some bytes) []
      (.err (.io .alreadyExists)) (some bytes) := by
    unfold Segment.create File.createNew
    apply traces_bind_err
    exact traces_next (traces_get _) (traces_throw _ _)
  have htrace : Traces (openAt metric dimension) { catalog := none, segment := some bytes }
      [⟨{ catalog := none, segment := some bytes }, .ioFailure⟩,
        ⟨{ catalog := none, segment := some bytes }, .commitFailure⟩,
        ⟨{ catalog := some .fresh, segment := some bytes }, .commitFailure⟩]
      (.err (.io .alreadyExists))
      { catalog := some (emptyCatalog metric dimension), segment := some bytes } := by
    unfold openAt
    apply traces_bind (traces_createDirAll _)
    apply traces_next (traces_get _)
    show Traces (openNew metric dimension) { catalog := none, segment := some bytes } _ _ _
    unfold openNew
    rw [tryU32_of_lt dimension.lt]
    apply traces_next (traces_pure _ _)
    apply traces_bind hcatalog
    apply traces_bind_err
    exact traces_onSegmentFile
      { catalog := some (emptyCatalog metric dimension), segment := some bytes } hcreate
  refine ⟨_, _, _, ⟨htrace, ?_, possible_named (named_emptyCatalog metric dimension) hbytes,
    by simp⟩⟩
  intro mark hmark
  simp only [List.mem_cons, List.not_mem_nil, or_false] at hmark
  rcases hmark with rfl | rfl | rfl
  · exact ⟨Or.inl rfl, hbytes⟩
  · exact ⟨Or.inl rfl, hbytes⟩
  · exact ⟨Or.inr (Or.inl rfl), hbytes⟩

theorem opened_fresh (metric : Metric) (dimension : Dimension) {file : File}
    (hfile : Segment.Bounded file) :
    ∃ marks o disk', Opened metric dimension { catalog := some .fresh, segment := file }
      marks o disk' := by
  have hpossible : Possible { catalog := some .fresh, segment := file } :=
    ⟨Or.inr (Or.inl rfl), hfile⟩
  refine ⟨_, _, _, ⟨traces_openAt_fresh metric dimension file, ?_, hpossible, by simp⟩⟩
  intro mark hmark
  obtain rfl := List.mem_singleton.mp hmark
  exact hpossible

/-- A directory that another store was made in is refused. -/
theorem traces_openAt_differ {disk : FlatDisk} {stored : Metric} {width : Dimension} {n : Nat}
    {slots : OrderedTable VectorId Nat}
    (hcatalog : disk.catalog = some (.stored (manifestOf stored width n) slots))
    (hdiffer : width.u32 ≠ dimension.u32 ∨ stored ≠ metric) :
    Traces (openAt metric dimension) disk [⟨disk, .ioFailure⟩]
      (.err (.formatMismatch "open parameters differ from stored manifest")) disk := by
  have hstored : Traces Catalog.openAt disk.catalog []
      (.ok (manifestOf stored width n)) disk.catalog := by
    rw [hcatalog]
    exact traces_catalogOpenAt
  have hfile : Traces (onCatalogFile Catalog.openAt) disk []
      (.ok (manifestOf stored width n)) disk := traces_onCatalogFile disk hstored
  unfold openAt
  apply traces_bind (traces_createDirAll disk)
  apply traces_next (traces_get _)
  rw [hcatalog]
  show Traces (openExisting metric dimension) disk _ _ disk
  unfold openExisting
  apply traces_next hfile
  rw [if_neg (by simp [manifestOf]), tryU32_of_lt dimension.lt]
  apply traces_next (traces_pure _ _)
  rw [if_pos (by simpa [manifestOf, Dimension.u32] using hdiffer)]
  exact traces_throw _ _

theorem opened_named {disk : FlatDisk} {db : CatalogDb} {stored : Metric} {width : Dimension}
    (hcatalog : disk.catalog = some db) (hnamed : Named stored width db)
    (hsegment : Segment.Bounded disk.segment) :
    ∃ marks o disk', Opened metric dimension disk marks o disk' := by
  have hsame : ∀ file, Segment.Bounded file →
      Possible { catalog := disk.catalog, segment := file } :=
    fun file hfile => ⟨Or.inr (Or.inr ⟨stored, width, db, hcatalog, hnamed⟩), hfile⟩
  obtain ⟨n, slots, rfl⟩ := hnamed
  by_cases hdiffer : width.u32 ≠ dimension.u32 ∨ stored ≠ metric
  · refine ⟨_, _, _, ⟨traces_openAt_differ hcatalog hdiffer, ?_, hsame _ hsegment, by simp⟩⟩
    intro mark hmark
    obtain rfl := List.mem_singleton.mp hmark
    exact hsame _ hsegment
  · obtain ⟨hwidth, hmetric⟩ := not_or.mp hdiffer
    obtain rfl := not_not.mp hmetric
    obtain rfl : width = dimension := by
      have hval := congrArg Fin.val (not_not.mp hwidth)
      cases width
      cases dimension
      simpa [Dimension.u32] using hval
    obtain ⟨marks, o, file, htrace, hmarks, hfile, hend⟩ :=
      Segment.traces_openAt_any stored width.get (wrap64 n).val hsegment
    have hall : ∀ mark ∈ (⟨disk, .ioFailure⟩ :: marks.map (segmentMark disk) :
        List (Mark StorageError FlatDisk)), mark.state.Possible := by
      intro mark hmark
      rcases List.mem_cons.mp hmark with rfl | hmark
      · exact hsame _ hsegment
      · obtain ⟨mark', hmark', rfl⟩ := List.mem_map.mp hmark
        exact hsame _ (hmarks mark' hmark')
    rcases hend with ⟨e, rfl⟩ | ⟨rfl, bytes, rfl⟩
    · exact ⟨_, _, _, ⟨traces_openAt_stored_err hcatalog htrace, hall, hsame _ hfile, by simp⟩⟩
    · refine ⟨_, _, _, ⟨traces_openAt_stored_ok hcatalog htrace, hall, hsame _ hfile, ?_⟩⟩
      intro index hindex
      obtain rfl := Outcome.ok.inj hindex
      exact
        { metric_eq := rfl
          dimension_eq := rfl
          catalog := ⟨_, hcatalog, n, slots, rfl⟩
          segment := ⟨_, rfl, hfile _ rfl⟩
          segmentDimension := rfl
          mmap := by
            intro len hlen
            obtain rfl := Option.some.inj hlen
            exact le_of_eq (File.length_resize _ _).symm
          tail := by simp [openedIndex] }

/-- Every opening of every directory. -/
theorem Possible.opened {disk : FlatDisk} (h : disk.Possible) (metric : Metric)
    (dimension : Dimension) : ∃ marks o disk', Opened metric dimension disk marks o disk' := by
  obtain ⟨catalog, segment⟩ := disk
  rcases h.catalog with hnone | hfresh | ⟨stored, width, db, hdb, hnamed⟩
  · obtain rfl : catalog = none := hnone
    cases segment with
    | none => exact opened_empty metric dimension
    | some bytes => exact opened_orphan metric dimension h.segment
  · obtain rfl : catalog = some .fresh := hfresh
    exact opened_fresh metric dimension h.segment
  · exact opened_named hdb hnamed h.segment

theorem keeps_openAt (metric : Metric) (dimension : Dimension) :
    Keeps Possible (openAt metric dimension) := by
  apply keeps_of_traces
  intro disk h
  obtain ⟨marks, o, disk', hopened⟩ := h.opened metric dimension
  exact ⟨marks, o, disk', hopened.traces, hopened.marks, hopened.last⟩

end FlatDisk

/-! ## Calls -/

namespace FlatStore

/-- What a store keeps through every step of every call: with the files as
    they are, it is sane. -/
theorem sane_of_index {s : FlatStore} (h : s.Sane metric dimension)
    {f : PersistentFlatIndex → PersistentFlatIndex} (hmetric : (f s.index).metric = s.index.metric)
    (hdimension : (f s.index).dimension = s.index.dimension)
    (hsegment : (f s.index).segment = s.index.segment)
    (htail : ∀ item ∈ (f s.index).tail, item.2.dimension = dimension.get) :
    FlatStore.Sane metric dimension ⟨s.disk, f s.index⟩ where
  metric_eq := hmetric.trans h.metric_eq
  dimension_eq := hdimension.trans h.dimension_eq
  catalog := h.catalog
  segment := h.segment
  segmentDimension := by
    show (f s.index).segment.dimension = _
    rw [hsegment]
    exact h.segmentDimension
  mmap := by
    show ∀ len, (f s.index).segment.mmap = some len → _
    rw [hsegment]
    exact h.mmap
  tail := htail

/-- A part of a store that the segment operations may leave. -/
structure SaneSegment (dimension : Dimension) (p : File × Segment) : Prop where
  segment : ∃ bytes, p.1 = some bytes ∧ bytes.length ≤ maxFileLen
  segmentDimension : p.2.dimension = dimension.get
  mmap : ∀ len, p.2.mmap = some len → len ≤ (p.1.getD []).length

section SegmentSteps

variable {bytes new : List Byte} {seg : Segment}

theorem saneSegment_file {p : File × Segment} (h : SaneSegment dimension p) :
    ∃ bytes seg, p = (some bytes, seg) ∧ bytes.length ≤ maxFileLen := by
  obtain ⟨file, seg⟩ := p
  obtain ⟨bytes, hbytes, hlen⟩ := h.segment
  exact ⟨bytes, seg, by rw [← hbytes], hlen⟩

theorem SaneSegment.append (h : SaneSegment dimension (some bytes, seg))
    (hlen : (bytes ++ new).length ≤ maxFileLen) :
    SaneSegment dimension (some (bytes ++ new), seg) where
  segment := ⟨_, rfl, hlen⟩
  segmentDimension := h.segmentDimension
  mmap := by
    intro len hmmap
    have hle := h.mmap len hmmap
    rw [Option.getD_some] at hle ⊢
    rw [List.length_append]
    omega

theorem SaneSegment.unmapped (hdim : seg.dimension = dimension.get) (hmmap : seg.mmap = none)
    (hlen : bytes.length ≤ maxFileLen) : SaneSegment dimension (some bytes, seg) where
  segment := ⟨_, rfl, hlen⟩
  segmentDimension := hdim
  mmap := by
    intro len hsome
    rw [hmmap] at hsome
    cases hsome

theorem SaneSegment.writeMarks (h : SaneSegment dimension (some bytes, seg))
    (hlen : bytes.length + new.length ≤ maxFileLen) :
    ∀ mark ∈ (writeMarks bytes new).map (Segment.Shown seg), SaneSegment dimension mark.state := by
  intro mark hmark
  obtain ⟨mark', hmark', rfl⟩ := List.mem_map.mp hmark
  obtain ⟨i, -, rfl⟩ := List.mem_map.mp hmark'
  apply h.append
  rw [List.length_append, List.length_take]
  omega

theorem keeps_append (values : List F32) :
    Keeps (SaneSegment dimension) (Segment.append values) := by
  have hpos := dimension.pos
  apply keeps_of_traces
  intro p h
  obtain ⟨bytes, seg, rfl, hmax⟩ := saneSegment_file h
  have hdim : seg.dimension ≠ 0 := by
    rw [h.segmentDimension]
    omega
  by_cases hvalues : values.length % seg.dimension = 0
  · have hbytes := length_bytesOf values
    rcases Nat.lt_or_ge maxFileLen (bytes.length + values.length * 4) with hfull | hroom
    · refine ⟨_, _, _, Segment.traces_append_full hdim hvalues hmax hfull, ?_, ?_⟩
      · apply h.writeMarks
        rw [List.length_take]
        omega
      · apply h.append
        rw [List.length_append, List.length_take]
        omega
    · have hall : SaneSegment dimension (some (bytes ++ bytesOf values), seg) := by
        apply h.append
        rw [List.length_append]
        omega
      refine ⟨_, _, _, Segment.traces_append hdim hvalues hroom, ?_, hall⟩
      intro mark hmark
      rw [List.map_append] at hmark
      rcases List.mem_append.mp hmark with hmark | hmark
      · exact h.writeMarks (by omega) mark hmark
      · obtain rfl := List.mem_singleton.mp hmark
        exact hall
  · exact ⟨_, _, _, Segment.traces_append_ragged hdim hvalues, by simp, h⟩

theorem keeps_truncateToEmpty :
    Keeps (SaneSegment dimension) Segment.truncateToEmpty := by
  apply keeps_of_traces
  intro p h
  obtain ⟨bytes, seg, rfl, hmax⟩ := saneSegment_file h
  have hheader : (File.resize headerLen bytes).length ≤ maxFileLen := by
    rw [File.length_resize]
    decide
  have hdim : seg.dimension = dimension.get := h.segmentDimension
  refine ⟨_, _, _, Segment.traces_truncateToEmpty bytes seg, ?_, .unmapped hdim rfl hheader⟩
  intro mark hmark
  simp only [List.map_cons, List.map_nil, List.mem_cons, List.not_mem_nil, or_false] at hmark
  rcases hmark with rfl | rfl
  · exact .unmapped hdim rfl hmax
  · exact .unmapped hdim rfl hheader

theorem keeps_remap (n : Nat) : Keeps (SaneSegment dimension) (Segment.remap n) := by
  apply keeps_of_traces
  intro p h
  obtain ⟨bytes, seg, rfl, hmax⟩ := saneSegment_file h
  have hdim : seg.dimension = dimension.get := h.segmentDimension
  have hbare : SaneSegment dimension (some bytes, { seg with mmap := none }) :=
    .unmapped hdim rfl hmax
  by_cases hneeded : (wrap64 (headerLen + n * seg.stride)).val ≤ bytes.length
  · refine ⟨_, _, _, Segment.traces_remap seg hneeded, ?_, ⟨⟨_, rfl, hmax⟩, hdim, ?_⟩⟩
    · intro mark hmark
      obtain rfl := List.mem_singleton.mp hmark
      exact hbare
    · intro len hlen
      obtain rfl := Option.some.inj hlen
      exact le_rfl
  · obtain ⟨e, htrace⟩ := Segment.traces_remap_short seg (not_le.mp hneeded)
    exact ⟨_, _, _, htrace, by simp, hbare⟩

end SegmentSteps

theorem keeps_onSegment {α : Type} {m : Effect StorageError (File × Segment) α}
    (hm : Keeps (SaneSegment dimension) m) : Keeps (Sane metric dimension) (onSegment m) := by
  intro w h
  have hpart := hm ⟨(w.state.disk.segment, w.state.index.segment), w.plan, w.commits⟩
    ⟨h.segment, h.segmentDimension, h.mmap⟩
  exact
    { metric_eq := h.metric_eq
      dimension_eq := h.dimension_eq
      catalog := h.catalog
      segment := hpart.segment
      segmentDimension := hpart.segmentDimension
      mmap := hpart.mmap
      tail := h.tail }

theorem keeps_onCatalog {α : Type} {m : Effect StorageError CatalogDb α}
    (hm : Keeps (Named metric dimension) m) : Keeps (Sane metric dimension) (onCatalog m) := by
  intro w h
  obtain ⟨db, hdb, hnamed⟩ := h.catalog
  have hcatalog : Named metric dimension w.state.catalog := by
    rw [FlatStore.catalog, FlatDisk.catalogDb, hdb]
    exact hnamed
  exact { h with catalog := ⟨_, rfl, hm ⟨w.state.catalog, w.plan, w.commits⟩ hcatalog⟩ }

theorem keeps_assign {f : PersistentFlatIndex → PersistentFlatIndex}
    (hmetric : ∀ index, (f index).metric = index.metric)
    (hdimension : ∀ index, (f index).dimension = index.dimension)
    (hsegment : ∀ index, (f index).segment = index.segment)
    (htail : ∀ index : PersistentFlatIndex, (∀ item ∈ index.tail, item.2.dimension = dimension.get) →
      ∀ item ∈ (f index).tail, item.2.dimension = dimension.get) :
    Keeps (Sane metric dimension) (assign f) := by
  apply keeps_modify
  intro s h
  exact sane_of_index h (hmetric _) (hdimension _) (hsegment _) (htail _ h.tail)

/-! ### The catalog -/

theorem keeps_writeSlots (change : OrderedTable VectorId Nat → OrderedTable VectorId Nat)
    (newRecordCount : Nat) :
    Keeps (Named metric dimension) (Catalog.writeSlots change newRecordCount) := by
  apply keeps_of_traces
  intro db h
  obtain ⟨n, slots, rfl⟩ := h
  refine ⟨_, _, _, Catalog.traces_writeSlots change newRecordCount, ?_, ?_⟩
  · intro mark hmark
    obtain rfl := List.mem_singleton.mp hmark
    exact ⟨n, slots, rfl⟩
  · exact ⟨newRecordCount, change slots, rfl⟩

theorem keeps_removeSlot (id : VectorId) :
    Keeps (Named metric dimension) (Catalog.removeSlot id) := by
  unfold Catalog.removeSlot
  apply keeps_get
  intro db h
  refine keeps_bind (keeps_commit ?_) (fun _ => keeps_pure _)
  intro db' h'
  obtain ⟨n, slots, rfl⟩ := h'
  exact ⟨n, slots.erase id, rfl⟩

/-! ### The operations -/

theorem keeps_appendItems {s : FlatStore} {items : List (VectorId × Embedding)}
    (hdims : ∀ p ∈ items, p.2.dimension = dimension.get) :
    Keeps (Sane metric dimension) (s.appendItems items) := by
  unfold appendItems
  refine keeps_bind (keeps_onSegment (keeps_append _)) (fun _ => ?_)
  refine keeps_bind (keeps_onCatalog (keeps_writeSlots _ _)) (fun _ => ?_)
  refine keeps_assign (fun _ => rfl) (fun _ => rfl) (fun _ => rfl) ?_
  intro index htail item hitem
  rcases List.mem_append.mp hitem with hitem | hitem
  · exact htail item hitem
  · exact hdims item hitem

theorem dims_of_validateItems {s : FlatStore} {seen : List VectorId}
    {items : List (VectorId × Embedding)} (h : s.validateItems seen items = .ok ()) :
    ∀ p ∈ items, p.2.dimension = s.index.dimension.get := by
  induction items generalizing seen with
  | nil => simp
  | cons p rest ih =>
    obtain ⟨id, e⟩ := p
    rw [validateItems] at h
    split at h
    · cases h
    · rename_i hdim
      split at h
      · cases h
      · cases hpresent : s.catalog.contains id with
        | error e' =>
          rw [hpresent] at h
          cases h
        | ok present =>
          rw [hpresent] at h
          cases present with
          | true => cases h
          | false =>
            intro q hq
            rcases List.mem_cons.mp hq with rfl | hq
            · exact not_not.mp hdim
            · exact ih h q hq

theorem keeps_insert (id : VectorId) (e : Embedding) :
    Keeps (Sane metric dimension) (insert id e) := by
  rw [insert_eq]
  apply keeps_get
  intro s h
  split
  · exact keeps_throw _
  · rename_i hdim
    refine keeps_bind (keeps_liftExcept _) (fun present => ?_)
    split
    · exact keeps_throw _
    · apply keeps_appendItems
      intro p hp
      obtain rfl := List.mem_singleton.mp hp
      rw [not_not.mp hdim, h.dimension_eq]

theorem keeps_insertBatch (items : List (VectorId × Embedding)) :
    Keeps (Sane metric dimension) (insertBatch items) := by
  rw [insertBatch_eq]
  split
  · exact keeps_pure _
  · apply keeps_get
    intro s h
    apply keeps_check
    intro u hvalid
    apply keeps_appendItems
    intro p hp
    rw [dims_of_validateItems hvalid p hp, h.dimension_eq]

theorem keeps_remove (id : VectorId) : Keeps (Sane metric dimension) (remove id) := by
  unfold remove
  refine keeps_bind (keeps_onCatalog (keeps_removeSlot id)) (fun existed => ?_)
  split
  · refine keeps_bind (keeps_assign ?_ ?_ ?_ ?_) (fun _ => keeps_pure _)
    · exact fun _ => rfl
    · exact fun _ => rfl
    · exact fun _ => rfl
    · exact fun _ htail => htail
  · exact keeps_pure _

theorem keeps_checkpoint : Keeps (Sane metric dimension) checkpoint := by
  unfold checkpoint
  apply keeps_get
  intro s h
  refine keeps_bind (keeps_onSegment (keeps_remap _)) (fun _ => ?_)
  exact keeps_assign (fun _ => rfl) (fun _ => rfl) (fun _ => rfl) (fun _ _ => by simp)

theorem keeps_compact : Keeps (Sane metric dimension) compact := by
  unfold compact
  apply keeps_get
  intro s h
  refine keeps_bind (keeps_liftExcept _) (fun live => ?_)
  refine keeps_bind (keeps_liftExcept _) (fun gathered => ?_)
  refine keeps_bind (keeps_onSegment keeps_truncateToEmpty) (fun _ => ?_)
  refine keeps_bind (keeps_onSegment (keeps_append _)) (fun _ => ?_)
  refine keeps_bind (keeps_onSegment (keeps_remap _)) (fun _ => ?_)
  refine keeps_bind (keeps_onCatalog (keeps_writeSlots _ _)) (fun _ => ?_)
  exact keeps_assign (fun _ => rfl) (fun _ => rfl) (fun _ => rfl) (fun _ _ => by simp)

end FlatStore

/-! ## Copying -/

namespace FlatDisk

theorem keeps_writeAll (new : List Byte) : Keeps Segment.Bounded (File.writeAll new) := by
  induction new with
  | nil => exact keeps_pure _
  | cons b new ih =>
    refine keeps_bind ?_ (fun _ => ih)
    intro w h
    unfold File.writeByte
    rw [bind_apply, get_apply]
    dsimp only
    split
    · rename_i hroom
      rcases state_durable StorageError.ioFailure
        (fun file : File => file.map (· ++ [b])) w with heq | heq
      · rwa [heq]
      · rw [heq]
        intro bytes hbytes
        obtain ⟨bytes', hbytes', rfl⟩ := Option.map_eq_some_iff.mp hbytes
        rw [hbytes', Option.getD_some] at hroom
        rw [List.length_append, List.length_singleton]
        omega
    · exact h

theorem keeps_onSegmentFile {α : Type} {m : Effect StorageError File α}
    (hm : Keeps Segment.Bounded m) : Keeps Possible (onSegmentFile m) :=
  fun w h => ⟨h.catalog, hm ⟨w.state.segment, w.plan, w.commits⟩ h.segment⟩

/-- What the catalog file of a directory can be. -/
def PossibleCatalog (catalog : Option CatalogDb) : Prop :=
  catalog = none ∨ catalog = some .fresh ∨
    ∃ metric dimension db, catalog = some db ∧ Named metric dimension db

theorem keeps_onCatalogFile {α : Type} {m : Effect StorageError (Option CatalogDb) α}
    (hm : Keeps PossibleCatalog m) : Keeps Possible (onCatalogFile m) :=
  fun w h => ⟨hm ⟨w.state.catalog, w.plan, w.commits⟩ h.catalog, h.segment⟩

theorem keeps_create (metric : Metric) (dimension : Dimension) (n : Nat) :
    Keeps PossibleCatalog (Catalog.create (manifestOf metric dimension n)) := by
  refine keeps_bind (keeps_durable ?_) (fun _ => keeps_commit ?_)
  · intro catalog h
    cases catalog with
    | none => exact Or.inr (Or.inl rfl)
    | some db => exact h
  · intro catalog h
    cases catalog with
    | none => exact h
    | some db => exact Or.inr (Or.inr ⟨metric, dimension, _, rfl, n, _, rfl⟩)

theorem keeps_replaceSlots (slots : List (VectorId × Nat)) (n : Nat) :
    Keeps PossibleCatalog (zoom (fun db : Option CatalogDb => db.getD .fresh)
      (fun db _ => some db) (Catalog.replaceSlots slots n)) := by
  have hfresh : Traces (Catalog.replaceSlots slots n) .fresh []
      (.err (.corruption "missing manifest row")) .fresh := by
    unfold Catalog.replaceSlots Catalog.writeSlots
    apply traces_next (traces_get _)
    exact traces_bind_err (traces_throw _ _)
  -- without a manifest nothing is written, and with one it is kept
  have hkeeps : Keeps (fun db => db = .fresh ∨ ∃ metric dimension, Named metric dimension db)
      (Catalog.replaceSlots slots n) := by
    intro w h
    rcases h with hdb | ⟨metric, dimension, hnamed⟩
    · obtain ⟨db, plan, c⟩ := w
      obtain rfl : db = .fresh := hdb
      have hrun := hfresh plan c
      rw [cut_nil] at hrun
      exact Or.inl (congrArg (fun r => r.2.1) hrun)
    · exact Or.inr ⟨metric, dimension, FlatStore.keeps_writeSlots _ _ w hnamed⟩
  intro w h
  have hdb : w.state.getD .fresh = .fresh ∨
      ∃ metric dimension, Named metric dimension (w.state.getD .fresh) := by
    rcases h with hnone | hfresh | ⟨metric, dimension, db, hdb, hnamed⟩
    · rw [hnone]
      exact Or.inl rfl
    · rw [hfresh]
      exact Or.inl rfl
    · rw [hdb]
      exact Or.inr ⟨metric, dimension, hnamed⟩
  rcases hkeeps ⟨w.state.getD .fresh, w.plan, w.commits⟩ hdb with hend | ⟨metric, dimension, hend⟩
  · exact Or.inr (Or.inl (congrArg some hend))
  · exact Or.inr (Or.inr ⟨metric, dimension, _, rfl, hend⟩)

theorem keeps_snapshot :
    Keeps (fun p => FlatStore.Sane metric dimension p.1 ∧ Possible p.2) FlatStore.snapshot := by
  have hdest : ∀ {α : Type} {m : Effect StorageError FlatDisk α}, Keeps Possible m →
      Keeps (fun p => FlatStore.Sane metric dimension p.1 ∧ Possible p.2)
        (zoom Prod.snd (fun dest p => (p.1, dest)) m : Effect StorageError (FlatStore × FlatDisk) α) :=
    fun hm w h => ⟨h.1, hm ⟨w.state.2, w.plan, w.commits⟩ h.2⟩
  unfold FlatStore.snapshot
  refine keeps_bind (hdest (keeps_durable fun _ h => h)) (fun _ => ?_)
  apply keeps_get
  intro p hp
  obtain ⟨hsane, -⟩ := hp
  dsimp only
  rw [hsane.metric_eq, hsane.dimension_eq, tryU32_of_lt dimension.lt]
  apply keeps_check
  intro width hwidth
  obtain rfl : dimension.u32 = width := Except.ok.inj hwidth
  refine keeps_bind (hdest (keeps_onCatalogFile (keeps_create metric dimension _))) (fun _ => ?_)
  refine keeps_bind (keeps_liftExcept _) (fun live => ?_)
  refine keeps_bind (hdest (keeps_onCatalogFile (keeps_replaceSlots live _))) (fun _ => ?_)
  split
  · exact keeps_throw _
  · split
    · exact keeps_throw _
    · refine hdest (keeps_onSegmentFile (keeps_bind (keeps_durable ?_) fun _ => keeps_writeAll _))
      intro _ _ bytes hbytes
      obtain rfl := Option.some.inj hbytes
      exact Nat.zero_le _

end FlatDisk

/-! ## Runs -/

/-- What a history leaves: a sane store, or files a directory can hold. -/
def FlatProcess.Sound : FlatProcess → Prop
  | .up s => s.Sane s.index.metric s.index.dimension
  | .down disk => disk.Possible
  | .broken => False

namespace FlatProcess

theorem sound_left {α : Type} {m : Effect StorageError FlatStore α} {s : FlatStore}
    (hm : Keeps (FlatStore.Sane metric dimension) m) (h : s.Sane metric dimension) (plan : Plan) :
    (left (m (World.start s plan))).Sound := by
  have hend := hm (World.start s plan) h
  generalize m (World.start s plan) = r at hend
  obtain ⟨o, w⟩ := r
  have hup : Sound (.up w.state) := by
    show FlatStore.Sane w.state.index.metric w.state.index.dimension w.state
    rw [hend.metric_eq, hend.dimension_eq]
    exact hend
  cases o with
  | ok a => exact hup
  | err e => exact hup
  | crashed => exact hend.possible
  | panicked => exact hend.possible

theorem keeps_write (c : FlatWrite) :
    Keeps (FlatStore.Sane metric dimension) (FlatStore.write c) := by
  cases c with
  | insert id e => exact keeps_bind (FlatStore.keeps_insert id e) fun _ => keeps_pure _
  | insertBatch items => exact keeps_bind (FlatStore.keeps_insertBatch items) fun _ => keeps_pure _
  | remove id => exact keeps_bind (FlatStore.keeps_remove id) fun _ => keeps_pure _
  | checkpoint => exact keeps_bind FlatStore.keeps_checkpoint fun _ => keeps_pure _

theorem sound_next {p : FlatProcess} (h : p.Sound) (event : DirEvent) : (p.next event).Sound := by
  cases p with
  | up s =>
    cases event with
    | openDir metric dimension plan => exact h
    | write c plan => exact sound_left (keeps_write c) h plan
    | compact plan => exact sound_left FlatStore.keeps_compact h plan
    | copy plan =>
      have hempty : FlatDisk.Possible .empty := ⟨Or.inl rfl, Segment.bounded_none⟩
      exact (FlatDisk.keeps_snapshot (World.start (s, .empty) plan) ⟨h, hempty⟩).2
    | kill => exact FlatStore.Sane.possible h
  | down disk =>
    cases event with
    | openDir metric dimension plan =>
      obtain ⟨marks, o, disk', hopened⟩ := FlatDisk.Possible.opened h metric dimension
      have hdown := FlatDisk.keeps_openAt metric dimension (World.start disk plan) h
      unfold next
      dsimp only
      cases hrun : FlatDisk.openAt metric dimension (World.start disk plan) with
      | mk o w =>
        rw [hrun] at hdown
        cases o with
        | ok index =>
          obtain ⟨rfl, hstate⟩ := hopened.traces.ok_inv hrun
          have hsane := hopened.sane index rfl
          rw [← hstate] at hsane
          show FlatStore.Sane index.metric index.dimension ⟨w.state, index⟩
          rw [show index.metric = metric from hsane.metric_eq,
            show index.dimension = dimension from hsane.dimension_eq]
          exact hsane
        | err e => exact hdown
        | crashed => exact hdown
        | panicked => exact hdown
    | write c plan => exact h
    | compact plan => exact h
    | copy plan => exact h
    | kill => exact h
  | broken => exact h.elim

theorem sound_after (events : List DirEvent) : (after events).Sound := by
  have hrun : ∀ p : FlatProcess, p.Sound → (events.foldl next p).Sound := by
    induction events with
    | nil => exact fun p h => h
    | cons event events ih => exact fun p h => ih _ (sound_next h event)
  exact hrun _ ⟨Or.inl rfl, Segment.bounded_none⟩

end FlatProcess

end EidosDB
