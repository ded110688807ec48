import EidosDB.Storage.FlatHistory

/-! # Compaction Cut Short

    `compact` cuts the segment file to its header, writes the live vectors
    behind it in slot order, and replaces the slot table last.  Until then
    the old table stays, with the old watermark; the next opening fills the
    file up to it with zeros and reads the new layout through the old slots.
    So a crash is harmless if it comes before the file is cut, if the opening
    refuses the file, or if every live vector happens to stand at its old
    slot already. -/

namespace EidosDB

open Bytes Effect

namespace FlatStore

/-! ## What a crash leaves -/

/-- The slot table behind an open store. -/
def slotTable (self : FlatStore) : OrderedTable VectorId Nat := self.catalog.slots.getD .empty

/-- The watermark in the manifest. -/
def watermark (self : FlatStore) : Nat :=
  match self.catalog.readManifest with
  | .ok manifest => manifest.recordCount.val
  | .error _ => 0

/-- The vectors that compaction keeps, in the order it writes them. -/
def keptValues (self : FlatStore) : Except StorageError (List (List F32)) :=
  self.gatherValues self.index.segment.mappedRecords
    (sortBy (fun a b => compare a.2 b.2) self.slotTable.entries)

/-- Their bytes, end to end. -/
def keptBytes (self : FlatStore) : List Byte :=
  match self.keptValues with
  | .ok values => bytesOf values.flatten
  | .error _ => []

/-- The segment file when compaction stops before its durable step `n`: step
    0 cuts the file, step 1 syncs it, then each byte is a step. -/
def bytesLeft (self : FlatStore) (n : Nat) : List Byte :=
  if n = 0 then self.disk.segment.getD []
  else File.resize headerLen (self.disk.segment.getD []) ++ self.keptBytes.take (n - 2)

/-- The length `open` gives the segment file. -/
def openLen (self : FlatStore) : Nat :=
  Segment.validLen self.index.dimension.get self.watermark

/-- `open` does not take the segment file, for its header or for the length
    it would get. -/
def Refuses (self : FlatStore) (bytes : List Byte) : Prop :=
  ¬ Segment.ValidHeader self.index.metric self.index.dimension.get bytes ∨
    maxFileLen < self.openLen

/-- Cut or filled up to the watermark, the file shows every live vector at
    its slot. -/
def StillShows (self : FlatStore) (bytes : List Byte) : Prop :=
  ∀ id slot, self.slotTable.get id = some slot → ∃ values,
    self.valuesAtStorage slot self.index.segment.mappedRecords = .ok values ∧
    Segment.record (some (File.resize self.openLen bytes))
      ⟨self.index.dimension.get, some self.openLen, self.watermark⟩ slot = some values

/-- The next opening of the files gives an error, or the map from ids to
    vectors that the store had. -/
def Survives (self : FlatStore) (disk : FlatDisk) : Prop :=
  ∀ index w, FlatDisk.openAt self.index.metric self.index.dimension
      (World.start disk .none) = (.ok index, w) →
    ∀ id, FlatStore.valuesOf ⟨w.state, index⟩ id = self.valuesOf id

variable {metric : Metric} {dimension : Dimension} {s : FlatStore}

/-! ## The steps of compaction -/

/-- A record that is read is whole. -/
theorem length_record {bytes : List Byte} {seg : Segment} {slot : Nat} {values : List F32}
    (hdim : seg.dimension = dimension.get)
    (hmmap : ∀ len, seg.mmap = some len → len ≤ bytes.length)
    (hrecord : Segment.record (some bytes) seg slot = some values) :
    values.length = dimension.get := by
  have hword := dimension.lt
  unfold Segment.record at hrecord
  split at hrecord
  · cases hrecord
  · cases hlen : seg.mmap with
    | none =>
      rw [hlen] at hrecord
      cases hrecord
    | some len =>
      have hle := hmmap len hlen
      rw [hlen] at hrecord
      dsimp only at hrecord
      generalize hstart : (wrap64 (headerLen + (wrap64 (slot * seg.stride)).val)) = start
        at hrecord
      have hlt := start.isLt
      split at hrecord
      · rename_i hin
        obtain rfl := Option.some.inj hrecord
        -- the end did not wrap, or it would be before the start
        have hstop : (wrap64 (start.val + seg.stride)).val = start.val + seg.stride := by
          rw [Segment.stride, hdim] at hin ⊢
          unfold wrap64 at hin ⊢
          dsimp only at hin ⊢
          omega
        apply length_floatsOf
        rw [hstop] at hin ⊢
        rw [Option.getD_some, List.length_take, List.length_drop, Segment.stride, hdim]
        rw [Segment.stride, hdim] at hin
        omega
      · cases hrecord

/-- The vectors that are kept are whole records. -/
theorem length_values (h : s.Sane metric dimension) {slot : Nat} {values : List F32}
    (hvalues : s.valuesAtStorage slot s.index.segment.mappedRecords = .ok values) :
    values.length = dimension.get := by
  obtain ⟨bytes, hbytes, -⟩ := h.segment
  have hmmap := h.mmap
  rw [hbytes, Option.getD_some] at hmmap
  unfold valuesAtStorage valuesAtWith at hvalues
  split at hvalues
  · rw [hbytes] at hvalues
    cases hrecord : Segment.record (some bytes) s.index.segment slot with
    | none =>
      rw [hrecord] at hvalues
      cases hvalues
    | some v =>
      rw [hrecord] at hvalues
      obtain rfl := Except.ok.inj hvalues
      exact length_record h.segmentDimension hmmap hrecord
  · cases hitem : s.index.tail[slot - s.index.segment.mappedRecords]? with
    | none =>
      rw [hitem] at hvalues
      cases hvalues
    | some item =>
      rw [hitem] at hvalues
      obtain rfl := Except.ok.inj hvalues
      exact h.tail item (List.mem_of_getElem? hitem)

theorem uniform_kept (h : s.Sane metric dimension) {live : List (VectorId × Nat)}
    {values : List (List F32)}
    (hvalues : s.gatherValues s.index.segment.mappedRecords live = .ok values) :
    Uniform dimension values ∧ values.length = live.length := by
  induction live generalizing values with
  | nil =>
    obtain rfl := Except.ok.inj hvalues
    exact ⟨by intro r hr; simp at hr, rfl⟩
  | cons p live ih =>
    obtain ⟨id, slot⟩ := p
    rw [gatherValues] at hvalues
    cases hslot : s.valuesAtStorage slot s.index.segment.mappedRecords with
    | error e =>
      rw [hslot] at hvalues
      cases hvalues
    | ok v =>
      rw [hslot] at hvalues
      cases hrest : s.gatherValues s.index.segment.mappedRecords live with
      | error e =>
        simp only [Bind.bind, Except.bind, hrest] at hvalues
        cases hvalues
      | ok vs =>
        simp only [Bind.bind, Except.bind, hrest] at hvalues
        obtain rfl := Except.ok.inj hvalues
        obtain ⟨huniform, hlen⟩ := ih hrest
        refine ⟨?_, by rw [List.length_cons, List.length_cons, hlen]⟩
        intro r hr
        rcases List.mem_cons.mp hr with rfl | hr
        · exact length_values h hslot
        · exact huniform r hr

/-- The files before the steps of compaction, for any number of bytes written
    and any steps that follow. -/
theorem bytesLeft_of_marks {new : List Byte} {bytes : List Byte}
    {marks : List (Mark StorageError FlatStore)} (rest : List FlatDisk)
    (hbytes : s.disk.segment = some bytes) (hnew : new <+: s.keptBytes)
    (hrest : ∀ disk ∈ rest, disk = { s.disk with
      segment := some (File.resize headerLen bytes ++ s.keptBytes) } ∧ new = s.keptBytes)
    (hmarks : marks.map (fun mark => mark.state.disk) =
      [s.disk, { s.disk with segment := some (File.resize headerLen bytes) }] ++
        ((writeMarks (File.resize headerLen bytes) new).map
          fun mark => { s.disk with segment := mark.state }) ++ rest)
    {n : Nat} {mark : Mark StorageError FlatStore} (hmark : marks[n]? = some mark) :
    mark.state.disk = { s.disk with segment := some (s.bytesLeft n) } := by
  have hdisk := congrArg (fun disks => disks[n]?) hmarks
  dsimp only at hdisk
  rw [List.getElem?_map, hmark, Option.map_some, List.append_assoc] at hdisk
  rcases n with _ | _ | n
  · rw [bytesLeft, if_pos rfl, hbytes, Option.getD_some, ← hbytes]
    exact Option.some.inj hdisk
  · rw [bytesLeft, if_neg (by omega), hbytes, Option.getD_some, List.take_zero, List.append_nil]
    exact Option.some.inj hdisk
  · rw [bytesLeft, if_neg (by omega), hbytes, Option.getD_some,
      show n + 1 + 1 - 2 = n from rfl]
    rw [List.getElem?_append_right (by simp)] at hdisk
    rw [show n + 1 + 1 - [s.disk, ({ s.disk with
      segment := some (File.resize headerLen bytes) } : FlatDisk)].length = n from rfl] at hdisk
    rcases Nat.lt_or_ge n new.length with hlt | hge
    · -- `n` bytes have been written
      rw [List.getElem?_append_left (by simpa using hlt)] at hdisk
      have htake : s.keptBytes.take n = new.take n := by
        obtain ⟨more, hmore⟩ := hnew
        rw [← hmore, List.take_append_of_le_length (by omega)]
      rw [htake]
      simpa [writeMarks, hlt, fileMark] using hdisk
    · rw [List.getElem?_append_right (by simpa using hge)] at hdisk
      obtain ⟨hall, hnewAll⟩ := hrest _ (List.mem_of_getElem? hdisk.symm)
      rw [hall, List.take_of_length_le (by rw [← hnewAll]; exact hge)]

/-- The store while its segment file is written anew. -/
def unmappedOn (self : FlatStore) (bytes : List Byte) : FlatStore where
  disk := { self.disk with segment := some bytes }
  index := { self.index with segment := { self.index.segment with mmap := none, mappedRecords := 0 } }

/-- The store when its segment file is written and mapped. -/
def remappedOn (self : FlatStore) (bytes : List Byte) (n : Nat) : FlatStore where
  disk := { self.disk with segment := some bytes }
  index := { self.index with segment := { self.index.segment with
    mmap := some bytes.length, mappedRecords := n } }

/-- Compaction begins by cutting the file; what follows is traced apart. -/
theorem traces_compact_cut {bytes : List Byte} {values : List (List F32)}
    (hbytes : s.disk.segment = some bytes)
    (hlive : s.catalog.liveSlots = .ok s.slotTable.entries) (hkept : s.keptValues = .ok values)
    {marks : List (Mark StorageError FlatStore)} {o : Outcome StorageError Unit} {s' : FlatStore}
    (hrest : Traces (do
      let newSlots := assignSlots 0 ((sortBy (fun a b : VectorId × Nat => compare a.2 b.2)
        s.slotTable.entries).map Prod.fst)
      onSegment (Segment.append values.flatten)
      onSegment (Segment.remap newSlots.length)
      onCatalog (Catalog.replaceSlots newSlots newSlots.length)
      assign (fun index =>
        { index with recordCount := newSlots.length, liveCount := newSlots.length, tail := [] }))
      (s.unmappedOn (File.resize headerLen bytes)) marks o s') :
    ∃ marks₁, Traces compact s (marks₁ ++ marks) o s' ∧
      marks₁.map (fun mark => mark.state.disk) =
        [s.disk, { s.disk with segment := some (File.resize headerLen bytes) }] := by
  have hcut := Segment.traces_truncateToEmpty bytes s.index.segment
  rw [← hbytes] at hcut
  obtain ⟨marks₁, htrace₁, hdisks₁⟩ := traces_onSegment hcut
  refine ⟨marks₁, ?_, ?_⟩
  · unfold compact
    apply traces_next (traces_get _)
    rw [hlive]
    apply traces_next (traces_pure _ _)
    dsimp only
    rw [show s.gatherValues _ _ = .ok values from hkept]
    apply traces_next (traces_pure _ _)
    exact traces_bind htrace₁ hrest
  · rw [hdisks₁]
    simp only [List.map_cons, List.map_nil, Segment.Shown, fileMark, ← hbytes]

/-- The files at the marks of a segment operation while the file is written
    anew. -/
theorem disks_unmappedOn {bytes : List Byte} {marks : List (Mark StorageError FlatStore)}
    {seg : Segment} {fileMarks : List (Mark StorageError File)}
    (h : marks.map (fun mark => mark.state.disk) =
      (fileMarks.map (Segment.Shown seg)).map fun mark =>
        { (s.unmappedOn bytes).disk with segment := mark.state.1 }) :
    marks.map (fun mark => mark.state.disk) =
      fileMarks.map fun mark => { s.disk with segment := mark.state } := by
  rw [h, List.map_map]
  rfl

/-- What compaction does after the cut when there is room for the live
    records. -/
theorem traces_compact_rest {header : List Byte} {values : List (List F32)} {manifest : Manifest}
    {slots : OrderedTable VectorId Nat} (newSlots : List (VectorId × Nat))
    (hdim : s.index.segment.dimension ≠ 0)
    (hwhole : values.flatten.length % s.index.segment.dimension = 0)
    (hroom : header.length + values.flatten.length * 4 ≤ maxFileLen)
    (hneeded : (wrap64 (headerLen + newSlots.length * s.index.segment.stride)).val ≤
      (header ++ bytesOf values.flatten).length)
    (hcatalog : s.disk.catalog = some (.stored manifest slots)) :
    ∃ marks s', Traces (do
        onSegment (Segment.append values.flatten)
        onSegment (Segment.remap newSlots.length)
        onCatalog (Catalog.replaceSlots newSlots newSlots.length)
        assign (fun index => { index with
          recordCount := newSlots.length, liveCount := newSlots.length, tail := [] }))
        (s.unmappedOn header) marks (.ok ()) s' ∧
      marks.map (fun mark => mark.state.disk) =
        ((writeMarks header (bytesOf values.flatten)).map
          fun mark => { s.disk with segment := mark.state }) ++
        List.replicate 3 { s.disk with segment := some (header ++ bytesOf values.flatten) } := by
  obtain ⟨marks₂, htrace₂, hdisks₂⟩ := traces_onSegment (s := s.unmappedOn header)
    (Segment.traces_append hdim hwhole hroom)
  obtain ⟨marks₃, htrace₃, hdisks₃⟩ :=
    traces_onSegment (s := s.unmappedOn (header ++ bytesOf values.flatten))
      (Segment.traces_remap { s.index.segment with mmap := none, mappedRecords := 0 } hneeded)
  have hslots : Traces (Catalog.replaceSlots newSlots newSlots.length)
      (s.remappedOn (header ++ bytesOf values.flatten) newSlots.length).catalog
      [⟨.stored manifest slots, .commitFailure⟩] (.ok ())
      (.stored { manifest with recordCount := wrap64 newSlots.length } (.ofList newSlots)) := by
    show Traces _ s.disk.catalogDb _ _ _
    rw [FlatDisk.catalogDb, hcatalog]
    exact Catalog.traces_writeSlots (fun _ => .ofList newSlots) newSlots.length
  obtain ⟨marks₄, htrace₄, hdisks₄⟩ := traces_onCatalog hslots
  refine ⟨_, _, traces_bind htrace₂ (traces_bind htrace₃ (traces_bind htrace₄ (traces_modify _ _))),
    ?_⟩
  rw [List.map_append, List.map_append, List.map_append, disks_unmappedOn hdisks₂, hdisks₃, hdisks₄,
    List.map_append, List.append_assoc]
  have hlast : { s.disk with
      catalog := some (.stored manifest slots),
      segment := some (header ++ bytesOf values.flatten) } =
      ({ s.disk with segment := some (header ++ bytesOf values.flatten) } : FlatDisk) := by
    dsimp only
    rw [hcatalog]
  exact congrArg (fun disk => List.map (fun mark => { s.disk with segment := mark.state })
    (writeMarks header (bytesOf values.flatten)) ++
      [{ s.disk with segment := some (header ++ bytesOf values.flatten) },
        { s.disk with segment := some (header ++ bytesOf values.flatten) }, disk]) hlast

/-- Compaction, whatever the file system has room for: it ends, and the
    files before its durable step `n` are the old catalog and the bytes of
    `bytesLeft n`.  There is such a step only if the live vectors can be
    read. -/
theorem traces_compact (h : s.Sane metric dimension) :
    ∃ marks o s', Traces compact s marks o s' ∧ o ≠ .crashed ∧
      ∀ n mark, marks[n]? = some mark → (∃ values, s.keptValues = .ok values) ∧
        mark.state.disk = { s.disk with segment := some (s.bytesLeft n) } := by
  obtain ⟨db, hdb, n₀, slots, rfl⟩ := h.catalog
  obtain ⟨bytes, hbytes, hmax⟩ := h.segment
  have hpos := dimension.pos
  have hcatalog : s.catalog = .stored (manifestOf metric dimension n₀) slots := by
    rw [FlatStore.catalog, FlatDisk.catalogDb, hdb, Option.getD_some]
  have hlive : s.catalog.liveSlots = .ok s.slotTable.entries := by
    rw [slotTable, hcatalog]
    rfl
  have hheader : (File.resize headerLen bytes).length = headerLen := File.length_resize _ _
  cases hkept : s.keptValues with
  | error e =>
    -- a vector cannot be read, and nothing is written
    refine ⟨[], .err e, s, ?_, by simp, by simp⟩
    unfold compact
    apply traces_next (traces_get _)
    rw [hlive]
    apply traces_next (traces_pure _ _)
    apply traces_bind_err
    rw [show s.gatherValues _ _ = .error e from hkept]
    exact traces_throw _ _
  | ok values =>
    obtain ⟨huniform, hcount⟩ := uniform_kept h hkept
    have hkeptBytes : s.keptBytes = bytesOf values.flatten := by
      rw [keptBytes, hkept]
    have hdim : s.index.segment.dimension ≠ 0 := by
      rw [h.segmentDimension]
      omega
    have hwhole : values.flatten.length % s.index.segment.dimension = 0 := by
      rw [h.segmentDimension, huniform.length_flatten, Nat.mul_mod_left]
    have hstart : headerLen ≤ maxFileLen := by decide
    rcases Nat.lt_or_ge maxFileLen
        ((File.resize headerLen bytes).length + values.flatten.length * 4) with hfull | hroom
    · -- the file system is full before everything is written
      obtain ⟨marks₂, htrace₂, hdisks₂⟩ :=
        traces_onSegment (s := s.unmappedOn (File.resize headerLen bytes))
          (Segment.traces_append_full hdim hwhole (by rwa [hheader]) hfull)
      obtain ⟨marks₁, htrace, hdisks₁⟩ :=
        traces_compact_cut hbytes hlive hkept (traces_bind_err htrace₂)
      refine ⟨_, _, _, htrace, by simp, fun n mark hmark => ?_⟩
      have hdisks := disks_unmappedOn hdisks₂
      rw [← hkeptBytes] at hdisks
      refine ⟨⟨values, rfl⟩, ?_⟩
      refine bytesLeft_of_marks [] hbytes
        (List.take_prefix (maxFileLen - (File.resize headerLen bytes).length) _) (by simp) ?_ hmark
      rw [List.map_append, hdisks₁, hdisks, List.append_nil]
    · have hall : (File.resize headerLen bytes ++ bytesOf values.flatten).length =
          headerLen + values.length * (dimension.get * 4) := by
        rw [List.length_append, hheader, length_bytesOf, huniform.length_flatten, Nat.mul_assoc]
      have hneeded : (wrap64 (headerLen + (assignSlots 0 ((sortBy (fun a b : VectorId × Nat =>
          compare a.2 b.2) s.slotTable.entries).map Prod.fst)).length *
            s.index.segment.stride)).val ≤
          (File.resize headerLen bytes ++ bytesOf values.flatten).length := by
        rw [length_assignSlots, List.length_map, ← hcount, Segment.stride, h.segmentDimension, hall]
        exact Nat.mod_le _ _
      obtain ⟨marks₂, s', hrest, hdisks⟩ :=
        traces_compact_rest _ hdim hwhole hroom hneeded hdb
      obtain ⟨marks₁, htrace, hdisks₁⟩ := traces_compact_cut hbytes hlive hkept hrest
      refine ⟨_, _, _, htrace, by simp, fun n mark hmark => ?_⟩
      rw [← hkeptBytes] at hdisks
      refine ⟨⟨values, rfl⟩, ?_⟩
      refine bytesLeft_of_marks (List.replicate 3 { s.disk with
        segment := some (File.resize headerLen bytes ++ s.keptBytes) }) hbytes
        (List.prefix_refl _) ?_ ?_ hmark
      · intro disk hdisk
        exact ⟨List.eq_of_mem_replicate hdisk, rfl⟩
      · rw [List.map_append, hdisks₁, hdisks, List.append_assoc]

/-! ## The next opening -/

/-- A vector that is kept can be read. -/
theorem values_of_kept {live : List (VectorId × Nat)} {values : List (List F32)}
    (hkept : s.gatherValues s.index.segment.mappedRecords live = .ok values) :
    ∀ p ∈ live, ∃ v, s.valuesAtStorage p.2 s.index.segment.mappedRecords = .ok v := by
  induction live generalizing values with
  | nil => simp
  | cons p live ih =>
    obtain ⟨id, slot⟩ := p
    rw [gatherValues] at hkept
    cases hslot : s.valuesAtStorage slot s.index.segment.mappedRecords with
    | error e =>
      rw [hslot] at hkept
      cases hkept
    | ok v =>
      rw [hslot] at hkept
      cases hrest : s.gatherValues s.index.segment.mappedRecords live with
      | error e =>
        simp only [Bind.bind, Except.bind, hrest] at hkept
        cases hkept
      | ok vs =>
        intro q hq
        rcases List.mem_cons.mp hq with rfl | hq
        · exact ⟨v, hslot⟩
        · exact ih hrest q hq

/-- A store just opened reads what its segment shows. -/
theorem valuesAt_opened {file : File} {catalog : Option CatalogDb} {index : PersistentFlatIndex}
    (htail : index.tail = []) {slot : Nat} {values : List F32} :
    valuesAtStorage ⟨⟨catalog, file⟩, index⟩ slot index.segment.mappedRecords = .ok values ↔
      Segment.record file index.segment slot = some values := by
  unfold valuesAtStorage valuesAtWith
  dsimp only
  split
  · cases Segment.record file index.segment slot <;> simp
  · rename_i hslot
    rw [htail, Segment.record, if_pos (not_lt.mp hslot)]
    simp

/-- What is read for an id of a stored catalog. -/
theorem valuesOf_stored {manifest : Manifest} {slots : OrderedTable VectorId Nat}
    (hcatalog : s.catalog = .stored manifest slots) (id : VectorId) :
    s.valuesOf id = match slots.get id with
      | none => .ok none
      | some slot => (s.valuesAtStorage slot s.index.segment.mappedRecords).map some := by
  unfold valuesOf
  rw [hcatalog]
  simp only [CatalogDb.slotTable, CatalogDb.stored, Bind.bind, Except.bind]
  cases slots.get id with
  | none => rfl
  | some slot => cases s.valuesAtStorage slot s.index.segment.mappedRecords <;> rfl

theorem survives_of_refused {disk disk' : FlatDisk} {marks : List (Mark StorageError FlatDisk)}
    {e : StorageError} (h : Traces (FlatDisk.openAt s.index.metric s.index.dimension) disk marks
      (.err e) disk') : s.Survives disk := by
  intro index w hopen
  have herr := h.undisturbed.1
  rw [hopen] at herr
  cases herr

theorem survives_of_opened {disk disk' : FlatDisk} {marks : List (Mark StorageError FlatDisk)}
    {index : PersistentFlatIndex} (h : Traces (FlatDisk.openAt s.index.metric s.index.dimension)
      disk marks (.ok index) disk') :
    s.Survives disk ↔ ∀ id, FlatStore.valuesOf ⟨disk', index⟩ id = s.valuesOf id := by
  obtain ⟨hok, hstate⟩ := h.undisturbed
  constructor
  · intro hsurvives
    rw [← hstate]
    exact hsurvives index _ (Prod.ext hok rfl)
  · intro hall index' w hopen
    rw [hopen] at hok hstate
    obtain rfl := Outcome.ok.inj hok
    rw [hstate]
    exact hall

/-- The store that an opening makes of the old catalog over a segment file
    that it takes. -/
def reopened (self : FlatStore) (bytes : List Byte) : FlatStore where
  disk := { self.disk with segment := some (File.resize self.openLen bytes) }
  index :=
    { segment := ⟨self.index.dimension.get, some self.openLen, self.watermark⟩
      metric := self.index.metric
      dimension := self.index.dimension
      recordCount := self.watermark
      liveCount := self.slotTable.len
      tail := [] }

/-- It reads the old map when its file shows the live vectors. -/
theorem reads_reopened {manifest : Manifest} {slots : OrderedTable VectorId Nat}
    (hcatalog : s.catalog = .stored manifest slots) (hkept : ∃ values, s.keptValues = .ok values)
    (bytes : List Byte) :
    (∀ id, (s.reopened bytes).valuesOf id = s.valuesOf id) ↔ s.StillShows bytes := by
  obtain ⟨kept, hvalues⟩ := hkept
  have hslots : s.slotTable = slots := by
    rw [slotTable, hcatalog]
    rfl
  have hcatalog' : (s.reopened bytes).catalog = .stored manifest slots := hcatalog
  have hlive : ∀ id slot, slots.get id = some slot →
      ∃ v, s.valuesAtStorage slot s.index.segment.mappedRecords = .ok v := by
    intro id slot hslot
    apply values_of_kept hvalues (id, slot)
    rw [mem_sortBy, hslots]
    exact (slots.mem_entries_iff id slot).mpr hslot
  have hread : ∀ slot v, (s.reopened bytes).valuesAtStorage slot
        (s.reopened bytes).index.segment.mappedRecords = .ok v ↔
      Segment.record (some (File.resize s.openLen bytes))
        ⟨s.index.dimension.get, some s.openLen, s.watermark⟩ slot = some v :=
    fun slot v => valuesAt_opened rfl
  unfold StillShows
  rw [hslots]
  constructor
  · intro hsame id slot hslot
    obtain ⟨v, hv⟩ := hlive id slot hslot
    have hid := hsame id
    rw [valuesOf_stored hcatalog' id, valuesOf_stored hcatalog id, hslot] at hid
    dsimp only at hid
    rw [hv] at hid
    refine ⟨v, hv, (hread slot v).mp ?_⟩
    cases hnew : (s.reopened bytes).valuesAtStorage slot
        (s.reopened bytes).index.segment.mappedRecords with
    | error e =>
      rw [hnew] at hid
      cases hid
    | ok v' =>
      rw [hnew] at hid
      obtain rfl : v' = v := by simpa [Except.map] using hid
      rfl
  · intro hshows id
    rw [valuesOf_stored hcatalog' id, valuesOf_stored hcatalog id]
    cases hslot : slots.get id with
    | none => rfl
    | some slot =>
      obtain ⟨v, hv, hrecord⟩ := hshows id slot hslot
      dsimp only
      rw [hv, (hread slot v).mpr hrecord]

/-- What an opening makes of the old catalog over any segment file. -/
theorem survives_iff (h : s.Sane metric dimension) (bytes : List Byte)
    (hkept : ∃ values, s.keptValues = .ok values) :
    s.Survives { s.disk with segment := some bytes } ↔ s.Refuses bytes ∨ s.StillShows bytes := by
  obtain ⟨db, hdb, n, slots, rfl⟩ := h.catalog
  have hcatalog : s.catalog = .stored (manifestOf metric dimension n) slots := by
    rw [FlatStore.catalog, FlatDisk.catalogDb, hdb, Option.getD_some]
  have hslots : s.slotTable = slots := by
    rw [slotTable, hcatalog]
    rfl
  have hmark : s.watermark = (wrap64 n).val := by
    rw [watermark, hcatalog, CatalogDb.readManifest_stored]
    rfl
  have hold : ({ s.disk with segment := some bytes } : FlatDisk).catalog =
      some (.stored (manifestOf s.index.metric s.index.dimension n) slots) := by
    rw [h.metric_eq, h.dimension_eq]
    exact hdb
  have hlen : s.openLen = Segment.validLen s.index.dimension.get (wrap64 n).val := by
    rw [openLen, hmark]
  have hrefused : ∀ {e}, Traces (Segment.openAt s.index.metric s.index.dimension.get
      (wrap64 n).val) (some bytes) [] (.err e) (some bytes) →
      s.Survives { s.disk with segment := some bytes } := by
    intro e htrace
    exact survives_of_refused (FlatDisk.traces_openAt_stored_err hold htrace)
  unfold Refuses
  by_cases hvalid : Segment.ValidHeader s.index.metric s.index.dimension.get bytes
  · rcases Nat.lt_or_ge maxFileLen s.openLen with hlong | hfits
    · exact iff_of_true (hrefused (Segment.traces_openAt_invalid hvalid (hlen ▸ hlong)))
        (Or.inl (Or.inr hlong))
    · -- the segment is opened at the length of the watermark
      have hopen := FlatDisk.traces_openAt_stored_ok hold
        (Segment.traces_openAt hvalid (hlen ▸ hfits))
      rw [survives_of_opened hopen, or_iff_right, ← reads_reopened hcatalog hkept bytes]
      · have hsame : FlatStore.mk
            { s.disk with segment := some (File.resize
              (Segment.validLen s.index.dimension.get (wrap64 n).val) bytes) }
            (FlatDisk.openedIndex s.index.metric s.index.dimension n slots
              ⟨s.index.dimension.get, some (Segment.validLen s.index.dimension.get (wrap64 n).val),
                (wrap64 n).val⟩) = s.reopened bytes := by
          unfold reopened FlatDisk.openedIndex
          rw [hlen, hmark, hslots]
        rw [← hsame]
      · rintro (hnot | hlong)
        · exact hnot hvalid
        · omega
  · obtain ⟨e, htrace⟩ := @Segment.traces_openAt_refused s.index.metric s.index.dimension.get
      (wrap64 n).val bytes hvalid
    exact iff_of_true (hrefused htrace) (Or.inl (Or.inl hvalid))

/-- **When compaction survives a crash.**  In every history of a directory,
    failed calls and crashes included: if compaction crashes before its
    durable step `n`, the next opening gives an error or the map the store
    had if and only if it refuses the segment file, or the bytes written so
    far show every live vector at its old slot. -/
theorem compact_survives_iff (events : List DirEvent) (s : FlatStore) (n : Nat)
    (hreached : FlatProcess.after events = .up s)
    (hcrash : (compact (World.start s (.stop n .crash))).1 = .crashed) :
    s.Survives (compact (World.start s (.stop n .crash))).2.state.disk ↔
      s.Refuses (s.bytesLeft n) ∨ s.StillShows (s.bytesLeft n) := by
  have hsane : s.Sane s.index.metric s.index.dimension := by
    have hsound := FlatProcess.sound_after events
    rw [hreached] at hsound
    exact hsound
  obtain ⟨marks, o, s', htrace, hend, hdisks⟩ := traces_compact hsane
  have hlt := (htrace.crashed_iff hend n).mp hcrash
  obtain ⟨hkept, hdisk⟩ := hdisks n _ (List.getElem?_eq_getElem hlt)
  rw [(htrace.stopped (List.getElem?_eq_getElem hlt) .crash).2, hdisk]
  exact survives_iff hsane _ hkept

/-- Two inserts and the removal of the first. -/
def holedEvents : List DirEvent :=
  [ .openDir .dotProduct .one .none,
    .write (.insert ⟨1⟩ (.single (F32.ofInt 3) (.refl true))) .none,
    .write (.insert ⟨2⟩ (.single (F32.ofInt 5) (.refl true))) .none,
    .write (.remove ⟨1⟩) .none ]

/-- Compaction after a step that failed and one that crashed: id 2 has slot 1,
    and its vector is written at slot 0. -/
def tornEvents : List DirEvent :=
  [ .openDir .dotProduct .one .none,
    .write (.insert ⟨1⟩ (.single (F32.ofInt 3) (.refl true))) .none,
    .write (.insert ⟨2⟩ (.single (F32.ofInt 5) (.refl true))) (.stop 2 .fail),
    .write (.insert ⟨2⟩ (.single (F32.ofInt 5) (.refl true))) (.stop 3 .crash),
    .openDir .dotProduct .one .none,
    .write (.insert ⟨2⟩ (.single (F32.ofInt 5) (.refl true))) .none,
    .write (.remove ⟨1⟩) .none ]

theorem compact_survives_iff_torn : ∃ s, FlatProcess.after tornEvents = .up s ∧
    (s.Survives (compact (World.start s (.stop 6 .crash))).2.state.disk ↔
      s.Refuses (s.bytesLeft 6) ∨ s.StillShows (s.bytesLeft 6)) := by
  obtain ⟨s, hs⟩ := FlatProcess.exists_running (p := FlatProcess.after tornEvents) (by decide +kernel)
  have hcrash : (FlatProcess.after tornEvents).running.map (fun s =>
      decide ((compact (World.start s (.stop 6 .crash))).1 = .crashed)) = some true := by
    decide +kernel
  rw [hs] at hcrash
  exact ⟨s, hs, compact_survives_iff tornEvents s 6 hs (by simpa [FlatProcess.running] using hcrash)⟩

/-- What the next opening reads for an id. -/
def readBack (self : FlatStore) (disk : FlatDisk) (id : VectorId) : Option (Option (List F32)) :=
  match FlatDisk.openAt self.index.metric self.index.dimension (World.start disk .none) with
  | (.ok index, w) => (FlatStore.valuesOf ⟨w.state, index⟩ id).toOption
  | _ => none

theorem not_survives_of_readBack {disk : FlatDisk} {id : VectorId} {v : Option (List F32)}
    (hread : s.readBack disk id = some v) (hv : s.valuesOf id ≠ .ok v) : ¬ s.Survives disk := by
  intro hsurvives
  unfold readBack at hread
  cases hopen : FlatDisk.openAt s.index.metric s.index.dimension (World.start disk .none) with
  | mk o w =>
    rw [hopen] at hread
    cases o with
    | ok index =>
      dsimp only at hread
      rw [hsurvives index w hopen id] at hread
      cases hvalues : s.valuesOf id with
      | ok v' =>
        rw [hvalues] at hread hv
        obtain rfl : v' = v := by simpa [Except.toOption] using hread
        exact hv rfl
      | error e =>
        rw [hvalues] at hread
        cases hread
    | err e => cases hread
    | crashed => cases hread
    | panicked => cases hread

/-- Everything is rewritten and the slots are not: id 2 reads as zero. -/
theorem not_compact_survives : ∃ s, FlatProcess.after holedEvents = .up s ∧
    (compact (World.start s (.stop 6 .crash))).1 = .crashed ∧
    ¬ s.Survives (compact (World.start s (.stop 6 .crash))).2.state.disk := by
  obtain ⟨s, hs⟩ := FlatProcess.exists_running (p := FlatProcess.after holedEvents) (by decide +kernel)
  have hrun : (FlatProcess.after holedEvents).running.map (fun s =>
      (decide ((compact (World.start s (.stop 6 .crash))).1 = .crashed),
        s.readBack (compact (World.start s (.stop 6 .crash))).2.state.disk ⟨2⟩,
        (s.valuesOf ⟨2⟩).toOption)) =
      some (true, some (some [F32.zero]), some (some [F32.ofInt 5])) := by
    decide +kernel
  rw [hs] at hrun
  simp only [FlatProcess.running, Option.map_some, Option.some.injEq, Prod.mk.injEq,
    decide_eq_true_eq] at hrun
  obtain ⟨hcrash, hread, hvalues⟩ := hrun
  refine ⟨s, hs, hcrash, not_survives_of_readBack hread ?_⟩
  intro hzero
  rw [hzero] at hvalues
  revert hvalues
  decide

end FlatStore

end EidosDB
