import EidosDB.Lib.Inverse
import EidosDB.Query.Collection
import EidosDB.Storage.FlatFailedInsert
import EidosDB.Storage.PersistentPayload

/-! # Overwriting a Durable Vector

    `upsert` on a collection of persistent stores removes the vector of an id
    in one transaction and inserts the new one in another, with the bytes of
    the new vector in between.  A crash between the two transactions leaves
    the id without a vector. -/

namespace EidosDB

open Bytes Effect

namespace FlatStore

variable {metric : Metric} {dimension : Dimension} {s : FlatStore}

/-! ## What an opening shows -/

/-- Opening the directory with this segment file and `n` records in the
    manifest gives an index that shows the values at the slot. -/
def Shows (self : FlatStore) (n : Nat) (bytes : List Byte) (slot : Nat) (values : List F32) :
    Prop :=
  Segment.ValidHeader self.index.metric self.index.dimension.get bytes ∧
    Segment.validLen self.index.dimension.get n ≤ maxFileLen ∧
    Segment.record (some (File.resize (Segment.validLen self.index.dimension.get n) bytes))
      ⟨self.index.dimension.get, some (Segment.validLen self.index.dimension.get n), n⟩ slot =
        some values

theorem readBack_of_err {disk disk' : FlatDisk} {marks : List (Mark StorageError FlatDisk)}
    {e : StorageError} (h : Traces (FlatDisk.openAt s.index.metric s.index.dimension) disk marks
      (.err e) disk') (id : VectorId) : s.readBack disk id = none := by
  have hend := h.undisturbed.1
  unfold readBack
  generalize FlatDisk.openAt s.index.metric s.index.dimension (.start disk .none) = r at hend
  obtain ⟨o, w⟩ := r
  cases hend
  rfl

theorem readBack_of_ok {disk disk' : FlatDisk} {marks : List (Mark StorageError FlatDisk)}
    {index : PersistentFlatIndex}
    (h : Traces (FlatDisk.openAt s.index.metric s.index.dimension) disk marks (.ok index) disk')
    (id : VectorId) : s.readBack disk id = (FlatStore.valuesOf ⟨disk', index⟩ id).toOption := by
  obtain ⟨hend, hstate⟩ := h.undisturbed
  unfold readBack
  generalize FlatDisk.openAt s.index.metric s.index.dimension (.start disk .none) = r at hend hstate
  obtain ⟨o, w⟩ := r
  cases hend
  dsimp only at hstate ⊢
  rw [hstate]

/-- What an opening reads for an id: the record at its slot, if the file
    shows one. -/
theorem readBack_stored {disk : FlatDisk} {n : Nat} {slots : OrderedTable VectorId Nat}
    {bytes : List Byte}
    (hcatalog : disk.catalog =
      some (.stored (manifestOf s.index.metric s.index.dimension n) slots))
    (hbytes : disk.segment = some bytes) (id : VectorId) (values : List F32) :
    s.readBack disk id = some (some values) ↔
      ∃ slot, slots.get id = some slot ∧ s.Shows (wrap64 n).val bytes slot values := by
  obtain ⟨catalog, segment⟩ := disk
  obtain rfl : segment = some bytes := hbytes
  have hrefused : ∀ {e}, Traces (Segment.openAt s.index.metric s.index.dimension.get
      (wrap64 n).val) (some bytes) [] (.err e) (some bytes) →
      s.readBack ⟨catalog, some bytes⟩ id = none := by
    intro e htrace
    exact readBack_of_err (FlatDisk.traces_openAt_stored_err hcatalog htrace) id
  unfold Shows
  by_cases hvalid : Segment.ValidHeader s.index.metric s.index.dimension.get bytes
  · rcases Nat.lt_or_ge maxFileLen
      (Segment.validLen s.index.dimension.get (wrap64 n).val) with hlong | hfits
    · rw [hrefused (Segment.traces_openAt_invalid hvalid hlong)]
      refine iff_of_false (by simp) ?_
      rintro ⟨slot, -, -, hle, -⟩
      omega
    · rw [readBack_of_ok (FlatDisk.traces_openAt_stored_ok hcatalog
        (Segment.traces_openAt hvalid hfits)),
        valuesOf_stored (show FlatStore.catalog _ = _ by
          rw [FlatStore.catalog, FlatDisk.catalogDb]
          exact congrArg (Option.getD · _) hcatalog)]
      cases hslot : slots.get id with
      | none => simp [Except.toOption]
      | some slot =>
        dsimp only
        have hread := @valuesAt_opened
          (some (File.resize (Segment.validLen s.index.dimension.get (wrap64 n).val) bytes)) catalog
          (FlatDisk.openedIndex s.index.metric s.index.dimension n slots
            ⟨s.index.dimension.get, some (Segment.validLen s.index.dimension.get (wrap64 n).val),
              (wrap64 n).val⟩) rfl slot values
        constructor
        · intro hsome
          refine ⟨slot, rfl, hvalid, hfits, hread.mp ?_⟩
          generalize valuesAtStorage _ _ _ = r at hsome
          cases r with
          | error e => cases hsome
          | ok v =>
            obtain rfl : v = values := by simpa [Except.map, Except.toOption] using hsome
            rfl
        · rintro ⟨slot', hslot', -, -, hrecord⟩
          obtain rfl := Option.some.inj hslot'
          rw [hread.mpr hrecord]
          rfl
  · obtain ⟨e, htrace⟩ := @Segment.traces_openAt_refused s.index.metric s.index.dimension.get
      (wrap64 n).val bytes hvalid
    rw [hrefused htrace]
    refine iff_of_false (by simp) ?_
    rintro ⟨slot, -, hheader, -⟩
    exact hvalid hheader

/-! ## The steps on the index -/

/-- The store once an id is removed from its catalog. -/
def forgotten (self : FlatStore) (manifest : Manifest) (slots : OrderedTable VectorId Nat)
    (id : VectorId) : FlatStore where
  disk := { self.disk with catalog := some (.stored manifest (slots.erase id)) }
  index := { self.index with liveCount := self.index.liveCount - 1 }

/-- The removal of a live id is one commit. -/
theorem traces_remove {manifest : Manifest} {slots : OrderedTable VectorId Nat}
    (hdb : s.disk.catalog = some (.stored manifest slots)) {id : VectorId}
    (hid : (slots.get id).isSome = true) :
    Traces (remove id) s [⟨s, .commitFailure⟩] (.ok true) (s.forgotten manifest slots id) := by
  have hslot : Traces (Catalog.removeSlot id) (.stored manifest slots)
      [⟨.stored manifest slots, .commitFailure⟩] (.ok true)
      (.stored manifest (slots.erase id)) := by
    apply traces_next (traces_get _)
    dsimp only
    rw [show (CatalogDb.stored manifest slots).slots.getD .empty = slots from rfl, hid]
    exact traces_bind (traces_commit _ _ _) (traces_pure _ _)
  obtain ⟨⟨catalog, segment⟩, index⟩ := s
  obtain rfl : catalog = some (.stored manifest slots) := hdb
  exact traces_bind (traces_zoom FlatStore.catalog
    (fun db (s : FlatStore) => { s with disk := { s.disk with catalog := some db } })
    (⟨⟨some (.stored manifest slots), segment⟩, index⟩ : FlatStore) hslot)
    (traces_next (traces_modify _ _) (traces_pure _ _))

/-- Room in the segment file for one more vector. -/
def HasRoom (self : FlatStore) (e : Embedding) : Prop :=
  (self.disk.segment.getD []).length + 4 * e.dimension ≤ maxFileLen

/-- The insert of an id that has no slot leaves the catalog alone until its
    last step. -/
theorem traces_insert_fresh (h : s.Sane metric dimension) {id : VectorId}
    (hid : s.slotTable.get id = none) {e : Embedding} (he : e.dimension = dimension.get) :
    ∃ marks o s', Traces (insert id e) s marks o s' ∧
      (∀ mark ∈ marks, mark.state.disk.catalog = s.disk.catalog) ∧
      (s.HasRoom e ∧ o = .ok () ∧ marks.length = 4 * e.dimension + 2 ∧
          s' = s.extended s.slotTable [(id, e)] ∨
        ¬ s.HasRoom e ∧ (∃ error, o = .err error) ∧ marks.length ≤ 4 * e.dimension ∧
          s'.disk.catalog = s.disk.catalog) := by
  obtain ⟨bytes, hbytes, hmax⟩ := h.segment
  have hdims : ∀ p ∈ [(id, e)], p.2.dimension = dimension.get := by simpa using he
  have hlen : (bytesOf ([(id, e)].flatMap (·.2.values))).length = 4 * e.dimension := by
    rw [List.flatMap_singleton, length_bytesOf, Nat.mul_comm]
    rfl
  have hsame : ∀ w : World FlatStore, w.state = s → insert id e w = s.appendItems [(id, e)] w :=
    fun w hw => insert_fresh h (by rw [he, h.dimension_eq]) hid hw
  have hcatalogs : ∀ marks : List (Mark StorageError FlatStore), (∀ n mark,
      marks[n]? = some mark →
        mark.state = s.withTail ((bytesOf ([(id, e)].flatMap (·.2.values))).take n)) →
      ∀ mark ∈ marks, mark.state.disk.catalog = s.disk.catalog := by
    intro marks hstates mark hmark
    obtain ⟨n, hn⟩ := List.mem_iff_getElem?.mp hmark
    rw [hstates n mark hn]
    rfl
  have hneeds : [(id, e)].length * (dimension.get * 4) = 4 * e.dimension := by
    rw [List.length_singleton, he]
    omega
  unfold HasRoom
  rw [hbytes, Option.getD_some, ← hneeds]
  rcases Nat.lt_or_ge maxFileLen (bytes.length + [(id, e)].length * (dimension.get * 4)) with
    hfull | hroom
  · obtain ⟨marks, part, htrace, hcount, hstates⟩ :=
      traces_appendItems_full h hbytes hmax hdims hfull
    refine ⟨marks, _, _, traces_congr hsame htrace, hcatalogs marks hstates, Or.inr ?_⟩
    exact ⟨not_le.mpr hfull, ⟨_, rfl⟩, by omega, rfl⟩
  · obtain ⟨marks, htrace, hcount, hstates⟩ := traces_appendItems h hbytes hdims hroom
    refine ⟨marks, _, _, traces_congr hsame htrace, hcatalogs marks hstates, Or.inl ?_⟩
    exact ⟨hroom, rfl, by omega, rfl⟩

/-! ## The overwrite -/

/-- What `upsert` does to the index. -/
def overwrite (id : VectorId) (e : Embedding) : Effect StorageError FlatStore Unit := do
  let _ ← remove id
  insert id e

theorem Sane.exists_stored (h : s.Sane metric dimension) :
    ∃ n, s.disk.catalog =
      some (.stored (manifestOf s.index.metric s.index.dimension n) s.slotTable) := by
  obtain ⟨db, hdb, n, slots, rfl⟩ := h.catalog
  refine ⟨n, ?_⟩
  rw [slotTable, FlatStore.catalog, FlatDisk.catalogDb, hdb, h.metric_eq, h.dimension_eq]
  rfl

/-- The catalog of the directory is that of the store without the id. -/
def Forgets (s : FlatStore) (id : VectorId) (disk : FlatDisk) : Prop :=
  ∃ n, disk.catalog =
    some (.stored (manifestOf s.index.metric s.index.dimension n) (s.slotTable.erase id))

/-- The new record is at the end of the file, and its slot is in the
    catalog. -/
structure Replaced (s : FlatStore) (id : VectorId) (e : Embedding) (disk : FlatDisk) : Prop where
  catalog : disk.catalog = some (.stored
    (manifestOf s.index.metric s.index.dimension (s.index.recordCount + 1))
    ((s.slotTable.erase id).insert id s.index.recordCount))
  segment : disk.segment = some (s.disk.segment.getD [] ++ bytesOf e.values)

/-- The overwrite of a live id.  Before its first step nothing is changed,
    before each of the others the id has no slot; and in the end it has the
    slot of the new record, if there is room for it. -/
theorem traces_overwrite (h : s.Sane metric dimension) {id : VectorId}
    (hid : (s.slotTable.get id).isSome = true) {e : Embedding}
    (he : e.dimension = dimension.get) :
    ∃ mark marks o s', Traces (overwrite id e) s (mark :: marks) o s' ∧ mark.state = s ∧
      (∀ mark ∈ marks, s.Forgets id mark.state.disk) ∧
      (s.HasRoom e ∧ o = .ok () ∧ marks.length = 4 * e.dimension + 2 ∧ s.Replaced id e s'.disk ∨
        ¬ s.HasRoom e ∧ (∃ error, o = .err error) ∧ marks.length ≤ 4 * e.dimension ∧
          s.Forgets id s'.disk) := by
  obtain ⟨n, hdb⟩ := h.exists_stored
  have hremove := traces_remove hdb hid
  generalize hmanifest : manifestOf s.index.metric s.index.dimension n = manifest at hdb hremove
  have hforgotten : (s.forgotten manifest s.slotTable id).Sane metric dimension := by
    have hkeeps := (keeps_remove id : Keeps (Sane metric dimension) _) (.start s .none) h
    rwa [hremove.undisturbed.2] at hkeeps
  have hnone : (s.forgotten manifest s.slotTable id).slotTable.get id = none := by
    show (s.slotTable.erase id).get id = none
    rw [OrderedTable.get_erase, if_pos rfl]
  have hforgets : ∀ disk : FlatDisk,
      disk.catalog = (s.forgotten manifest s.slotTable id).disk.catalog → s.Forgets id disk := by
    intro disk hdisk
    exact ⟨n, by rw [hdisk, hmanifest]; rfl⟩
  obtain ⟨marks, o, s', hinsert, hcatalogs, hend⟩ := traces_insert_fresh hforgotten hnone he
  refine ⟨_, marks, o, s', traces_bind hremove hinsert, rfl, ?_, ?_⟩
  · intro mark hmark
    exact hforgets _ (hcatalogs mark hmark)
  · rcases hend with ⟨hroom, hok, hcount, rfl⟩ | ⟨hfull, herr, hcount, hcatalog⟩
    · refine Or.inl ⟨hroom, hok, hcount, rfl, ?_⟩
      obtain ⟨bytes, hbytes, -⟩ := h.segment
      show s.disk.segment.map (· ++ bytesOf ([(id, e)].flatMap (·.2.values))) = _
      rw [hbytes, List.flatMap_singleton]
      rfl
    · exact Or.inr ⟨hfull, herr, hcount, hforgets _ hcatalog⟩

/-! ## Reading back -/

/-- The next opening of the directory reads the old vector or the new one. -/
def KeepsVector (self : FlatStore) (disk : FlatDisk) (id : VectorId) (old new : List F32) :
    Prop :=
  ∃ values, (values = old ∨ values = new) ∧ self.readBack disk id = some (some values)

/-- With the bytes of the new vector behind its last byte, the file shows the
    old or the new vector at the slot of the new record. -/
def ShowsRecord (self : FlatStore) (e : Embedding) (old : List F32) : Prop :=
  ∃ values, (values = old ∨ values = e.values) ∧
    self.Shows (wrap64 (self.index.recordCount + 1)).val
      (self.disk.segment.getD [] ++ bytesOf e.values) self.index.recordCount values

variable {disk : FlatDisk} {id : VectorId} {e : Embedding} {old new : List F32}

theorem not_keepsVector_of_forgets {bytes : List Byte} (hdisk : s.Forgets id disk)
    (hbytes : disk.segment = some bytes) : ¬ s.KeepsVector disk id old new := by
  obtain ⟨n, hcatalog⟩ := hdisk
  rintro ⟨values, -, hread⟩
  obtain ⟨slot, hslot, -⟩ := (readBack_stored hcatalog hbytes id values).mp hread
  rw [OrderedTable.get_erase, if_pos rfl] at hslot
  cases hslot

theorem keepsVector_of_replaced (hdisk : s.Replaced id e disk) :
    s.KeepsVector disk id old e.values ↔ s.ShowsRecord e old := by
  unfold KeepsVector ShowsRecord
  apply exists_congr
  intro values
  rw [readBack_stored hdisk.catalog hdisk.segment, OrderedTable.get_insert, if_pos rfl]
  simp

/-- Where the overwrite of a live id can crash without the loss of both
    vectors: before the removal, or after the new slot is committed. -/
theorem overwrite_keepsVector_iff (h : s.Sane metric dimension)
    (hid : (s.slotTable.get id).isSome = true) (he : e.dimension = dimension.get) (n : Nat) :
    s.KeepsVector (overwrite id e (.start s (.stop n .crash))).2.state.disk id old e.values ↔
      n = 0 ∧ s.KeepsVector s.disk id old e.values ∨
        4 * e.dimension + 2 < n ∧ s.HasRoom e ∧ s.ShowsRecord e old := by
  obtain ⟨mark, marks, o, s', htrace, hfirst, hlater, hend⟩ := traces_overwrite h hid he
  have hsane : (overwrite id e (.start s (.stop n .crash))).2.state.Sane metric dimension :=
    keeps_bind (keeps_remove id) (fun _ => keeps_insert id e) _ h
  obtain ⟨bytes, hbytes, -⟩ := hsane.segment
  have hlost : s.Forgets id (overwrite id e (.start s (.stop n .crash))).2.state.disk →
      ¬ s.KeepsVector (overwrite id e (.start s (.stop n .crash))).2.state.disk id old e.values :=
    fun hforgets => not_keepsVector_of_forgets hforgets hbytes
  have hstate := htrace.state_stop n .crash
  cases n with
  | zero =>
    rw [hstate]
    simp [hfirst]
  | succ n =>
    rw [List.getElem?_cons_succ] at hstate
    cases hmark : marks[n]? with
    | some mark' =>
      -- the removal is committed and the new slot is not
      rw [hmark] at hstate
      have hlt := (List.getElem?_eq_some_iff.mp hmark).1
      refine iff_of_false (hlost ?_) ?_
      · rw [hstate]
        exact hlater mark' (List.mem_of_getElem? hmark)
      · rintro (⟨hzero, -⟩ | ⟨hpast, hroom, -⟩)
        · exact absurd hzero (Nat.succ_ne_zero n)
        · rcases hend with ⟨-, -, hcount, -⟩ | ⟨hfull, -⟩
          · omega
          · exact hfull hroom
    | none =>
      rw [hmark] at hstate
      have hge := List.getElem?_eq_none_iff.mp hmark
      rcases hend with ⟨hroom, -, hcount, hreplaced⟩ | ⟨hfull, -, -, hforgets⟩
      · have hpast : 4 * e.dimension + 2 < n + 1 := by omega
        rw [hstate, Option.elim_none, keepsVector_of_replaced hreplaced]
        simp [hpast, hroom]
      · refine iff_of_false (hlost (by rw [hstate]; exact hforgets)) ?_
        rintro (⟨hzero, -⟩ | ⟨-, hroom, -⟩)
        · exact absurd hzero (Nat.succ_ne_zero n)
        · exact hfull hroom

/-- An id with a vector has a slot. -/
theorem Sane.isSome_slot (h : s.Sane metric dimension)
    (hold : s.valuesOf id = .ok (some old)) : (s.slotTable.get id).isSome = true := by
  obtain ⟨n, hdb⟩ := h.exists_stored
  have hcatalog : s.catalog =
      .stored (manifestOf s.index.metric s.index.dimension n) s.slotTable := by
    rw [FlatStore.catalog, FlatDisk.catalogDb, hdb]
    rfl
  rw [valuesOf_stored hcatalog id] at hold
  cases hslot : s.slotTable.get id with
  | some slot => rfl
  | none =>
    rw [hslot] at hold
    cases hold

/-! ## Stores without failed steps -/

variable {l : Ledger}

/-- The next opening of the files of a ledger reads what the ledger holds. -/
theorem readBack_of_onDisk {junk : List Byte} (hmetric : s.index.metric = metric)
    (hdimension : s.index.dimension = dimension) (hdisk : OnDisk metric dimension l junk disk)
    (id : VectorId) : s.readBack disk id = some ((l.contents id).map Embedding.values) := by
  obtain ⟨index, w, hopen, hrep⟩ := openAt_onDisk hdisk
  unfold readBack
  rw [hmetric, hdimension, hopen]
  dsimp only
  rw [hrep.holds.values id]
  rfl

/-- An overwrite that is done has written the new vector. -/
theorem ends_overwrite (h : Rep metric dimension l s) (id : VectorId) (e : Embedding)
    (plan : Plan) :
    ends (overwrite id e) (fun _ w => ∃ l', Rep metric dimension l' w.state ∧
      l'.contents id = some e) (fun _ _ => True) (.start s plan) := by
  have hremove := ends_remove (w := .start s plan) h (InStep.of_ledger metric h.disk.dims) id
  simp only [FlatStore.write, ends_bind, ends_pure] at hremove
  simp only [overwrite, ends_bind]
  refine ends_mono hremove ?_ fun _ _ _ => trivial
  rintro existed w ⟨-, -, l', hrep', hstep', -⟩
  have hinsert := ends_insert hrep' hstep' id e
  simp only [FlatStore.write, ends_bind, ends_pure] at hinsert
  refine ends_mono hinsert ?_ fun _ _ _ => trivial
  rintro _ w' ⟨-, -, l'', hrep'', -, hcontents, -⟩
  refine ⟨l'', hrep'', ?_⟩
  rw [hcontents]
  exact Function.update_self id (some e) l'.contents

/-- In such a store the record of the new vector is found where its slot
    says. -/
theorem showsRecord_of_rep (h : Rep metric dimension l s)
    (hid : (s.slotTable.get id).isSome = true) (he : e.dimension = dimension.get)
    (hsane : s.Sane metric dimension) (hroom : s.HasRoom e) : s.ShowsRecord e old := by
  obtain ⟨mark, marks, o, s', htrace, -, -, hend⟩ := traces_overwrite hsane hid he
  rcases hend with ⟨-, rfl, -, hreplaced⟩ | ⟨hfull, -⟩
  · obtain ⟨hok, hstate⟩ := htrace.undisturbed
    have hdone := ends_overwrite h id e .none
    unfold ends at hdone
    generalize overwrite id e (.start s .none) = r at hok hstate hdone
    obtain ⟨o, w⟩ := r
    cases hok
    obtain ⟨l', hrep', hcontents⟩ := hdone
    rw [hstate] at hrep'
    have hread := readBack_of_onDisk h.metric_eq h.dimension_eq hrep'.disk id
    rw [hcontents] at hread
    exact (keepsVector_of_replaced hreplaced).mp ⟨e.values, Or.inr rfl, hread⟩
  · exact absurd hroom hfull

end FlatStore

/-! ## The upsert -/

namespace Collection

section Frame

variable {I L P : Type} (ports : Ports I L P) (index : I)

theorem keeps_onLexical {α : Type} (m : Effect LexicalError L α) :
    Keeps (fun c : Collection I L P => c.index = index) (onLexical m) :=
  keeps_mapErr (keeps_zoom (fun _ hindex _ _ => hindex) fun _ hindex => hindex)

theorem keeps_onPayloads {α : Type} (m : Effect PayloadError P α) :
    Keeps (fun c : Collection I L P => c.index = index) (onPayloads m) :=
  keeps_mapErr (keeps_zoom (fun _ hindex _ _ => hindex) fun _ hindex => hindex)

/-- The writes of the document and of the payload leave the index alone. -/
theorem keeps_index (before after : HashOrder) (id : VectorId) (document : Option Document)
    (payload : Option Payload) :
    Keeps (fun c : Collection I L P => c.index = index) (do
      writeDocument ports before after id document
      writePayload ports id payload) := by
  apply keeps_bind
  · cases document with
    | none => exact keeps_onLexical index _
    | some document => exact keeps_onLexical index _
  · intro _
    cases payload with
    | none => exact keeps_bind (keeps_onPayloads index _) fun _ => keeps_pure _
    | some payload => exact keeps_onPayloads index _

end Frame

/-- A call of the index, with its own errors. -/
theorem onIndex_mapErr {I L P α : Type} {f : StorageError → IndexError}
    {m : Effect StorageError I α} {w : World (Collection I L P)} {o : Outcome StorageError α}
    {w' : World I} (h : m ⟨w.state.index, w.plan, w.commits⟩ = (o, w')) :
    onIndex (mapErr f m) w = (o.mapErr fun e => .index (f e),
      ⟨{ w.state with index := w'.state }, w'.plan, w'.commits⟩) := by
  unfold onIndex mapErr zoom
  dsimp only
  rw [h]
  cases o <;> rfl

variable {L P : Type} (lexical : LexicalIndex L) (payloads : PayloadStore P) (ops : F32Ops)

/-- Whatever cuts an upsert short, the index is as the overwrite leaves it. -/
theorem index_upsert (before after : HashOrder) (id : VectorId) (e : Embedding)
    (document : Option Document) (payload : Option Payload) (w : World (Collection FlatStore L P)) :
    (upsert ⟨FlatStore.port ops, lexical, payloads⟩ before after id e document payload
        w).2.state.index =
      (FlatStore.overwrite id e ⟨w.state.index, w.plan, w.commits⟩).2.state := by
  unfold upsert FlatStore.overwrite FlatStore.port
  dsimp only
  rw [bind_apply, bind_apply]
  cases hremove : FlatStore.remove id ⟨w.state.index, w.plan, w.commits⟩ with
  | mk o w₁ =>
    rw [onIndex_mapErr hremove]
    cases o with
    | err error => rfl
    | crashed => rfl
    | panicked => rfl
    | ok existed =>
      dsimp only [Outcome.mapErr]
      rw [bind_apply]
      cases hinsert : FlatStore.insert id e w₁ with
      | mk o w₂ =>
        rw [onIndex_mapErr hinsert]
        cases o with
        | err error => rfl
        | crashed => rfl
        | panicked => rfl
        | ok u => exact keeps_index _ w₂.state before after id document payload _ rfl

/-- **When an overwriting upsert keeps a vector.**  In every history of the
    index, and with any contents of the other two stores: after a crash before
    durable step `n` of an upsert of an id that has a vector, the next opening
    reads the old or the new vector for the id if and only if the crash came
    before the removal of the old slot and the files had shown the vector
    until then, or it came after the commit of the new slot, the file having
    had room for the record, and the file shows the new record there.  In a
    store without failed steps the files show both. -/
theorem upsert_keepsVector_iff (events : List DirEvent) (U : Unicode) (codecs : LexicalCodecs)
    (codec : Codec Payload) (arith : F64Ops)
    (c : Collection FlatStore LexicalStore StoredPayloads) (before after : HashOrder)
    (id : VectorId) (old : List F32) (e : Embedding) (document : Option Document)
    (payload : Option Payload) (n : Nat) (hreached : FlatProcess.after events = .up c.index)
    (hold : c.index.valuesOf id = .ok (some old)) (he : e.dimension = c.index.index.dimension.get) :
    (c.index.KeepsVector (upsert ⟨FlatStore.port ops, LexicalStore.port U codecs arith,
        StoredPayloads.port codec arith⟩ before after id e document payload
        (.start c (.stop n .crash))).2.state.index.disk id old e.values ↔
      n = 0 ∧ c.index.KeepsVector c.index.disk id old e.values ∨
        4 * e.dimension + 2 < n ∧ c.index.HasRoom e ∧ c.index.ShowsRecord e old) ∧
    ∀ l, Rep c.index.index.metric c.index.index.dimension l c.index →
      c.index.KeepsVector c.index.disk id old e.values ∧
        (c.index.HasRoom e → c.index.ShowsRecord e old) := by
  have hsane : c.index.Sane c.index.index.metric c.index.index.dimension := by
    have hsound := FlatProcess.sound_after events
    rw [hreached] at hsound
    exact hsound
  have hid := hsane.isSome_slot hold
  constructor
  · rw [index_upsert]
    exact FlatStore.overwrite_keepsVector_iff hsane hid he n
  · intro l hrep
    constructor
    · have hvalues := (hrep.holds.values id).symm.trans hold
      refine ⟨old, Or.inl rfl, ?_⟩
      rw [FlatStore.readBack_of_onDisk rfl rfl hrep.disk, Except.ok.inj hvalues]
    · exact FlatStore.showsRecord_of_rep hrep hid he hsane

/-- A collection over an index, with nothing in its other stores. -/
def overIndex (index : FlatStore) : Collection FlatStore LexicalStore StoredPayloads where
  index := index
  lexical := { db := .fresh, index := { corpusSize := 0, totalTokens := 0 } }
  payloads := { db := .fresh, store := { count := 0 } }

/-- The vector 5. -/
def fiveVector : Embedding := .single (F32.ofInt 5) (.refl true)

theorem upsert_keepsVector_iff_one : ∃ s, FlatProcess.after FlatStore.oneEvents = .up s ∧
    ∀ (U : Unicode) (codecs : LexicalCodecs) (codec : Codec Payload),
      (s.KeepsVector (upsert ⟨FlatStore.port .small, LexicalStore.port U codecs .small,
          StoredPayloads.port codec .small⟩ .ascending .ascending ⟨1⟩ fiveVector none none
          (.start (overIndex s) (.stop 3 .crash))).2.state.index.disk ⟨1⟩ [F32.ofInt 3]
          fiveVector.values ↔
        3 = 0 ∧ s.KeepsVector s.disk ⟨1⟩ [F32.ofInt 3] fiveVector.values ∨
          4 * fiveVector.dimension + 2 < 3 ∧ s.HasRoom fiveVector ∧
            s.ShowsRecord fiveVector [F32.ofInt 3]) := by
  obtain ⟨s, hs⟩ := FlatProcess.exists_running (p := FlatProcess.after FlatStore.oneEvents)
    (by decide +kernel)
  have hread : (FlatProcess.after FlatStore.oneEvents).running.map (fun s =>
      ((s.valuesOf ⟨1⟩).toOption, s.index.dimension.get)) =
        some (some (some [F32.ofInt 3]), 1) := by
    decide +kernel
  rw [hs] at hread
  obtain ⟨hvalues, hdimension⟩ := Prod.mk.inj (Option.some.inj hread)
  refine ⟨s, hs, ?_⟩
  intro U codecs codec
  exact (upsert_keepsVector_iff .small FlatStore.oneEvents U codecs codec .small (overIndex s)
    .ascending .ascending ⟨1⟩ [F32.ofInt 3] fiveVector none none 3 hs (Except.ok_of_toOption hvalues)
    (by rw [show (overIndex s).index.index.dimension.get = 1 from hdimension]; rfl)).1

/-- The upsert crashes when the removal is committed: the id has no vector. -/
theorem not_upsert_keepsVector : ∃ s, FlatProcess.after FlatStore.oneEvents = .up s ∧
    s.valuesOf ⟨1⟩ = .ok (some [F32.ofInt 3]) ∧
    ∀ (U : Unicode) (codecs : LexicalCodecs) (codec : Codec Payload),
      ¬ s.KeepsVector (upsert ⟨FlatStore.port .small, LexicalStore.port U codecs .small,
          StoredPayloads.port codec .small⟩ .ascending .ascending ⟨1⟩ fiveVector none none
          (.start (overIndex s) (.stop 1 .crash))).2.state.index.disk ⟨1⟩ [F32.ofInt 3]
          fiveVector.values := by
  obtain ⟨s, hs⟩ := FlatProcess.exists_running (p := FlatProcess.after FlatStore.oneEvents)
    (by decide +kernel)
  have hrun : (FlatProcess.after FlatStore.oneEvents).running.map (fun s =>
      ((s.valuesOf ⟨1⟩).toOption,
        s.readBack (FlatStore.overwrite ⟨1⟩ fiveVector (.start s (.stop 1 .crash))).2.state.disk
          ⟨1⟩)) = some (some (some [F32.ofInt 3]), some none) := by
    decide +kernel
  rw [hs] at hrun
  obtain ⟨hvalues, hread⟩ := Prod.mk.inj (Option.some.inj hrun)
  refine ⟨s, hs, Except.ok_of_toOption hvalues, ?_⟩
  rintro U codecs codec ⟨values, -, hkept⟩
  rw [index_upsert] at hkept
  cases hread.symm.trans hkept

end Collection

end EidosDB
