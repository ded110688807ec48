import EidosDB.Storage.FlatWrites

/-! # The Flat Store Refines the Flat Index

    Compaction, closing and opening, and a snapshot opened elsewhere keep the
    contents of a store; with the writes, a store driven by any calls answers
    as the in-memory index. -/

namespace EidosDB

open Bytes Effect

variable {metric : Metric} {dimension : Dimension} {l : Ledger} {f : FlatIndex}

/-! ## Compaction -/

theorem Ledger.recs_compacted (l : Ledger) :
    l.compacted.recs = (l.pointsAt l.liveBySlot).map Prod.snd := List.nil_append _

theorem Ledger.slots_compacted (l : Ledger) :
    l.compacted.slots = .ofList (FlatStore.assignSlots 0 (l.liveBySlot.map Prod.fst)) := by
  rw [← l.map_fst_liveBySlot]
  rfl

theorem Ledger.length_recs_compacted (l : Ledger) :
    l.compacted.recs.length = l.liveBySlot.length := by
  rw [l.recs_compacted, List.length_map, ← List.length_map Prod.fst, l.map_fst_liveBySlot,
    List.length_map]

theorem Ledger.len_slots_compacted (l : Ledger) :
    l.compacted.slots.len = l.liveBySlot.length := by
  rw [l.slots_compacted, OrderedTable.ofList, OrderedTable.len_insertMany_new,
    length_assignSlots, List.length_map]
  · exact Nat.zero_add _
  · rw [map_fst_assignSlots]
    exact l.nodup_liveBySlot
  · intro p _
    rfl

/-- Compaction rewrites the files for the live records alone. -/
theorem ends_compact {w : World FlatStore} (hrep : Rep metric dimension l w.state) :
    ends FlatStore.compact
      (fun _ w' => w'.plan.how = w.plan.how ∧ Rep metric dimension l.compacted w'.state)
      (fun r _ => Interrupted w.plan.how r) w := by
  have hlive : ∀ p ∈ l.liveBySlot, p.2 < l.recs.length :=
    fun p hp => l.entries_lt p (Ledger.mem_liveBySlot.mp hp)
  have hgather := hrep.gatherValues hlive
  have hsegDim : w.state.index.segment.dimension = dimension.get := hrep.mapped.dim
  have hpos := dimension.pos
  -- the records that stay are records of the old segment
  have hdims : ∀ e ∈ l.compacted.recs, e.dimension = dimension.get := by
    intro e he
    rw [l.recs_compacted] at he
    obtain ⟨p, hp, rfl⟩ := List.mem_map.mp he
    obtain ⟨slot, _, hrec⟩ := Ledger.contents_eq_some.mp
      ((Ledger.mem_pointsAt (fun _ => Ledger.mem_liveBySlot)).mp hp)
    exact hrep.disk.dims p.2 (List.mem_of_getElem? hrec)
  have huniform : Uniform dimension (l.compacted.recs.map Embedding.values) := by
    intro r hr
    obtain ⟨e, he, rfl⟩ := List.mem_map.mp hr
    exact hdims e he
  have hgathered : (l.pointsAt l.liveBySlot).map (fun p => p.2.values) =
      l.compacted.recs.map Embedding.values := by
    rw [l.recs_compacted, List.map_map]
    rfl
  have hmultiple : ((l.compacted.recs.map Embedding.values).flatten).length %
      w.state.index.segment.dimension = 0 := by
    rw [hsegDim, huniform.length_flatten, Nat.mul_mod_left]
  have hlayout : layout metric dimension [] [] ++
        bytesOf (l.compacted.recs.map Embedding.values).flatten =
      layout metric dimension (l.compacted.recs.map Embedding.values) [] :=
    layout_append_records _
  have hcount : (FlatStore.assignSlots 0 (l.liveBySlot.map Prod.fst)).length =
      l.compacted.recs.length := by
    rw [length_assignSlots, List.length_map, l.length_recs_compacted]
  have hlen := length_layout metric [] huniform
  rw [List.length_map, List.length_nil, Nat.add_zero] at hlen
  have hseg : (⟨(w.state.disk.segment, w.state.index.segment), w.plan, w.commits⟩ :
      World (File × Segment)).state =
        (some (layout metric dimension (l.recs.map Embedding.values) []),
          w.state.index.segment) := by
    rw [← hrep.disk.segment]
  have hsorted : sortBy (fun a b : VectorId × Nat => compare a.2 b.2) l.slots.entries =
      l.liveBySlot := rfl
  simp only [FlatStore.compact, FlatStore.onSegment, FlatStore.onCatalog, FlatStore.assign,
    ends_bind, ends_get, ends_zoom, hrep.catalog, CatalogDb.liveSlots_stored, liftExcept_ok,
    ends_pure, hsorted, hgather, hgathered, hcount]
  -- the file is cut to its header, filled in one append, and the catalog follows
  apply ends_mono (Segment.ends_truncateToEmpty hseg)
  · intro _ w₁ hend₁
    obtain ⟨hlater₁, hcut⟩ := hend₁
    rw [resize_headerLen] at hcut
    have hfits : (layout metric dimension [] []).length ≤ maxFileLen := by
      have hfull := hrep.disk.fits
      rw [length_layout _ _ hrep.disk.uniform] at hfull
      rw [length_layout _ _ (by intro r hr; simp at hr), List.length_nil, Nat.zero_mul]
      omega
    have hstate₁ : (⟨(w₁.state.1, w₁.state.2), w₁.plan, w₁.commits⟩ :
        World (File × Segment)).state = (some (layout metric dimension [] []),
          { w.state.index.segment with mmap := none, mappedRecords := 0 }) := hcut
    apply ends_mono (Segment.ends_append hstate₁ hfits
      (by show w.state.index.segment.dimension ≠ 0; omega) hmultiple)
    · intro _ w₂ hend₂
      obtain ⟨hlater₂, hwritten, hfits₂⟩ := hend₂
      rw [hlayout] at hwritten hfits₂
      have hstate₂ : (⟨(w₂.state.1, w₂.state.2), w₂.plan, w₂.commits⟩ :
          World (File × Segment)).state =
            (some (layout metric dimension (l.compacted.recs.map Embedding.values) []),
              { w.state.index.segment with mmap := none, mappedRecords := 0 }) := hwritten
      apply ends_mono (Segment.ends_remap (n := l.compacted.recs.length) _ _ hstate₂
        (by
          show headerLen + _ * (w.state.index.segment.dimension * 4) ≤ _
          rw [hlen, hsegDim]) hfits₂)
      · intro _ w₃ hend₃
        obtain ⟨hlater₃, hmapped⟩ := hend₃
        apply ends_mono (Catalog.ends_writeSlots l.slots hrep.catalog)
        · intro _ w₄ hend₄
          obtain ⟨_, hhow₄, hdb⟩ := hend₄
          rw [ends_modify]
          refine ⟨((hhow₄.trans hlater₃.how).trans hlater₂.how).trans hlater₁.how, ?_⟩
          exact
            { metric_eq := hrep.metric_eq
              dimension_eq := hrep.dimension_eq
              disk :=
                { catalog := by
                    rw [hdb, ← l.slots_compacted]
                    rfl
                  segment := by rw [hmapped]
                  dims := hdims
                  fits := hfits₂ }
              recordCount := rfl
              liveCount := by rw [l.len_slots_compacted, l.length_recs_compacted]
              mapped_le := by rw [hmapped]
              mapped := by
                rw [hmapped]
                exact
                  { dim := hsegDim
                    count := rfl
                    map := ⟨_, rfl, by rw [hlen]⟩ }
              tail := by
                rw [hmapped]
                simp }
        · intro r w₄ hend₄
          obtain ⟨hstop, _⟩ := hend₄
          have hhow := (hlater₃.how.trans hlater₂.how).trans hlater₁.how
          exact hhow ▸ hstop.cause
      · intro r w₃ hend₃
        obtain ⟨hstop, _⟩ := hend₃
        exact (hlater₂.how.trans hlater₁.how) ▸ hstop.cause
    · intro r w₂ hend₂
      obtain ⟨hhalt, _⟩ := hend₂
      exact hlater₁.how ▸ hhalt.cause
  · intro r w₁ hend₁
    obtain ⟨hstop, _⟩ := hend₁
    exact hstop.cause

/-! ## Opening again -/

/-- Closing and opening keeps the ledger. -/
theorem ends_reopen {w : World FlatStore} (hrep : Rep metric dimension l w.state) :
    ends FlatStore.reopen
      (fun _ w' => w'.plan.how = w.plan.how ∧ Rep metric dimension l w'.state)
      (fun r _ => Interrupted w.plan.how r) w := by
  simp only [FlatStore.reopen, FlatStore.assign, ends_bind, ends_get, ends_zoom, ends_modify,
    hrep.metric_eq, hrep.dimension_eq]
  apply ends_mono (FlatDisk.ends_openAt hrep.disk)
  · intro index w' hend'
    obtain ⟨hlater, hrep'⟩ := hend'
    exact ⟨hlater.how, hrep'⟩
  · intro r w' hend'
    obtain ⟨hstop, _⟩ := hend'
    exact hstop.cause

/-- A snapshot into an empty directory makes files of the same ledger, and
    leaves the store alone. -/
theorem ends_snapshot {w : World (FlatStore × FlatDisk)} (hrep : Rep metric dimension l w.state.1)
    (hdest : w.state.2 = FlatDisk.empty) :
    ends FlatStore.snapshot
      (fun _ w' => w'.plan.how = w.plan.how ∧ w'.state.1 = w.state.1 ∧
        OnDisk metric dimension l [] w'.state.2)
      (fun r _ => Interrupted w.plan.how r) w := by
  have hdim : tryU32 dimension.get = .ok dimension.u32 := tryU32_of_lt dimension.lt
  have hlen := length_layout metric [] hrep.disk.uniform
  rw [List.length_map, List.length_nil, Nat.add_zero] at hlen
  have hfits := hrep.disk.fits
  have hword : maxFileLen < 18446744073709551616 := by decide
  have hvalid : (wrap64 (headerLen + l.recs.length * (dimension.get * 4))).val =
      (layout metric dimension (l.recs.map Embedding.values) []).length := by
    rw [wrap64_val (by omega), hlen]
  simp only [FlatStore.snapshot, FlatDisk.createDirAll, FlatDisk.onCatalogFile,
    FlatDisk.onSegmentFile, ends_bind, ends_zoom, ends_get]
  apply ends_durable_storage rfl
  · intro w₁ hlater₁ hkept₁
    rw [id_eq, hdest] at hkept₁
    simp only [hrep.metric_eq, hrep.dimension_eq, hrep.recordCount, hrep.catalog, hdim,
      liftExcept_ok, ends_pure, CatalogDb.liveSlots_stored, hkept₁]
    apply ends_mono (Catalog.ends_create (by rfl))
    · intro _ w₂ hend₂
      obtain ⟨_, hhow₂, hcreated⟩ := hend₂
      simp only [hcreated, Option.getD_some]
      apply ends_mono (Catalog.ends_writeSlots _ (by rfl))
      · intro _ w₃ hend₃
        obtain ⟨_, hhow₃, hslots⟩ := hend₃
        have hhow : w₃.plan.how = w.plan.how := (hhow₃.trans hhow₂).trans hlater₁.how
        rw [hrep.disk.segment]
        simp only [hvalid, lt_irrefl, if_false, ends_zoom, ends_bind]
        apply ends_durable_storage rfl
        · intro w₄ hlater₄ hnew
          apply ends_mono (File.ends_writeAll _ hnew (Nat.zero_le _))
          · intro _ w₅ hend₅
            obtain ⟨hlater₅, hwritten, _⟩ := hend₅
            refine ⟨(hlater₅.how.trans hlater₄.how).trans hhow, trivial, ?_⟩
            exact
              { catalog := by
                  rw [hslots, OrderedTable.ofList_entries]
                  rfl
                segment := by rw [hwritten, List.nil_append, List.take_length]
                dims := hrep.disk.dims
                fits := hfits }
          · intro r w₅ hend₅
            obtain ⟨hhalt, _⟩ := hend₅
            exact (hlater₄.how.trans hhow) ▸ hhalt.cause
        · intro r w₄ hstop _
          exact hhow ▸ hstop.cause
      · intro r w₃ hend₃
        obtain ⟨hstop, _⟩ := hend₃
        exact (hhow₂.trans hlater₁.how) ▸ hstop.cause
    · intro r w₂ hstop
      exact hlater₁.how ▸ hstop.cause
  · intro r w₁ hstop _
    exact hstop.cause

/-! ## Runs -/

/-- The calls on a store.  A snapshot goes into a fresh directory and is
    opened there; the run goes on with the copy, or with the original. -/
inductive FlatCall where
  | write (c : FlatWrite)
  | compact
  | reopen
  | snapshot (moveToCopy : Bool)

/-- One call on the store. -/
def FlatStore.call : FlatCall → Effect StorageError FlatStore FlatAnswer
  | .write c => FlatStore.write c
  | .compact => do
    FlatStore.compact
    pure .done
  | .reopen => do
    FlatStore.reopen
    pure .done
  | .snapshot moveToCopy => do
    let dest ← withVar FlatDisk.empty FlatStore.snapshot
    let s ← get
    let copy ← withVar { s with disk := dest }
      (zoom Prod.snd (fun copy p => (p.1, copy)) FlatStore.reopen)
    if moveToCopy then modify (fun _ => copy)
    pure .done

/-- The same call on the in-memory index, which has nothing to compact, open
    or copy. -/
def FlatIndex.call (self : FlatIndex) : FlatCall → Except IndexError FlatAnswer × FlatIndex
  | .write c => self.write c
  | .compact => (.ok .done, self)
  | .reopen => (.ok .done, self)
  | .snapshot _ => (.ok .done, self)

/-- The answer the caller sees. -/
def asOutcome : Except IndexError FlatAnswer → Outcome IndexError FlatAnswer
  | .ok a => .ok a
  | .error e => .err e

/-- One call that nothing interrupts: the answer and the store after it.
    `none` stands for a file system without room for the file. -/
def FlatStore.answer (s : FlatStore) (c : FlatCall) :
    Option (Outcome IndexError FlatAnswer × FlatStore) :=
  match FlatStore.call c (World.start s .none) with
  | (.ok a, w) => some (.ok a, w.state)
  | (.err e, w) =>
    if e = .io .fileTooLarge then none else some (.err e.toIndexError, w.state)
  | (.crashed, w) => some (.crashed, w.state)
  | (.panicked, w) => some (.panicked, w.state)

/-- The answers to a list of calls, and the store after the last one. -/
def FlatStore.answers : List FlatCall → FlatStore →
    Option (List (Outcome IndexError FlatAnswer) × FlatStore)
  | [], s => some ([], s)
  | c :: rest, s =>
    match s.answer c with
    | none => none
    | some (a, s') =>
      match FlatStore.answers rest s' with
      | none => none
      | some (as, s'') => some (a :: as, s'')

def FlatIndex.answers : List FlatCall → FlatIndex → List (Except IndexError FlatAnswer) × FlatIndex
  | [], f => ([], f)
  | c :: rest, f =>
    let r := f.call c
    let rs := FlatIndex.answers rest r.2
    (r.1 :: rs.1, rs.2)

/-- A store opened on an empty directory and driven by calls. -/
def FlatStore.session (metric : Metric) (dimension : Dimension) (calls : List FlatCall) :
    Option (List (Outcome IndexError FlatAnswer) × FlatStore) :=
  match FlatDisk.openAt metric dimension (World.start .empty .none) with
  | (.ok index, w) => FlatStore.answers calls ⟨w.state, index⟩
  | _ => none

/-- A call that ends, ends as on the oracle; only a full file system halts it
    otherwise. -/
theorem ends_call {w : World FlatStore} (hrep : Rep metric dimension l w.state)
    (hstep : InStep metric dimension l f) (c : FlatCall) :
    ends (FlatStore.call c)
      (fun a w' => (f.call c).1 = .ok a ∧
        ∃ l', Rep metric dimension l' w'.state ∧ InStep metric dimension l' (f.call c).2)
      (fun r w' => (w' = w ∧ ∃ e, r = .err (.index e) ∧ f.call c = (.error e, f)) ∨
        Interrupted w.plan.how r) w := by
  cases c with
  | write c =>
    apply ends_mono (ends_write hrep hstep c)
    · intro a w' hend'
      obtain ⟨_, hanswer, l', hrep', hstep', _⟩ := hend'
      exact ⟨hanswer, l', hrep', hstep'⟩
    · intro r w' h
      exact h.imp id (fun h => h.1.cause)
  | compact =>
    simp only [FlatStore.call, ends_bind]
    apply ends_mono (ends_compact hrep)
    · intro _ w' hend'
      obtain ⟨_, hrep'⟩ := hend'
      exact ⟨rfl, l.compacted, hrep', hstep.congr l.contents_compacted⟩
    · intro r w' h
      exact Or.inr h
  | reopen =>
    simp only [FlatStore.call, ends_bind]
    apply ends_mono (ends_reopen hrep)
    · intro _ w' hend'
      obtain ⟨_, hrep'⟩ := hend'
      exact ⟨rfl, l, hrep', hstep⟩
    · intro r w' h
      exact Or.inr h
  | snapshot moveToCopy =>
    simp only [FlatStore.call, ends_bind, ends_withVar, ends_get]
    apply ends_mono (ends_snapshot (l := l) hrep rfl)
    · intro _ w₁ hend₁
      obtain ⟨hhow₁, hkept, hdest⟩ := hend₁
      rw [ends_zoom]
      -- opening reads nothing of the old index but its metric and dimension
      have hcopy : ends FlatStore.reopen
          (fun _ w' => Rep metric dimension l w'.state)
          (fun r _ => Interrupted w.plan.how r)
          (⟨{ w₁.state.1 with disk := w₁.state.2 }, w₁.plan, w₁.commits⟩ : World FlatStore) := by
        simp only [FlatStore.reopen, FlatStore.assign, ends_bind, ends_get, ends_zoom,
          ends_modify, hkept, hrep.metric_eq, hrep.dimension_eq]
        apply ends_mono (FlatDisk.ends_openAt hdest)
        · intro index w' hend'
          obtain ⟨_, hrep'⟩ := hend'
          exact hrep'
        · intro r w' hend'
          obtain ⟨hstop, _⟩ := hend'
          exact hhow₁ ▸ hstop.cause
      apply ends_mono hcopy
      · intro _ w₂ hrep₂
        cases moveToCopy with
        | true => exact ⟨rfl, l, hrep₂, hstep⟩
        | false =>
          refine ⟨rfl, l, ?_, hstep⟩
          show Rep metric dimension l w₁.state.1
          rw [hkept]
          exact hrep
      · intro r w₂ h
        exact Or.inr h
    · intro r w₁ h
      exact Or.inr h

/-- One call gives the oracle's answer, and the store stays in step. -/
theorem answer_spec {s s' : FlatStore} {a : Outcome IndexError FlatAnswer}
    (hrep : Rep metric dimension l s) (hstep : InStep metric dimension l f) {c : FlatCall}
    (h : s.answer c = some (a, s')) :
    a = asOutcome (f.call c).1 ∧
      ∃ l', Rep metric dimension l' s' ∧ InStep metric dimension l' (f.call c).2 := by
  have hcall := ends_call (w := World.start s .none) hrep hstep c
  unfold ends at hcall
  unfold FlatStore.answer at h
  cases hrun : FlatStore.call c (World.start s .none) with
  | mk o w =>
    rw [hrun] at hcall h
    cases o with
    | ok b =>
      obtain ⟨rfl, rfl⟩ : Outcome.ok b = a ∧ w.state = s' := by simpa using h
      obtain ⟨hanswer, hkept⟩ := hcall
      exact ⟨by rw [hanswer]; rfl, hkept⟩
    | err e =>
      dsimp only at h
      split at h
      · simp at h
      · rename_i hroom
        obtain ⟨rfl, rfl⟩ : Outcome.err e.toIndexError = a ∧ w.state = s' := by simpa using h
        rcases hcall with ⟨hw, ie, hie, heq⟩ | hcause
        · -- refused: the store is as it was
          obtain rfl : e = .index ie := by simpa using hie
          rw [heq, hw]
          exact ⟨rfl, l, hrep, hstep⟩
        · exact absurd (hcause.2 nofun) hroom
    | crashed =>
      rcases hcall with ⟨_, ie, hie, _⟩ | hcause
      · simp at hie
      · simp [World.start, Plan.how, Interrupted] at hcause
    | panicked =>
      rcases hcall with ⟨_, ie, hie, _⟩ | hcause
      · simp at hie
      · exact hcause.elim

theorem answers_spec {s s' : FlatStore} {calls : List FlatCall}
    {as : List (Outcome IndexError FlatAnswer)} (hrep : Rep metric dimension l s)
    (hstep : InStep metric dimension l f) (h : FlatStore.answers calls s = some (as, s')) :
    as = (FlatIndex.answers calls f).1.map asOutcome ∧
      ∃ l', Rep metric dimension l' s' ∧
        InStep metric dimension l' (FlatIndex.answers calls f).2 := by
  induction calls generalizing s l f as with
  | nil =>
    obtain ⟨rfl, rfl⟩ : [] = as ∧ s = s' := by simpa [FlatStore.answers] using h
    exact ⟨rfl, l, hrep, hstep⟩
  | cons c rest ih =>
    rw [FlatStore.answers] at h
    cases hone : s.answer c with
    | none =>
      rw [hone] at h
      simp at h
    | some p =>
      obtain ⟨a, s₁⟩ := p
      obtain ⟨rfl, l₁, hrep₁, hstep₁⟩ := answer_spec hrep hstep hone
      rw [hone] at h
      dsimp only at h
      cases hrest : FlatStore.answers rest s₁ with
      | none =>
        rw [hrest] at h
        simp at h
      | some q =>
        obtain ⟨as₁, s₂⟩ := q
        rw [hrest] at h
        obtain ⟨rfl, rfl⟩ : asOutcome (f.call c).1 :: as₁ = as ∧ s₂ = s' := by simpa using h
        obtain ⟨has, l₂, hrep₂, hstep₂⟩ := ih hrep₁ hstep₁ hrest
        refine ⟨?_, l₂, hrep₂, hstep₂⟩
        rw [has]
        rfl

theorem inStep_new (metric : Metric) (dimension : Dimension) :
    InStep metric dimension .empty (.new metric dimension) where
  metric_eq := rfl
  dimension_eq := rfl
  inv := FlatIndex.inv_new metric dimension
  points id e := by simp [FlatIndex.new, Ledger.contents]

theorem openAt_empty (metric : Metric) (dimension : Dimension) :
    ∃ index w, FlatDisk.openAt metric dimension (World.start .empty .none) = (.ok index, w) ∧
      Rep metric dimension .empty ⟨w.state, index⟩ := by
  have hopen := FlatDisk.ends_openAt_empty metric dimension (w := World.start .empty .none) rfl
  unfold ends at hopen
  cases hrun : FlatDisk.openAt metric dimension (World.start .empty .none) with
  | mk o w =>
    rw [hrun] at hopen
    cases o with
    | ok index => exact ⟨index, w, rfl, hopen.2⟩
    | err e => exact absurd hopen (by simp [World.start, Plan.how])
    | crashed => exact absurd hopen (by simp [World.start, Plan.how])
    | panicked => exact absurd hopen (by simp [World.start, Plan.how])

/-- A directory can be made a store, and a session with room on disk answers
    every call as the in-memory index does, and agrees with it on its length
    and on every search. -/
theorem FlatStore.session_refines (ops : F32Ops) (metric : Metric) (dimension : Dimension) :
    (FlatStore.session metric dimension []).isSome = true ∧
    ∀ calls as s, FlatStore.session metric dimension calls = some (as, s) →
      as = (FlatIndex.answers calls (.new metric dimension)).1.map asOutcome ∧
      s.len = (FlatIndex.answers calls (.new metric dimension)).2.len ∧
      ∀ query k queryMetric isAdmissible,
        s.searchFiltered ops query k queryMetric isAdmissible =
          (FlatIndex.answers calls (.new metric dimension)).2.searchFiltered ops query k
            queryMetric isAdmissible := by
  obtain ⟨index, w, hopen, hrep₀⟩ := openAt_empty metric dimension
  constructor
  · simp only [FlatStore.session, hopen, FlatStore.answers, Option.isSome_some]
  · intro calls as s h
    simp only [FlatStore.session, hopen] at h
    obtain ⟨has, l, hrep, hstep⟩ := answers_spec hrep₀ (inStep_new metric dimension) h
    refine ⟨has, ?_, ?_⟩
    · rw [FlatStore.len, hrep.liveCount, hstep.len]
    · intro query k queryMetric isAdmissible
      rw [hrep.searchFiltered, FlatIndex.searchFiltered, hstep.dimension_eq, hstep.hits]

/-- All the calls, a refused one among them. -/
def mixedCalls : List FlatCall :=
  [ .write (.insert ⟨1⟩ (.single (F32.ofInt 3) (.refl true))),
    .write (.insertBatch
      [(⟨2⟩, .single (F32.ofInt 5) (.refl true)), (⟨3⟩, .single (F32.ofInt 4) (.refl true))]),
    .write .checkpoint,
    .write (.remove ⟨2⟩),
    .write (.insert ⟨1⟩ (.single (F32.ofInt 6) (.refl true))),
    .compact,
    .reopen,
    .snapshot true,
    .write (.insert ⟨2⟩ (.single (F32.ofInt 7) (.refl true))) ]

theorem FlatStore.session_refines_mixed : ∃ as s,
    FlatStore.session .dotProduct .one mixedCalls = some (as, s) ∧
    as = (FlatIndex.answers mixedCalls (.new .dotProduct .one)).1.map asOutcome ∧ s.len = 3 := by
  have hlen : (FlatStore.session .dotProduct .one mixedCalls).map (fun r => r.2.len) = some 3 := by
    decide +kernel
  obtain ⟨⟨as, s⟩, hrun, hs⟩ := Option.map_eq_some_iff.mp hlen
  exact ⟨as, s, hrun,
    ((FlatStore.session_refines .small .dotProduct .one).2 mixedCalls as s hrun).1, hs⟩

end EidosDB
