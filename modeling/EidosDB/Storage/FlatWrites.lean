import EidosDB.Storage.FlatSteps

/-! # Writes of the Flat Store against the Oracle

    `insert`, `insert_batch`, `remove` and `checkpoint` on a store, and the
    same calls on the in-memory flat index.  A call that is not interrupted
    gives the oracle's answer and keeps the store in step with it; one that
    is interrupted leaves the ledger on disk as it was. -/

namespace EidosDB

open Bytes Effect

/-! ## The oracle -/

/-- What a call answers. -/
inductive FlatAnswer where
  | done
  | removed (existed : Bool)
  deriving DecidableEq, Repr

/-- The calls that change the contents of a store, and `checkpoint`. -/
inductive FlatWrite where
  | insert (id : VectorId) (embedding : Embedding)
  | insertBatch (items : List (VectorId × Embedding))
  | remove (id : VectorId)
  | checkpoint

namespace FlatIndex

/-- Insert the items in order up to the first one that is refused. -/
def insertAll (self : FlatIndex) : List (VectorId × Embedding) → Except IndexError Unit × FlatIndex
  | [] => (.ok (), self)
  | (id, embedding) :: rest =>
    match self.insert id embedding with
    | (.ok (), next) => next.insertAll rest
    | (.error e, next) => (.error e, next)

/-- All items in order when all are valid, none otherwise. -/
def insertBatch (self : FlatIndex) (items : List (VectorId × Embedding)) :
    Except IndexError Unit × FlatIndex :=
  match self.insertAll items with
  | (.ok (), next) => (.ok (), next)
  | (.error e, _) => (.error e, self)

/-- A write on the oracle. -/
def write (self : FlatIndex) : FlatWrite → Except IndexError FlatAnswer × FlatIndex
  | .insert id embedding =>
    let r := self.insert id embedding
    (r.1.map fun _ => .done, r.2)
  | .insertBatch items =>
    let r := self.insertBatch items
    (r.1.map fun _ => .done, r.2)
  | .remove id =>
    let r := self.remove id
    (r.1.map .removed, r.2)
  | .checkpoint => (.ok .done, self)

end FlatIndex

/-- The write on the store. -/
def FlatStore.write : FlatWrite → Effect StorageError FlatStore FlatAnswer
  | .insert id embedding => do
    FlatStore.insert id embedding
    pure .done
  | .insertBatch items => do
    FlatStore.insertBatch items
    pure .done
  | .remove id => do
    let existed ← FlatStore.remove id
    pure (.removed existed)
  | .checkpoint => do
    FlatStore.checkpoint
    pure .done

/-- What a write that takes effect does to a map from ids to embeddings. -/
def FlatWrite.apply (m : VectorId → Option Embedding) : FlatWrite → VectorId → Option Embedding
  | .insert id embedding => Function.update m id (some embedding)
  | .insertBatch items => fun id => (items.lookup id).or (m id)
  | .remove id => Function.update m id none
  | .checkpoint => m

/-! ## In step with the oracle -/

/-- The oracle holds the contents of the ledger. -/
structure InStep (metric : Metric) (dimension : Dimension) (l : Ledger) (f : FlatIndex) : Prop where
  metric_eq : f.metric = metric
  dimension_eq : f.dimension = dimension
  inv : f.Inv
  points : ∀ id e, (id, e) ∈ f.points ↔ l.contents id = some e

namespace InStep

variable {metric : Metric} {dimension : Dimension} {l : Ledger} {f : FlatIndex}

/-- An id is stored in the oracle when it has a slot. -/
theorem exists_iff (h : InStep metric dimension l f) (id : VectorId) :
    (∃ e, (id, e) ∈ f.points) ↔ (l.slots.get id).isSome = true := by
  rw [← l.contents_isSome, Option.isSome_iff_exists]
  exact exists_congr (h.points id)

/-- The points of the ledger are those of the oracle. -/
theorem mem_points (h : InStep metric dimension l f) (p : VectorId × Embedding) :
    p ∈ l.points ↔ p ∈ f.points := by
  rw [Ledger.mem_points, h.points]

theorem len (h : InStep metric dimension l f) : l.slots.len = f.len := by
  have hperm : l.points.Perm f.points :=
    (List.perm_ext_iff_of_nodup (List.Nodup.of_map _ l.nodup_points_keys)
      (FlatIndex.nodup_points h.inv)).mpr h.mem_points
  rw [← l.length_points, hperm.length_eq]
  rfl

theorem hits (h : InStep metric dimension l f) (ops : F32Ops) (queryMetric : Metric)
    (query : List F32) (k : Nat) (isAdmissible : VectorId → Bool) :
    hits ops queryMetric query k isAdmissible l.points =
      EidosDB.hits ops queryMetric query k isAdmissible f.points :=
  hits_eq_of_mem_iff ops queryMetric query k isAdmissible
    (List.Nodup.of_map _ l.nodup_points_keys) (FlatIndex.nodup_points h.inv) h.mem_points

/-- The oracle built from a ledger. -/
def oracle (metric : Metric) (dimension : Dimension) (l : Ledger) : FlatIndex :=
  { metric := metric, dimension := dimension, points := l.points }

theorem of_ledger (metric : Metric) (hdims : ∀ e ∈ l.recs, e.dimension = dimension.get) :
    InStep metric dimension l (oracle metric dimension l) where
  metric_eq := rfl
  dimension_eq := rfl
  inv :=
    { nodup := l.nodup_points_keys
      dims := by
        intro p hp
        obtain ⟨slot, _, hrec⟩ := Ledger.contents_eq_some.mp (Ledger.mem_points.mp hp)
        exact hdims p.2 (List.mem_of_getElem? hrec) }
  points id e := Ledger.mem_points

/-- The oracle follows any ledger with the same contents. -/
theorem congr (h : InStep metric dimension l f) {l' : Ledger}
    (hcontents : ∀ id, l'.contents id = l.contents id) : InStep metric dimension l' f where
  metric_eq := h.metric_eq
  dimension_eq := h.dimension_eq
  inv := h.inv
  points id e := by rw [hcontents, h.points]

/-- Appending to the ledger is appending to the oracle. -/
theorem add (h : InStep metric dimension l f) {items : List (VectorId × Embedding)} {f' : FlatIndex}
    (hmetric : f'.metric = metric) (hdimension : f'.dimension = dimension) (hinv : f'.Inv)
    (hpoints : f'.points = f.points ++ items) (hnodup : (items.map Prod.fst).Nodup)
    (hnew : ∀ p ∈ items, l.slots.get p.1 = none) : InStep metric dimension (l.add items) f' where
  metric_eq := hmetric
  dimension_eq := hdimension
  inv := hinv
  points id e := by
    rw [hpoints, List.mem_append, h.points]
    by_cases hid : id ∈ items.map Prod.fst
    · obtain ⟨⟨id', e'⟩, hp, rfl⟩ := List.mem_map.mp hid
      have hold : l.contents id' = none := by
        rw [Ledger.contents, hnew _ hp]
        rfl
      rw [l.contents_add_of_mem hnodup hp, hold]
      constructor
      · intro hmem
        rcases hmem with hmem | hmem
        · simp at hmem
        · have heq := List.inj_on_of_nodup_map hnodup hp hmem rfl
          rw [show e' = e from congrArg Prod.snd heq]
      · intro heq
        obtain rfl : e' = e := by simpa using heq
        exact Or.inr hp
    · rw [l.contents_add_of_notMem hid]
      constructor
      · intro hmem
        rcases hmem with hmem | hmem
        · exact hmem
        · exact absurd (List.mem_map_of_mem hmem) hid
      · exact Or.inl

end InStep

/-! ## Validation -/

namespace FlatIndex

/-- A batch that goes through appends its items, which are new, of the right
    dimension and without repetition. -/
theorem insertAll_ok {f f' : FlatIndex} (hinv : f.Inv) {items : List (VectorId × Embedding)}
    (h : f.insertAll items = (.ok (), f')) :
    f'.Inv ∧ f'.metric = f.metric ∧ f'.dimension = f.dimension ∧ f'.points = f.points ++ items := by
  induction items generalizing f with
  | nil =>
    obtain rfl : f = f' := by simpa [insertAll] using h
    exact ⟨hinv, rfl, rfl, (List.append_nil _).symm⟩
  | cons p rest ih =>
    obtain ⟨id, e⟩ := p
    rw [insertAll] at h
    rcases f.insert_cases id e with ⟨_, heq⟩ | ⟨_, _, heq⟩ | ⟨_, _, heq⟩
    · rw [heq] at h
      simp at h
    · rw [heq] at h
      simp at h
    · have hnext : (f.insert id e).2.Inv := inv_insert hinv id e
      rw [heq] at h hnext
      obtain ⟨hinv', hmetric, hdimension, hpoints⟩ := ih hnext h
      refine ⟨hinv', hmetric, hdimension, ?_⟩
      rw [hpoints, List.append_assoc]
      rfl

end FlatIndex

namespace Rep

variable {metric : Metric} {dimension : Dimension} {l : Ledger} {s : FlatStore}

/-- The validation loop finds what the oracle finds, item by item: `f` is the
    oracle after the items seen so far. -/
theorem validateItems (h : Rep metric dimension l s) {f : FlatIndex} {seen : List VectorId}
    (hdim : f.dimension = dimension)
    (hstored : ∀ id, (∃ e, (id, e) ∈ f.points) ↔
      id ∈ seen ∨ (l.slots.get id).isSome = true)
    (items : List (VectorId × Embedding)) :
    s.validateItems seen items =
      match (f.insertAll items).1 with
      | .ok () => .ok ()
      | .error e => .error (.index e) := by
  induction items generalizing f seen with
  | nil => rfl
  | cons p rest ih =>
    obtain ⟨id, e⟩ := p
    rw [FlatStore.validateItems, FlatIndex.insertAll, h.dimension_eq, h.catalog,
      CatalogDb.contains_stored]
    have hid := hstored id
    rcases f.insert_cases id e with ⟨hne, heq⟩ | ⟨hedim, hdup, heq⟩ | ⟨hedim, hnew, heq⟩
    · rw [heq, if_pos (by rw [← hdim]; exact hne), hdim]
    · rw [heq, if_neg (by rw [← hdim]; exact not_not.mpr hedim)]
      rcases hid.mp hdup with hseen | hlive
      · rw [if_pos hseen]
      · simp only [hlive]
        split <;> rfl
    · have hfresh : ¬ (id ∈ seen ∨ (l.slots.get id).isSome = true) := by
        rw [← hid]
        rintro ⟨e', he'⟩
        exact hnew e' he'
      obtain ⟨hseen, hlive⟩ := not_or.mp hfresh
      rw [heq, if_neg (by rw [← hdim]; exact not_not.mpr hedim), if_neg hseen,
        Bool.eq_false_of_not_eq_true hlive]
      -- the item joins the ones seen, in the loop and in the oracle
      have hnext : ∀ id', (∃ e', (id', e') ∈ f.points ++ [(id, e)]) ↔
          id' ∈ id :: seen ∨ (l.slots.get id').isSome = true := by
        intro id'
        simp only [List.mem_append, Prod.mk.injEq, List.mem_cons, List.not_mem_nil, or_false]
        rw [or_assoc, ← hstored id']
        constructor
        · intro hend
          obtain ⟨e', he'⟩ := hend
          rcases he' with he' | ⟨rfl, rfl⟩
          · exact Or.inr ⟨e', he'⟩
          · exact Or.inl rfl
        · intro hor
          rcases hor with rfl | ⟨e', he'⟩
          · exact ⟨e, Or.inr ⟨rfl, rfl⟩⟩
          · exact ⟨e', Or.inl he'⟩
      exact ih (f := { f with points := f.points ++ [(id, e)] }) hdim hnext

end Rep

/-! ## Each write -/

/-- A write that ended: the oracle's answer, and a ledger that is still in
    step and to which the write was applied, by a commit unless it changes
    nothing. -/
def Written (metric : Metric) (dimension : Dimension) (l : Ledger) (f : FlatIndex) (c : FlatWrite)
    (w : World FlatStore) (a : FlatAnswer) (w' : World FlatStore) : Prop :=
  w'.plan.how = w.plan.how ∧ (f.write c).1 = .ok a ∧
    ∃ l', Rep metric dimension l' w'.state ∧ InStep metric dimension l' (f.write c).2 ∧
      l'.contents = c.apply l.contents ∧
      (w'.commits = w.commits + 1 ∨ (w'.commits = w.commits ∧ l'.contents = l.contents))

/-- A write that did not end: refused as by the oracle with nothing touched,
    or interrupted before its commit. -/
def Unwritten (metric : Metric) (dimension : Dimension) (l : Ledger) (f : FlatIndex)
    (c : FlatWrite) (w : World FlatStore) (r : Halt StorageError) (w' : World FlatStore) : Prop :=
  (w' = w ∧ ∃ e, r = .err (.index e) ∧ f.write c = (.error e, f)) ∨
    (Halted w r w' ∧ ∃ junk, OnDisk metric dimension l junk w'.state.disk)

variable {metric : Metric} {dimension : Dimension} {l : Ledger} {f : FlatIndex}
  {w : World FlatStore}

theorem contents_add (l : Ledger) {items : List (VectorId × Embedding)}
    (hnodup : (items.map Prod.fst).Nodup) :
    (l.add items).contents = (FlatWrite.insertBatch items).apply l.contents := by
  funext id
  simp only [FlatWrite.apply]
  cases hlookup : items.lookup id with
  | some e =>
    have hmem : (id, e) ∈ items := by
      obtain ⟨l₁, l₂, heq, _⟩ := List.lookup_eq_some_iff.mp hlookup
      rw [heq]
      simp
    exact l.contents_add_of_mem hnodup hmem
  | none =>
    have hid : id ∉ items.map Prod.fst := by
      intro hmem
      obtain ⟨p, hp, rfl⟩ := List.mem_map.mp hmem
      have := List.lookup_eq_none_iff.mp hlookup p hp
      simp at this
    rw [l.contents_add_of_notMem hid]
    rfl

/-- Items that the oracle takes are appended. -/
theorem ends_appendItems_oracle (hrep : Rep metric dimension l w.state)
    (hstep : InStep metric dimension l f) {items : List (VectorId × Embedding)} {f' : FlatIndex}
    (hall : f.insertAll items = (.ok (), f')) :
    ends (w.state.appendItems items)
      (fun _ w' => w'.commits = w.commits + 1 ∧ w'.plan.how = w.plan.how ∧
        Rep metric dimension (l.add items) w'.state ∧ InStep metric dimension (l.add items) f' ∧
        (l.add items).contents = (FlatWrite.insertBatch items).apply l.contents)
      (fun r w' => Halted w r w' ∧ ∃ junk, OnDisk metric dimension l junk w'.state.disk) w := by
  obtain ⟨hinv, hmetric, hdimension, hpoints⟩ := FlatIndex.insertAll_ok hstep.inv hall
  have hkeys := hinv.nodup
  rw [hpoints, List.map_append, List.nodup_append] at hkeys
  obtain ⟨_, hnodup, hdisjoint⟩ := hkeys
  have hdims : ∀ p ∈ items, p.2.dimension = dimension.get := by
    intro p hp
    rw [hinv.dims p (by rw [hpoints]; exact List.mem_append_right _ hp), hdimension,
      hstep.dimension_eq]
  have hnew : ∀ p ∈ items, l.slots.get p.1 = none := by
    intro p hp
    by_contra hne
    obtain ⟨e, he⟩ := (hstep.exists_iff p.1).mpr (Option.isSome_iff_ne_none.mpr hne)
    have hold : p.1 ∈ f.points.map Prod.fst := List.mem_map.mpr ⟨(p.1, e), he, rfl⟩
    exact hdisjoint p.1 hold p.1 (List.mem_map_of_mem hp) rfl
  apply ends_mono (FlatStore.ends_appendItems rfl hrep hdims hnodup hnew)
  · intro _ w' hend'
    obtain ⟨hcommits, hhow, hrep'⟩ := hend'
    have hstep' := hstep.add (hmetric.trans hstep.metric_eq)
      (hdimension.trans hstep.dimension_eq) hinv hpoints hnodup hnew
    exact ⟨hcommits, hhow, hrep', hstep', contents_add l hnodup⟩
  · intro r w' h
    exact h

theorem ends_insertBatch (hrep : Rep metric dimension l w.state)
    (hstep : InStep metric dimension l f) (items : List (VectorId × Embedding)) :
    ends (FlatStore.write (.insertBatch items)) (Written metric dimension l f (.insertBatch items) w)
      (Unwritten metric dimension l f (.insertBatch items) w) w := by
  simp only [FlatStore.write, ends_bind, FlatStore.insertBatch_eq]
  split
  · -- an empty batch writes nothing
    rename_i hempty
    obtain rfl : items = [] := List.isEmpty_iff.mp hempty
    exact ⟨rfl, rfl, l, hrep, hstep, rfl, Or.inr ⟨rfl, rfl⟩⟩
  · simp only [ends_bind, ends_get]
    have hstored : ∀ id, (∃ e, (id, e) ∈ f.points) ↔
        id ∈ [] ∨ (l.slots.get id).isSome = true := by
      intro id
      rw [hstep.exists_iff]
      simp
    rw [hrep.validateItems hstep.dimension_eq hstored]
    cases hall : f.insertAll items with
    | mk verdict f' =>
      cases verdict with
      | error e =>
        refine Or.inl ⟨rfl, e, rfl, ?_⟩
        simp only [FlatIndex.write, FlatIndex.insertBatch, hall]
        rfl
      | ok u =>
        simp only [liftExcept_ok, ends_pure]
        apply ends_mono (ends_appendItems_oracle hrep hstep hall)
        · intro _ w' hend'
          obtain ⟨hcommits, hhow, hrep', hstep', hcontents⟩ := hend'
          refine ⟨hhow, ?_, l.add items, hrep', ?_, hcontents, Or.inl hcommits⟩
          · simp only [FlatIndex.write, FlatIndex.insertBatch, hall]
            rfl
          · simp only [FlatIndex.write, FlatIndex.insertBatch, hall]
            exact hstep'
        · intro r w' h
          exact Or.inr h

theorem ends_insert (hrep : Rep metric dimension l w.state)
    (hstep : InStep metric dimension l f) (id : VectorId) (e : Embedding) :
    ends (FlatStore.write (.insert id e)) (Written metric dimension l f (.insert id e) w)
      (Unwritten metric dimension l f (.insert id e) w) w := by
  simp only [FlatStore.write, ends_bind, FlatStore.insert_eq, ends_get, hrep.dimension_eq,
    hrep.catalog, CatalogDb.contains_stored]
  have hdim := hstep.dimension_eq
  have hlive := hstep.exists_iff id
  rcases f.insert_cases id e with ⟨hne, heq⟩ | ⟨hedim, hdup, heq⟩ | ⟨hedim, hnew, heq⟩
  · rw [if_pos (by rw [← hdim]; exact hne)]
    refine Or.inl ⟨rfl, _, rfl, ?_⟩
    simp only [FlatIndex.write, heq, hdim]
    rfl
  · rw [if_neg (by rw [← hdim]; exact not_not.mpr hedim), hlive.mp hdup]
    simp only [liftExcept_ok, ends_bind, ends_pure, if_true]
    refine Or.inl ⟨rfl, _, rfl, ?_⟩
    simp only [FlatIndex.write, heq]
    rfl
  · have hfree : (l.slots.get id).isSome = false := by
      apply Bool.eq_false_of_not_eq_true
      rw [← hlive]
      rintro ⟨e', he'⟩
      exact hnew e' he'
    rw [if_neg (by rw [← hdim]; exact not_not.mpr hedim), hfree]
    simp only [liftExcept_ok, ends_bind, ends_pure, Bool.false_eq_true, if_false]
    have hall : f.insertAll [(id, e)] = (.ok (), (f.insert id e).2) := by
      simp only [FlatIndex.insertAll, heq]
    apply ends_mono (ends_appendItems_oracle hrep hstep hall)
    · intro _ w' hend'
      obtain ⟨hcommits, hhow, hrep', hstep', hcontents⟩ := hend'
      refine ⟨hhow, ?_, l.add [(id, e)], hrep', ?_, ?_, Or.inl hcommits⟩
      · simp only [FlatIndex.write, heq]
        rfl
      · simp only [FlatIndex.write]
        exact hstep'
      · -- a batch of one item is an insert
        rw [hcontents]
        funext id'
        simp only [FlatWrite.apply, List.lookup_cons, List.lookup_nil, Function.update_apply]
        by_cases hid : id' = id
        · simp [hid]
        · have hne : (id' == id) = false := beq_eq_false_iff_ne.mpr hid
          simp only [hne, if_neg hid, Option.none_or]
    · intro r w' h
      exact Or.inr h

theorem ends_remove (hrep : Rep metric dimension l w.state)
    (hstep : InStep metric dimension l f) (id : VectorId) :
    ends (FlatStore.write (.remove id)) (Written metric dimension l f (.remove id) w)
      (Unwritten metric dimension l f (.remove id) w) w := by
  have hlive := hstep.exists_iff id
  simp only [FlatStore.write, FlatStore.remove, FlatStore.onCatalog, FlatStore.assign, ends_bind,
    ends_zoom]
  apply ends_mono (Catalog.ends_removeSlot hrep.catalog)
  · intro existed w₁ hend₁
    obtain ⟨hcommits, hhow, hexisted, hdb⟩ := hend₁
    have hdisk : ∀ disk : FlatDisk, disk = { w.state.disk with catalog := some w₁.state } →
        OnDisk metric dimension (l.erase id) [] disk := by
      rintro _ rfl
      exact
        { catalog := by rw [hdb]; rfl
          segment := hrep.disk.segment
          dims := hrep.disk.dims
          fits := hrep.disk.fits }
    have hcontents : (l.erase id).contents = (FlatWrite.remove id).apply l.contents := by
      funext id'
      rw [l.contents_erase, FlatWrite.apply, Function.update_apply]
    cases hget : l.slots.get id with
    | none =>
      -- nothing was stored, so the slot table is as it was
      rw [hget] at hexisted hlive
      subst hexisted
      have hnot : ∀ e, (id, e) ∉ f.points := fun e he => by simpa using hlive.mp ⟨e, he⟩
      rcases f.remove_cases id with ⟨⟨e, he⟩, _⟩ | ⟨_, heq⟩
      · exact absurd he (hnot e)
      have hsame : ∀ id', (l.erase id).contents id' = l.contents id' := by
        intro id'
        rw [l.contents_erase]
        split
        · rename_i hid
          rw [hid, Ledger.contents, hget]
          rfl
        · rfl
      have hlen : (l.erase id).slots.len = l.slots.len := OrderedTable.len_erase_none _ hget
      simp only [Option.isSome_none, Bool.false_eq_true, if_false, ends_pure]
      refine ⟨hhow, ?_, l.erase id, ?_, ?_, hcontents, Or.inl hcommits⟩
      · simp only [FlatIndex.write, heq]
        rfl
      · exact
          { metric_eq := hrep.metric_eq
            dimension_eq := hrep.dimension_eq
            disk := hdisk _ rfl
            recordCount := hrep.recordCount
            liveCount := hrep.liveCount.trans hlen.symm
            mapped_le := hrep.mapped_le
            mapped := hrep.mapped
            tail := hrep.tail }
      · simp only [FlatIndex.write, heq]
        exact hstep.congr hsame
    | some slot =>
      rw [hget] at hexisted hlive
      subst hexisted
      have hmem := hlive.mpr rfl
      rcases f.remove_cases id with ⟨_, heq⟩ | ⟨hnot, _⟩
      swap
      · obtain ⟨e, he⟩ := hmem
        exact absurd he (hnot e)
      have hlen := OrderedTable.len_erase l.slots hget
      have hinv := FlatIndex.inv_remove hstep.inv id
      rw [heq] at hinv
      simp only [Option.isSome_some, if_true, ends_bind, ends_modify, ends_pure]
      refine ⟨hhow, ?_, l.erase id, ?_, ?_, hcontents, Or.inl hcommits⟩
      · simp only [FlatIndex.write, heq]
        rfl
      · exact
          { metric_eq := hrep.metric_eq
            dimension_eq := hrep.dimension_eq
            disk := hdisk _ rfl
            recordCount := hrep.recordCount
            liveCount := by
              show w.state.index.liveCount - 1 = (l.slots.erase id).len
              have hlive' := hrep.liveCount
              omega
            mapped_le := hrep.mapped_le
            mapped := hrep.mapped
            tail := hrep.tail }
      · simp only [FlatIndex.write, heq]
        exact
          { metric_eq := hstep.metric_eq
            dimension_eq := hstep.dimension_eq
            inv := hinv
            points := by
              intro id' e
              rw [FlatIndex.mem_eraseP_iff hstep.inv.nodup, l.contents_erase, hstep.points]
              by_cases hid : id' = id
              · simp [hid]
              · simp [hid] }
  · intro r w₁ hend₁
    obtain ⟨hstop, hkept⟩ := hend₁
    refine Or.inr ⟨⟨hstop.cause, hstop.commits⟩, [], ?_⟩
    exact
      { catalog := by rw [hkept]
        segment := hrep.disk.segment
        dims := hrep.disk.dims
        fits := hrep.disk.fits }

theorem ends_checkpoint (hrep : Rep metric dimension l w.state)
    (hstep : InStep metric dimension l f) :
    ends (FlatStore.write .checkpoint) (Written metric dimension l f .checkpoint w)
      (Unwritten metric dimension l f .checkpoint w) w := by
  have hstride : w.state.index.segment.stride = dimension.get * 4 := hrep.mapped.stride
  have hlen := length_layout metric [] hrep.disk.uniform
  rw [List.length_map] at hlen
  have hseg : (⟨(w.state.disk.segment, w.state.index.segment), w.plan, w.commits⟩ :
      World (File × Segment)).state =
        (some (layout metric dimension (l.recs.map Embedding.values) []),
          w.state.index.segment) := by
    rw [← hrep.disk.segment]
  simp only [FlatStore.write, FlatStore.checkpoint, FlatStore.onSegment, FlatStore.assign,
    ends_bind, ends_get, ends_zoom, ends_modify, ends_pure]
  apply ends_mono (Segment.ends_remap _ _ hseg
    (by rw [hstride, hrep.recordCount, hlen, List.length_nil, Nat.add_zero]) hrep.disk.fits)
  · intro _ w₁ hend₁
    obtain ⟨hlater, hmapped⟩ := hend₁
    refine ⟨hlater.how, rfl, l, ?_, hstep, rfl, Or.inr ⟨hlater.commits, rfl⟩⟩
    rw [hmapped]
    exact
      { metric_eq := hrep.metric_eq
        dimension_eq := hrep.dimension_eq
        disk :=
          { catalog := hrep.disk.catalog
            segment := rfl
            dims := hrep.disk.dims
            fits := hrep.disk.fits }
        recordCount := hrep.recordCount
        liveCount := hrep.liveCount
        mapped_le := le_of_eq hrep.recordCount
        mapped :=
          { dim := hrep.mapped.dim
            count := rfl
            map := ⟨_, rfl, by rw [hlen, hrep.recordCount, List.length_nil, Nat.add_zero]⟩ }
        tail := by simp [hrep.recordCount] }
  · intro r w₁ hend₁
    obtain ⟨hstop, hkept⟩ := hend₁
    refine Or.inr ⟨⟨hstop.cause, hstop.commits⟩, [], ?_⟩
    exact
      { catalog := hrep.disk.catalog
        segment := by rw [hkept]
        dims := hrep.disk.dims
        fits := hrep.disk.fits }

/-- Every write, in one statement. -/
theorem ends_write (hrep : Rep metric dimension l w.state) (hstep : InStep metric dimension l f)
    (c : FlatWrite) :
    ends (FlatStore.write c) (Written metric dimension l f c w)
      (Unwritten metric dimension l f c w) w := by
  cases c with
  | insert id e => exact ends_insert hrep hstep id e
  | insertBatch items => exact ends_insertBatch hrep hstep items
  | remove id => exact ends_remove hrep hstep id
  | checkpoint => exact ends_checkpoint hrep hstep

end EidosDB
