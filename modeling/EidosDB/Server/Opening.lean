import EidosDB.Server.CollectionDir
import EidosDB.Storage.Reopening

/-! # Opening a Collection

    However the opening of a collection ends, it leaves the metadata of the
    directory alone.  It takes hold of the databases when it succeeds, and
    then nobody held them before and all files are there.  In a directory
    with nothing but metadata it succeeds unless it is interrupted, and the
    collection it makes can be opened again. -/

namespace EidosDB

open Effect

namespace CollectionDir

variable {codecs : ServerCodecs} {metadata : CollectionMeta}

/-! ## What the stores leave alone -/

/-- The parts of a directory no store writes. -/
def Frame (file : File) (holder : Option IndexTypeChoice) (self : CollectionDir) : Prop :=
  self.metaFile = file ∧ self.holder = holder

section frame

variable {file : File} {holder : Option IndexTypeChoice}

theorem keeps_onFlat {α : Type} (m : Effect StorageError FlatDisk α) :
    Keeps (Frame file holder) (onFlat m) :=
  keeps_zoom (fun _ h _ _ => h) fun _ h => h

theorem keeps_onHnsw {α : Type} (m : Effect StorageError HnswDisk α) :
    Keeps (Frame file holder) (onHnsw m) :=
  keeps_zoom (fun _ h _ _ => h) fun _ h => h

theorem keeps_openFlatIndex (metric : Metric) (dimension : Dimension) :
    Keeps (Frame file holder) (openFlatIndex metric dimension) := by
  unfold openFlatIndex
  apply keeps_get
  intro self _
  split
  · exact keeps_bind (keeps_onFlat _) fun _ => keeps_throw _
  · exact keeps_onFlat _

theorem keeps_createHnswIndex (config : HnswConfig) (dimension : Dimension) :
    Keeps (Frame file holder) (createHnswIndex codecs config dimension) := by
  unfold createHnswIndex
  apply keeps_get
  intro self _
  split
  · exact keeps_bind (keeps_onHnsw _) fun _ => keeps_throw _
  · exact keeps_onHnsw _

theorem keeps_openHnswIndex : Keeps (Frame file holder) (openHnswIndex codecs) := by
  unfold openHnswIndex
  apply keeps_get
  intro self _
  split
  · exact keeps_throw _
  · exact keeps_onHnsw _

theorem keeps_openLexical : Keeps (Frame file holder) (openLexical codecs) := by
  unfold openLexical
  apply keeps_get
  intro self _
  split
  · exact keeps_throw _
  · exact keeps_zoom (fun _ h _ _ => h) fun _ h => h

theorem keeps_openPayload : Keeps (Frame file holder) openPayload := by
  unfold openPayload
  apply keeps_get
  intro self _
  split
  · exact keeps_throw _
  · exact keeps_zoom (fun _ h _ _ => h) fun _ h => h

end frame

/-- The lexical file cannot be opened twice. -/
theorem leads_openLexical_free :
    Leads (fun _ => True) (openLexical codecs) fun _ self => self.holder = none := by
  unfold openLexical
  apply leads_get
  intro self _
  split
  · exact leads_throw _
  · next hfree =>
    have hnone : self.holder = none := by simpa using hfree
    apply leads_zoom
    rintro _ rfl
    exact leads_mono (leads_any _) (fun _ h => h) fun _ _ _ => hnone

/-! ## Taking hold -/

/-- A flat index that is open is not opened again. -/
theorem fails_openFlat (codecs : ServerCodecs) (metric : Metric) (dimension : Dimension)
    {dir : CollectionDir} (h : dir.holder = some .flat) :
    Fails (openFlat codecs metric dimension) dir fun dir' => dir' = dir := by
  unfold openFlat openFlatIndex
  apply fails_bind
  apply fails_mapErr
  apply fails_get
  rw [if_pos h]
  refine fails_then (fun _ dir' => dir' = dir) (finishes_zoom (finishes_durable rfl)) ?_
  rintro _ _ rfl
  exact fails_throw rfl

/-- How an opening that began with the directory `before` may end: it holds the
    databases, which nobody held, or it has changed files of the stores only. -/
def Holds (before : CollectionDir) (kind : IndexTypeChoice) (live : LiveKind)
    (after : CollectionDir) : Prop :=
  before.holder = none ∧ live.indexType = kind ∧ Frame before.metaFile (some kind) after

theorem ends_openStores {I : Type} (index : I)
    (kind : Collection I PersistentLexicalIndex PersistentPayloadStore → LiveKind)
    {choice : IndexTypeChoice} (hkind : ∀ c, (kind c).indexType = choice)
    {before : CollectionDir} {w : World CollectionDir}
    (h : Frame before.metaFile before.holder w.state) :
    ends (openStores codecs kind index) (fun live w' => Holds before choice live w'.state)
      (fun _ w' => Frame before.metaFile before.holder w'.state) w := by
  unfold openStores
  simp only [ends_bind, ends_mapErr, ends_modify, ends_pure]
  have hlexical := ends_of_keeps (@keeps_openLexical codecs before.metaFile before.holder) h
  have hfree := @leads_openLexical_free codecs w trivial
  apply ends_mono (ends_and hlexical hfree)
  · rintro lexical w₁ ⟨hframe, hnone⟩
    -- the lexical file was free, so all of them were
    have hbefore : before.holder = none := hframe.2.symm.trans hnone
    apply ends_mono (ends_of_keeps keeps_openPayload hframe)
    · intro payloads w₂ hpayload
      exact ⟨hbefore, hkind _, hpayload.1, congrArg some (hkind _)⟩
    · exact fun _ _ hend => hend
  · exact fun _ _ hend => hend.1

/-- An opening of the index and then of the stores. -/
theorem ends_index_stores {I : Type} {m : Effect StorageError CollectionDir I}
    (hm : ∀ file holder, Keeps (Frame file holder) m)
    (kind : Collection I PersistentLexicalIndex PersistentPayloadStore → LiveKind)
    {choice : IndexTypeChoice} (hkind : ∀ c, (kind c).indexType = choice)
    (w : World CollectionDir) :
    ends (do
        let index ← mapErr StorageError.toServerError m
        openStores codecs kind index)
      (fun live w' => Holds w.state choice live w'.state)
      (fun _ w' => Frame w.state.metaFile w.state.holder w'.state) w := by
  rw [ends_bind, ends_mapErr]
  apply ends_mono (ends_of_keeps (hm w.state.metaFile w.state.holder) ⟨rfl, rfl⟩)
  · intro index w₁ h
    exact ends_openStores index kind hkind h
  · exact fun _ _ h => h

theorem ends_instantiate (codecs : ServerCodecs) (metadata : CollectionMeta)
    (w : World CollectionDir) :
    ends (instantiate codecs metadata)
      (fun live w' => Holds w.state metadata.indexType live w'.state)
      (fun _ w' => Frame w.state.metaFile w.state.holder w'.state) w := by
  unfold instantiate openFlat createHnsw
  cases metadata.indexType with
  | flat => exact ends_index_stores (fun _ _ => keeps_openFlatIndex _ _) .flat (fun _ => rfl) w
  | hnsw => exact ends_index_stores (fun _ _ => keeps_createHnswIndex _ _) .hnsw (fun _ => rfl) w

theorem leads_instantiate_holds (codecs : ServerCodecs) (metadata : CollectionMeta)
    (before : CollectionDir) :
    Leads (fun self => self = before) (instantiate codecs metadata)
      fun live self => Holds before metadata.indexType live self := by
  rintro w rfl
  exact ends_mono (ends_instantiate codecs metadata w) (fun _ _ h => h) fun _ _ _ => trivial

theorem ends_reopen (codecs : ServerCodecs) (metadata : CollectionMeta)
    (w : World CollectionDir) :
    ends (reopen codecs metadata)
      (fun live w' => Holds w.state metadata.indexType live w'.state)
      (fun _ w' => Frame w.state.metaFile w.state.holder w'.state) w := by
  unfold reopen openFlat openHnsw
  cases metadata.indexType with
  | flat => exact ends_index_stores (fun _ _ => keeps_openFlatIndex _ _) .flat (fun _ => rfl) w
  | hnsw => exact ends_index_stores (fun _ _ => keeps_openHnswIndex) .hnsw (fun _ => rfl) w

/-! ## The files -/

/-- The files of a vector index are there. -/
def IndexThere (self : CollectionDir) : IndexTypeChoice → Prop
  | .flat => self.flatDisk.There
  | .hnsw => self.hnswDisk.There

/-- The files of a collection are there. -/
structure There (dir : CollectionDir) (kind : IndexTypeChoice) : Prop where
  index : dir.IndexThere kind
  lexical : dir.lexical.isSome = true
  payload : dir.payload.isSome = true

theorem leads_openStores {I : Type} (index : I)
    (kind : Collection I PersistentLexicalIndex PersistentPayloadStore → LiveKind)
    (choice : IndexTypeChoice) :
    Leads (fun self => self.IndexThere choice) (openStores codecs kind index)
      fun _ self => self.There choice := by
  have hlexical : Leads (fun self => self.IndexThere choice) (openLexical codecs)
      fun _ self => self.IndexThere choice ∧ self.lexical.isSome = true := by
    unfold openLexical
    apply leads_get
    intro self hindex
    split
    · exact leads_throw _
    · apply leads_zoom
      rintro _ rfl
      apply leads_mono (PersistentLexicalIndex.leads_openAt codecs.lexical) fun _ _ => trivial
      intro _ file hfile
      cases choice <;> exact ⟨hindex, hfile⟩
  have hpayload : Leads (fun self => self.IndexThere choice ∧ self.lexical.isSome = true)
      openPayload fun _ self => self.There choice := by
    unfold openPayload
    apply leads_get
    rintro self ⟨hindex, hthere⟩
    split
    · exact leads_throw _
    · apply leads_zoom
      rintro _ rfl
      apply leads_mono PersistentPayloadStore.leads_openAt fun _ _ => trivial
      intro _ file hfile
      cases choice <;> exact ⟨hindex, hthere, hfile⟩
  unfold openStores
  refine leads_bind _ (leads_mapErr hlexical) fun lexical => ?_
  refine leads_bind _ (leads_mapErr hpayload) fun payloads => ?_
  refine leads_bind (fun _ self => self.There choice) (leads_modify ?_) fun _ =>
    leads_pure fun _ h => h
  intro self hthere
  cases choice <;> exact ⟨hthere.index, hthere.lexical, hthere.payload⟩

/-- An opening that succeeds leaves all files there. -/
theorem leads_instantiate (codecs : ServerCodecs) (metadata : CollectionMeta) :
    Leads (fun _ => True) (instantiate codecs metadata)
      fun _ self => self.There metadata.indexType := by
  unfold instantiate
  cases metadata.indexType with
  | flat =>
    refine leads_bind (fun _ self => self.IndexThere .flat) (leads_mapErr ?_) fun _ =>
      leads_openStores _ _ _
    unfold openFlatIndex
    apply leads_get
    intro self _
    split
    · exact leads_bind _ (leads_any _) fun _ => leads_throw _
    · apply leads_zoom
      intro _ _
      exact leads_mono FlatDisk.leads_openAt (fun _ _ => trivial) fun _ _ h => h
  | hnsw =>
    refine leads_bind (fun _ self => self.IndexThere .hnsw) (leads_mapErr ?_) fun _ =>
      leads_openStores _ _ _
    unfold createHnswIndex
    apply leads_get
    intro self _
    split
    · exact leads_bind _ (leads_any _) fun _ => leads_throw _
    · apply leads_zoom
      intro _ _
      exact leads_mono HnswDisk.leads_create (fun _ _ => trivial) fun _ _ h => h

/-! ## Opening again -/

/-- The files of a collection from which a collection with the metadata can be
    opened again. -/
structure Ready (codecs : ServerCodecs) (metadata : CollectionMeta) (dir : CollectionDir) :
    Prop where
  flat : metadata.indexType = .flat → ∃ l junk,
    OnDisk metadata.metric metadata.dimension l junk dir.flatDisk
  hnsw : metadata.indexType = .hnsw → ∃ config dimension g recs junk,
    HnswOnDisk codecs.hnsw config dimension g recs junk dir.hnswDisk
  lexical : dir.lexical.getD .fresh = .fresh

/-- Nothing of a collection but perhaps its metadata. -/
structure Bare (dir : CollectionDir) : Prop where
  flatDisk : dir.flatDisk = .empty
  hnswDisk : dir.hnswDisk = .empty
  lexical : dir.lexical = none
  holder : dir.holder = none

/-- The collection is open, and its files can be opened again. -/
structure Serves (codecs : ServerCodecs) (metadata : CollectionMeta) (live : LiveKind)
    (dir : CollectionDir) : Prop where
  ready : dir.Ready codecs metadata
  indexType : live.indexType = metadata.indexType
  holder : dir.holder = some metadata.indexType

theorem ready_lexical {metadata : CollectionMeta} {self : CollectionDir}
    (h : self.Ready codecs metadata) (lexical : Option LexicalDb) (payload : Option PayloadDb)
    (holder : Option IndexTypeChoice) (hlexical : lexical.getD .fresh = .fresh) :
    Ready codecs metadata { self with lexical := lexical, payload := payload, holder := holder } :=
  ⟨h.flat, h.hnsw, hlexical⟩

/-- The stores of a free directory can be opened. -/
theorem finishes_openStores {I : Type} (index : I)
    (kind : Collection I PersistentLexicalIndex PersistentPayloadStore → LiveKind)
    (hkind : ∀ c, (kind c).indexType = metadata.indexType) {self : CollectionDir}
    (h : self.Ready codecs metadata) (hfree : self.holder = none) :
    Finishes (openStores codecs kind index) self
      fun live self' => self'.Serves codecs metadata live := by
  have hnot : ¬ self.holder.isSome = true := by simp [hfree]
  have hopen : Finishes (openLexical codecs) self
      fun _ self' => self' = { self with lexical := some .fresh } := by
    unfold openLexical
    apply finishes_get
    rw [if_neg hnot]
    apply finishes_zoom
    exact finishes_mono (PersistentLexicalIndex.finishes_openAt_fresh codecs.lexical h.lexical)
      fun _ file hfile => by rw [hfile]
  unfold openStores
  refine finishes_bind _ (finishes_mapErr hopen) ?_
  rintro lexical _ rfl
  have hpayload : Finishes openPayload { self with lexical := some .fresh }
      fun _ self' => self' =
        { self with lexical := some .fresh, payload := some (self.payload.getD .fresh) } := by
    unfold openPayload
    apply finishes_get
    rw [if_neg hnot]
    apply finishes_zoom
    exact finishes_mono (PersistentPayloadStore.finishes_openAt self.payload)
      fun _ file hfile => by rw [hfile]
  refine finishes_bind _ (finishes_mapErr hpayload) ?_
  rintro payloads _ rfl
  refine finishes_bind _ (finishes_modify (Q := fun _ self' => self' = _) rfl) ?_
  rintro _ _ rfl
  apply finishes_pure
  exact ⟨ready_lexical h _ _ _ rfl, hkind _, congrArg some (hkind _)⟩

/-- A bare directory that may hold metadata can be made a collection. -/
theorem finishes_instantiate {self : CollectionDir} (h : self.Bare) :
    Finishes (instantiate codecs metadata) self
      fun live self' => self'.Serves codecs metadata live := by
  unfold instantiate
  cases hchoice : metadata.indexType with
  | flat =>
    have hindex : Finishes (openFlatIndex metadata.metric metadata.dimension) self
        fun _ self' => self'.Ready codecs metadata ∧ self'.holder = none := by
      unfold openFlatIndex
      apply finishes_get
      rw [h.holder, if_neg (by decide)]
      apply finishes_zoom
      rw [h.flatDisk]
      apply finishes_mono (FlatDisk.finishes_openAt_empty metadata.metric metadata.dimension)
      intro index disk hrep
      refine ⟨⟨fun _ => ⟨_, _, hrep.disk⟩, fun hhnsw => ?_, ?_⟩, h.holder⟩
      · rw [hchoice] at hhnsw
        cases hhnsw
      · rw [h.lexical]
        rfl
    refine finishes_bind _ (finishes_mapErr hindex) ?_
    rintro index self' ⟨hready, hfree⟩
    exact finishes_openStores index .flat (fun _ => hchoice.symm) hready hfree
  | hnsw =>
    have hindex : Finishes (createHnswIndex codecs (metadata.hnsw.getD .default)
        metadata.dimension) self
        fun _ self' => self'.Ready codecs metadata ∧ self'.holder = none := by
      unfold createHnswIndex
      apply finishes_get
      rw [h.holder, if_neg (by decide)]
      apply finishes_zoom
      rw [h.hnswDisk]
      apply finishes_mono (HnswDisk.finishes_create rfl fun _ => rfl)
      intro index disk hrep
      refine ⟨⟨fun hflat => ?_, fun _ => ⟨_, _, _, _, _, hrep.disk⟩, ?_⟩, h.holder⟩
      · rw [hchoice] at hflat
        cases hflat
      · rw [h.lexical]
        rfl
    refine finishes_bind _ (finishes_mapErr hindex) ?_
    rintro index self' ⟨hready, hfree⟩
    exact finishes_openStores index .hnsw (fun _ => hchoice.symm) hready hfree

/-- A collection that nobody holds can be opened again. -/
theorem finishes_reopen {self : CollectionDir} (h : self.Ready codecs metadata)
    (hfree : self.holder = none) : Finishes (reopen codecs metadata) self
      fun live self' => self'.Serves codecs metadata live := by
  unfold reopen
  cases hchoice : metadata.indexType with
  | flat =>
    obtain ⟨l, junk, hdisk⟩ := h.flat hchoice
    have hindex : Finishes (openFlatIndex metadata.metric metadata.dimension) self
        fun _ self' => self'.Ready codecs metadata ∧ self'.holder = none := by
      unfold openFlatIndex
      apply finishes_get
      rw [hfree, if_neg (by decide)]
      apply finishes_zoom
      apply finishes_mono (FlatDisk.finishes_openAt_onDisk hdisk)
      intro index disk hrep
      refine ⟨⟨fun _ => ⟨_, _, hrep.disk⟩, fun hhnsw => ?_, h.lexical⟩, hfree⟩
      rw [hchoice] at hhnsw
      cases hhnsw
    refine finishes_bind _ (finishes_mapErr hindex) ?_
    rintro index self' ⟨hready, hfree'⟩
    exact finishes_openStores index .flat (fun _ => hchoice.symm) hready hfree'
  | hnsw =>
    obtain ⟨config, dimension, g, recs, junk, hdisk⟩ := h.hnsw hchoice
    have hindex : Finishes (openHnswIndex codecs) self
        fun _ self' => self'.Ready codecs metadata ∧ self'.holder = none := by
      unfold openHnswIndex
      apply finishes_get
      rw [hfree, if_neg (by decide)]
      apply finishes_zoom
      apply finishes_mono (HnswDisk.finishes_openAt_onDisk hdisk)
      intro index disk hrep
      refine ⟨⟨fun hflat => ?_, fun _ => ⟨_, _, _, _, _, hrep.disk⟩, h.lexical⟩, hfree⟩
      rw [hchoice] at hflat
      cases hflat
    refine finishes_bind _ (finishes_mapErr hindex) ?_
    rintro index self' ⟨hready, hfree'⟩
    exact finishes_openStores index .hnsw (fun _ => hchoice.symm) hready hfree'

end CollectionDir

end EidosDB
