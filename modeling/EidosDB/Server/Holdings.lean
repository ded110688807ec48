import EidosDB.Server.Layout
import EidosDB.Server.StoreParity

/-! # What a Directory Holds

    The files of a directory hold a collection in memory.  A new collection is
    made of a directory without files, and one that was closed is opened from
    its files: in both cases the handle and the directory stand for the
    collection together. -/

namespace EidosDB

open Effect

namespace CollectionDir

variable {codecs : ServerCodecs} {payload : Codec Payload} {metadata : CollectionMeta}
  {self : CollectionDir}

/-! ## Handles and files -/

@[simp] theorem mount_withFiles (self : CollectionDir) (kind : StoredKind) :
    (self.withFiles kind).mount (live kind) = kind := by
  cases kind <;> rfl

@[simp] theorem metaFile_withFiles (self : CollectionDir) (kind : StoredKind) :
    (self.withFiles kind).metaFile = self.metaFile := by
  cases kind <;> rfl

/-- The documents and payloads are in their files. -/
structure RowsStandFor (codecs : ServerCodecs) (payload : Codec Payload) (dir : CollectionDir)
    (documents : InMemoryLexicalIndex) (payloads : InMemoryPayloadStore) : Prop where
  lexical : (dir.lexical.getD .fresh).StandsFor codecs.lexical documents
  payload : (dir.payload.getD .fresh).payloads = payloads.payloads.mapValues payload.encode

/-- The collection is in the files, whether or not it is open. -/
def StandsFor (codecs : ServerCodecs) (payload : Codec Payload) (metadata : CollectionMeta)
    (self : CollectionDir) : MemoryKind → Prop
  | .flat c =>
      self.flatDisk.StandsFor metadata.metric metadata.dimension c.index ∧
        self.RowsStandFor codecs payload c.lexical c.payloads
  | .hnsw c =>
      self.hnswDisk.StandsFor codecs.hnsw (metadata.hnsw.getD .default) metadata.dimension
          c.index.index ∧
        self.RowsStandFor codecs payload c.lexical c.payloads

/-- What stands for a collection with a handle stands for it without one, if
    its vectors are at their places. -/
theorem standsFor_of_mount {live : LiveKind} {kind : MemoryKind}
    (h : metadata.StandsFor codecs payload (self.mount live) kind)
    (hplaced : kind.isPlaced = true) (holder : Option IndexTypeChoice) :
    (self.heldBy holder).StandsFor codecs payload metadata kind := by
  obtain ⟨hstores, -⟩ := h
  cases live with
  | flat c =>
    cases kind with
    | flat c' =>
      obtain ⟨hindex, hlexical, hpayloads⟩ := hstores
      exact ⟨FlatDisk.standsFor_of_store hindex, ⟨_, hlexical⟩, hpayloads.rows⟩
    | hnsw c' => exact absurd hstores id
  | hnsw c =>
    cases kind with
    | flat c' => exact absurd hstores id
    | hnsw c' =>
      obtain ⟨hindex, hlexical, hpayloads⟩ := hstores
      exact ⟨HnswDisk.standsFor_of_store hindex hplaced, ⟨_, hlexical⟩, hpayloads.rows⟩

/-! ## Opening -/

/-- Opening the lexical file and the payload file keeps the files of the index
    and reads what they hold. -/
theorem finishes_openStores_standsFor {I : Type} {index : I}
    {kind : Collection I PersistentLexicalIndex PersistentPayloadStore → LiveKind}
    {documents : InMemoryLexicalIndex} {payloads : InMemoryPayloadStore}
    (h : self.RowsStandFor codecs payload documents payloads) (hfree : self.holder = none) :
    Finishes (openStores codecs kind index) self fun live self' => ∃ lexical store,
      live = kind { index := index, lexical := lexical, payloads := store } ∧
      self'.flatDisk = self.flatDisk ∧ self'.hnswDisk = self.hnswDisk ∧
      LexicalStore.Mirrors codecs.lexical ⟨self'.lexical.getD .fresh, lexical⟩ documents ∧
      StoredPayloads.StandsFor payload ⟨self'.payload.getD .fresh, store⟩ payloads := by
  have hnot : ¬ self.holder.isSome = true := by simp [hfree]
  have hopen : Finishes (openLexical codecs) self fun lexical self' => ∃ db,
      self' = { self with lexical := some db } ∧
      LexicalStore.Mirrors codecs.lexical ⟨db, lexical⟩ documents := by
    unfold openLexical
    apply finishes_get
    rw [if_neg hnot]
    apply finishes_zoom
    apply finishes_mono (LexicalDb.finishes_openAt_standsFor h.lexical)
    rintro lexical _ ⟨db, rfl, hmirrors⟩
    exact ⟨db, rfl, hmirrors⟩
  unfold openStores
  refine finishes_bind _ (finishes_mapErr hopen) ?_
  rintro lexical _ ⟨db, rfl, hmirrors⟩
  have hpayload : Finishes openPayload { self with lexical := some db } fun store self' => ∃ rows,
      self' = { self with lexical := some db, payload := some rows } ∧
      StoredPayloads.StandsFor payload ⟨rows, store⟩ payloads := by
    unfold openPayload
    apply finishes_get
    rw [if_neg hnot]
    apply finishes_zoom
    apply finishes_mono (PayloadDb.finishes_openAt_standsFor h.payload)
    rintro store _ ⟨rows, rfl, hstands⟩
    exact ⟨rows, rfl, hstands⟩
  refine finishes_bind _ (finishes_mapErr hpayload) ?_
  rintro store _ ⟨rows, rfl, hstands⟩
  refine finishes_bind _ (finishes_modify (Q := fun _ self' => self' = _) rfl) ?_
  rintro _ _ rfl
  exact finishes_pure ⟨lexical, store, rfl, rfl, rfl, hmirrors, hstands⟩

/-- A flat index, then the other stores. -/
theorem finishes_flat_standsFor {m : Effect StorageError CollectionDir PersistentFlatIndex}
    {c : Collection FlatIndex InMemoryLexicalIndex InMemoryPayloadStore}
    (hkind : metadata.indexType = .flat)
    (h : Finishes m self fun index self' =>
      FlatStore.StandsFor metadata.metric metadata.dimension ⟨self'.flatDisk, index⟩ c.index ∧
      self'.holder = none ∧ self'.RowsStandFor codecs payload c.lexical c.payloads) :
    Finishes (do
        let index ← mapErr StorageError.toServerError m
        openStores codecs .flat index) self fun live self' =>
      metadata.StandsFor codecs payload (self'.mount live) (.flat c) := by
  refine finishes_bind _ (finishes_mapErr h) ?_
  rintro index self₁ ⟨hstands, hfree, hrows⟩
  apply finishes_mono (finishes_openStores_standsFor hrows hfree)
  rintro _ self' ⟨lexical, store, rfl, hflat, -, hmirrors, hpayloads⟩
  rw [← hflat] at hstands
  exact ⟨⟨hstands, hmirrors, hpayloads⟩, hkind.symm⟩

/-- A graph index, then the other stores. -/
theorem finishes_hnsw_standsFor {m : Effect StorageError CollectionDir PersistentHnswIndex}
    {c : Collection PlacedGraph InMemoryLexicalIndex InMemoryPayloadStore}
    (hkind : metadata.indexType = .hnsw)
    (h : Finishes m self fun index self' =>
      PlacedGraph.StandsOnDisk codecs.hnsw (metadata.hnsw.getD .default) metadata.dimension
        ⟨self'.hnswDisk, index⟩ c.index ∧
      self'.holder = none ∧ self'.RowsStandFor codecs payload c.lexical c.payloads) :
    Finishes (do
        let index ← mapErr StorageError.toServerError m
        openStores codecs .hnsw index) self fun live self' =>
      metadata.StandsFor codecs payload (self'.mount live) (.hnsw c) := by
  refine finishes_bind _ (finishes_mapErr h) ?_
  rintro index self₁ ⟨hstands, hfree, hrows⟩
  apply finishes_mono (finishes_openStores_standsFor hrows hfree)
  rintro _ self' ⟨lexical, store, rfl, -, hhnsw, hmirrors, hpayloads⟩
  rw [← hhnsw] at hstands
  exact ⟨⟨hstands, hmirrors, hpayloads⟩, hkind.symm⟩

/-- A flat index can be opened if nobody holds it. -/
theorem finishes_openFlatIndex {metric : Metric} {dimension : Dimension}
    {Q : PersistentFlatIndex → CollectionDir → Prop} (hfree : self.holder = none)
    (h : Finishes (FlatDisk.openAt metric dimension) self.flatDisk fun index disk =>
      Q index { self with catalog := disk.catalog, segment := disk.segment }) :
    Finishes (openFlatIndex metric dimension) self Q := by
  unfold openFlatIndex
  apply finishes_get
  rw [hfree, if_neg (by decide)]
  exact finishes_zoom h

theorem finishes_createHnswIndex {config : HnswConfig} {dimension : Dimension}
    {Q : PersistentHnswIndex → CollectionDir → Prop} (hfree : self.holder = none)
    (h : Finishes (HnswDisk.create codecs.hnsw config dimension) self.hnswDisk fun index disk =>
      Q index { self with graph := disk.catalog, segment := disk.segment }) :
    Finishes (createHnswIndex codecs config dimension) self Q := by
  unfold createHnswIndex
  apply finishes_get
  rw [hfree, if_neg (by decide)]
  exact finishes_zoom h

theorem finishes_openHnswIndex {Q : PersistentHnswIndex → CollectionDir → Prop}
    (hfree : self.holder = none)
    (h : Finishes (HnswDisk.openAt codecs.hnsw) self.hnswDisk fun index disk =>
      Q index { self with graph := disk.catalog, segment := disk.segment }) :
    Finishes (openHnswIndex codecs) self Q := by
  unfold openHnswIndex
  apply finishes_get
  rw [hfree, if_neg (by decide)]
  exact finishes_zoom h

/-- A directory without files is made a new collection. -/
theorem finishes_instantiate_new (codecs : ServerCodecs) (payload : Codec Payload)
    (metadata : CollectionMeta) (metaFile : File) :
    Finishes (instantiate codecs metadata) { empty with metaFile := metaFile } fun live self' =>
      metadata.StandsFor codecs payload (self'.mount live) metadata.newKind := by
  have hlexical : LexicalDb.StandsFor codecs.lexical .fresh .new :=
    ⟨_, LexicalStore.mirrors_fresh codecs.lexical⟩
  unfold instantiate CollectionMeta.newKind
  cases hkind : metadata.indexType with
  | flat =>
    apply finishes_flat_standsFor hkind
    apply finishes_openFlatIndex rfl
    exact finishes_mono (FlatDisk.finishes_openAt_new metadata.metric metadata.dimension)
      fun _ _ hstands => ⟨hstands, rfl, hlexical, rfl⟩
  | hnsw =>
    apply finishes_hnsw_standsFor hkind
    apply finishes_createHnswIndex rfl
    exact finishes_mono (HnswDisk.finishes_create_new codecs.hnsw _ metadata.dimension _)
      fun _ _ hstands => ⟨hstands, rfl, hlexical, rfl⟩

/-- A collection that nobody holds is opened from its files. -/
theorem finishes_reopen_standsFor {kind : MemoryKind} (hkind : kind.indexType = metadata.indexType)
    (hfree : self.holder = none) (h : self.StandsFor codecs payload metadata kind) :
    Finishes (reopen codecs metadata) self fun live self' =>
      metadata.StandsFor codecs payload (self'.mount live) kind := by
  unfold reopen
  rw [← hkind]
  cases kind with
  | flat c =>
    obtain ⟨hindex, hrows⟩ := h
    apply finishes_flat_standsFor hkind.symm
    apply finishes_openFlatIndex hfree
    exact finishes_mono (FlatDisk.finishes_openAt_standsFor hindex)
      fun _ _ hstands => ⟨hstands, hfree, hrows.lexical, hrows.payload⟩
  | hnsw c =>
    obtain ⟨hindex, hrows⟩ := h
    apply finishes_hnsw_standsFor hkind.symm
    apply finishes_openHnswIndex hfree
    exact finishes_mono (HnswDisk.finishes_openAt_standsFor hindex _)
      fun _ _ hstands => ⟨hstands, hfree, hrows.lexical, hrows.payload⟩

end CollectionDir

end EidosDB
