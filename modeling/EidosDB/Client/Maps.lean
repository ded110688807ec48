import EidosDB.Client.Sessions
import EidosDB.Query.Refinement

/-! # Sessions on Maps

    What flat collections are for: each is a map from ids to entries.  The
    calls of a client are defined on the maps, without indexes, stores or
    orders; a search considers every entry and keeps the best.  As long as no
    graph is created and no hybrid search is made, a client of the server is
    told what the maps say. -/

namespace EidosDB

open Effect

/-! ## The maps -/

/-- A flat collection. -/
structure MapCollection where
  metadata : CollectionMeta
  entries : EntryMap

abbrev Maps := OrderedTable String MapCollection

namespace MapCollection

variable (U : Unicode) (f32 : F32Ops) (ops : F64Ops)

/-- Points that are put one after the other; `none` if the token counters
    overflow. -/
def putEach : EntryMap → List DecodedPoint → Option EntryMap
  | m, [] => some m
  | m, d :: rest =>
    if m.fits U d.id d.document then
      putEach (m.insert d.id
        { embedding := d.embedding, document := d.document, payload := d.payload }) rest
    else none

/-- Points that are put together, if all have the dimension. -/
def putPoints (points : List DecodedPoint) (self : MapCollection) :
    Option (Except Status Unit × EntryMap) :=
  match ensureDimension points self.metadata.dimension.get with
  | .error status => some (.error status, self.entries)
  | .ok () => (putEach U self.entries points).map fun m => (.ok (), m)

/-- Chunks that are put one after the other; `n` points were before them. -/
def putChunks : Nat → List (List DecodedPoint) → MapCollection →
    Option (Except Status Nat × EntryMap)
  | n, [], self => some (.ok n, self.entries)
  | n, chunk :: rest, self =>
    match putPoints U chunk self with
    | none => none
    | some (.error status, m) => some (.error status, m)
    | some (.ok (), m) => putChunks (n + chunk.length) rest { self with entries := m }

/-- The best of the entries that the filter allows. -/
def search (query : SearchQuery) (self : MapCollection) : Except Status (List SearchHit) :=
  if query.embedding.dimension ≠ self.metadata.dimension.get then
    .error (EidosDbHandler.queryDimensionMismatch self.metadata.dimension.get
      query.embedding.dimension)
  else
    (self.entries.search f32 ops self.metadata.metric self.metadata.dimension query).mapError
      queryErrorToStatus

end MapCollection

namespace Maps

variable (U : Unicode) (f32 : F32Ops) (ops : F64Ops)

/-- A call on the map of this name. -/
def write {α : Type} (answer : α → ClientAnswer) (name : String)
    (f : MapCollection → Option (Except Status α × EntryMap)) (maps : Maps) :
    Option (Except ClientError ClientAnswer × Maps) :=
  match maps.get name with
  | none => some (.error (.status (notFound name)), maps)
  | some c => (f c).map fun r =>
      ((r.1.mapError .status).map answer, maps.insert name { c with entries := r.2 })

def view (maps : Maps) (metadata : CollectionMeta) : CollectionMetaView where
  name := metadata.name
  metric := metadata.metric
  dimension := metadata.dimension
  indexType := metadata.indexType
  count := match maps.get metadata.name with
    | some c => c.entries.len
    | none => 0

def create (metadata : CollectionMeta) (maps : Maps) :
    Option (Except ClientError ClientAnswer × Maps) :=
  if isValidName metadata.name then
    if (maps.get metadata.name).isSome then
      some (.error (.status (serverErrorToStatus (.alreadyExists metadata.name))), maps)
    else if metadata.indexType = .flat then
      some (.ok .created,
        maps.insert metadata.name { metadata := metadata, entries := .empty })
    else none
  else some (.error (.status (serverErrorToStatus (.badName metadata.name))), maps)

/-- What a call returns, and the maps it leaves; `none` where the maps say
    nothing. -/
def answer (maps : Maps) : ClientCall → Option (Except ClientError ClientAnswer × Maps)
  | .createCollection spec =>
    match spec.hnsw.bind HnswConfig.tooLarge with
    | some field => some (.error (outOfRange field), maps)
    | none => create spec.metadata maps
  | .dropCollection name => some (.ok (.dropped (maps.get name).isSome), maps.erase name)
  | .listCollections order =>
    some (.ok (.listed ((order.entries (maps.mapValues MapCollection.metadata)).map fun p =>
      view maps p.2)), maps)
  | .describeCollection name =>
    match maps.get name with
    | none => some (.error (.status (notFound name)), maps)
    | some c => some (.ok (.described (view maps c.metadata)), maps)
  | .upsert _ _ collection point =>
    write (fun _ => .upserted) collection
      (MapCollection.putPoints U [Direct.decoded point]) maps
  | .batchUpsert _ _ collection points =>
    write (fun _ => .batchUpserted points.length) collection
      (MapCollection.putPoints U (points.map Direct.decoded)) maps
  | .bulkUpsert _ _ collection chunks =>
    match chunks with
    | [] =>
      some (.error (.status ⟨.invalidArgument, "bulk_upsert stream carried no messages"⟩), maps)
    | _ =>
      write .bulkUpserted collection
        (MapCollection.putChunks U 0 (chunks.map (·.map Direct.decoded))) maps
  | .delete _ collection id =>
    write .deleted collection
      (fun c => some (.ok (c.entries.get id).isSome, c.entries.erase id)) maps
  | .deleteByFilter _ _ _ collection filter =>
    write .deletedByFilter collection (fun c => some
      (.ok (c.entries.filter fun _ entry => entry.matches ops filter).len,
        c.entries.filter fun _ entry => !entry.matches ops filter)) maps
  | .compact collection =>
    write (fun _ => .compacted) collection (fun c => some (.ok (), c.entries)) maps
  | .search _ _ collection query =>
    match Direct.searchRefused query with
    | some e => some (.error e, maps)
    | none => write .hits collection (fun c => some (c.search f32 ops query, c.entries)) maps
  | .searchHybrid _ _ _ _ => none

/-- What a session returns, as far as the maps say. -/
def run : List EidosClient.Event → Maps → List (Except ClientError ClientAnswer)
  | [], _ => []
  | .call call :: rest, maps =>
    match answer U f32 ops maps call with
    | some r => r.1 :: run rest r.2
    | none => []
  | .restart _ :: rest, maps => run rest maps

end Maps

/-! ## The database and the maps -/

/-- A flat collection in memory. -/
abbrev FlatMemory := Collection FlatIndex InMemoryLexicalIndex InMemoryPayloadStore

/-- A flat collection as it is registered. -/
abbrev CollectionMeta.registered (metadata : CollectionMeta) (inner : FlatMemory) :
    CollectionHandle FlatIndex PlacedGraph InMemoryLexicalIndex InMemoryPayloadStore :=
  { inner := .flat inner, poisoned := false, dimension := metadata.dimension }

/-- A flat collection keeps what a map says. -/
abbrev CollectionMeta.Keeps (U : Unicode) (metadata : CollectionMeta) (inner : FlatMemory)
    (m : EntryMap) : Prop :=
  Refines (FlatIndex.Stores metadata.metric metadata.dimension) U inner m

/-- The collections of the database are flat, and keep what the maps say. -/
structure Database.Keeps (U : Unicode) (db : Database) (maps : Maps) : Prop where
  metas : ∀ name, db.metas.get name = (maps.get name).map MapCollection.metadata
  absent : ∀ name, maps.get name = none → db.handles.get name = none
  stored : ∀ name c, maps.get name = some c → c.metadata.name = name ∧
    ∃ inner, db.handles.get name = some (c.metadata.registered inner) ∧
      c.metadata.Keeps U inner c.entries

section

variable {U : Unicode} {P : Platform} {levelFloat : LevelFloat} {ops : F64Ops} {db : Database}
  {maps : Maps}

theorem keeps_empty : Database.empty.Keeps U .empty where
  metas _ := rfl
  absent _ _ := rfl
  stored _ _ h := nomatch h

/-! ### Calls on one collection -/

/-- A program that only ends well on a flat collection. -/
theorem exec_flat {ε α J : Type} {flat : Effect ε FlatMemory α}
    (hnsw : Effect ε (Collection J InMemoryLexicalIndex InMemoryPayloadStore) α)
    {c : FlatMemory} {Q : α → World FlatMemory → Prop}
    (h : ends flat Q (fun _ _ => False) (.start c .none)) :
    ∃ a w', CollectionKind.exec flat hnsw (.flat c) = (.ok a, .flat w'.state) ∧ Q a w' := by
  unfold ends at h
  unfold CollectionKind.exec
  dsimp only
  cases hrun : flat (.start c .none) with
  | mk outcome w' =>
    rw [hrun] at h
    cases outcome with
    | ok a => exact ⟨a, w', rfl, h⟩
    | err => exact h.elim
    | crashed => exact h.elim
    | panicked => exact h.elim

theorem runBlocking_flat {α : Type} {metadata : CollectionMeta} {c c' : FlatMemory}
    {f : MemoryKind → Outcome Status α × MemoryKind} {a : α} (h : f (.flat c) = (.ok a, .flat c')) :
    runBlocking f (metadata.registered c) = (.ok a, metadata.registered c') := by
  unfold runBlocking
  rw [if_neg Bool.false_ne_true]
  dsimp only
  rw [h]

/-- A write that only ends well on a flat collection returns what it ends with. -/
theorem runBlocking_ends {ε α : Type} {flat : Effect ε FlatMemory α}
    (hnsw : Effect ε (Collection PlacedGraph InMemoryLexicalIndex InMemoryPayloadStore) α)
    (toStatus : ε → Status) {metadata : CollectionMeta} {c : FlatMemory}
    {Q : α → World FlatMemory → Prop} (h : ends flat Q (fun _ _ => False) (.start c .none)) :
    ∃ a w', runBlocking (fun kind =>
          let r := CollectionKind.exec flat hnsw kind
          (r.1.mapErr toStatus, r.2)) (metadata.registered c) =
        (.ok a, metadata.registered w'.state) ∧
      Q a w' := by
  obtain ⟨a, w', hexec, hQ⟩ := exec_flat hnsw h
  refine ⟨a, w', runBlocking_flat ?_, hQ⟩
  dsimp only
  rw [hexec]
  rfl

section

variable (P levelFloat ops)

/-- Each point is put into the map. -/
theorem upsertEach_flat (orders : UpsertOrders) {metadata : CollectionMeta}
    (points : List DecodedPoint) (n : Nat) {m m' : EntryMap} {c : FlatMemory}
    (h : metadata.Keeps U c m)
    (hdims : ∀ d ∈ points, d.embedding.dimension = metadata.dimension.get)
    (hput : MapCollection.putEach U m points = some m') :
    ∃ c', upsertEach (memoryStores U P levelFloat ops).toKindPorts orders n points (.flat c) =
        (.ok (), .flat c') ∧
      metadata.Keeps U c' m' := by
  induction points generalizing n m c with
  | nil =>
    cases hput
    exact ⟨c, rfl, h⟩
  | cons d rest ih =>
    unfold MapCollection.putEach at hput
    split at hput
    · next hfits =>
      have hends := ends_upsert (w := .start c .none) ops
        (FlatIndex.lawful_port P.f32) h (orders n).1 (orders n).2 d.id
        (hdims d List.mem_cons_self) d.document d.payload
      -- the counters hold the document, so the upsert does not panic
      obtain ⟨_, w', hexec, hrefines⟩ := exec_flat (Collection.upsert
        (memoryStores U P levelFloat ops).hnsw (orders n).1 (orders n).2 d.id d.embedding
        d.document d.payload) (ends_mono hends (fun _ _ hok => hok.2)
          fun _ _ hover => absurd hfits (by simp [hover.1]))
      have hupsert : CollectionKind.upsert (memoryStores U P levelFloat ops).toKindPorts (orders n)
          d (.flat c) = (.ok (), .flat w'.state) := hexec
      obtain ⟨c', hrest, hrefines'⟩ := ih (n + 1) hrefines
        (fun d' hd' => hdims d' (List.mem_cons_of_mem _ hd')) hput
      refine ⟨c', ?_, hrefines'⟩
      rw [upsertEach, hupsert]
      exact hrest
    · cases hput

variable {c : MapCollection} {inner : FlatMemory}

theorem upsertPoints_flat (orders : UpsertOrders) (n : Nat)
    (h : c.metadata.Keeps U inner c.entries)
    {points : List DecodedPoint} {r : Except Status Unit × EntryMap}
    (hput : c.putPoints U points = some r) :
    ∃ inner', Direct.upsertPoints (memoryStores U P levelFloat ops) orders n points
        (c.metadata.registered inner) = (r.1, c.metadata.registered inner') ∧
      c.metadata.Keeps U inner' r.2 := by
  unfold MapCollection.putPoints at hput
  unfold Direct.upsertPoints
  dsimp only
  cases hdims : ensureDimension points c.metadata.dimension.get with
  | error status =>
    simp only [hdims] at hput ⊢
    cases hput
    exact ⟨inner, rfl, h⟩
  | ok =>
    simp only [hdims] at hput ⊢
    obtain ⟨m, hm, rfl⟩ := Option.map_eq_some_iff.mp hput
    obtain ⟨inner', hrun, hrefines⟩ := upsertEach_flat P levelFloat ops orders points n h
      (dims_of_ensureDimension hdims) hm
    exact ⟨inner', runBlocking_flat hrun, hrefines⟩

theorem upsertChunks_flat (orders : UpsertOrders) (chunks : List (List DecodedPoint)) (n : Nat)
    (h : c.metadata.Keeps U inner c.entries)
    {r : Except Status Nat × EntryMap} (hput : c.putChunks U n chunks = some r) :
    ∃ inner', Direct.upsertChunks (memoryStores U P levelFloat ops) orders n chunks
        (c.metadata.registered inner) = (r.1, c.metadata.registered inner') ∧
      c.metadata.Keeps U inner' r.2 := by
  induction chunks generalizing n c inner with
  | nil =>
    cases hput
    exact ⟨inner, rfl, h⟩
  | cons chunk rest ih =>
    unfold MapCollection.putChunks at hput
    cases hpoints : c.putPoints U chunk with
    | none =>
      simp only [hpoints] at hput
      cases hput
    | some p =>
      obtain ⟨inner', hwritten, hrefines⟩ := upsertPoints_flat P levelFloat ops orders n h
        hpoints
      obtain ⟨outcome, m⟩ := p
      rw [Direct.upsertChunks, hwritten]
      cases outcome with
      | error status =>
        simp only [hpoints] at hput
        cases hput
        exact ⟨inner', rfl, hrefines⟩
      | ok =>
        simp only [hpoints] at hput
        exact ih (n + chunk.length) (c := { c with entries := m }) hrefines hput

theorem searchWith_flat (matching : HashOrder)
    (h : c.metadata.Keeps U inner c.entries)
    (query : SearchQuery) :
    Direct.searchWith (some query.embedding.dimension)
        (fun kind => kind.search (memoryStores U P levelFloat ops) matching query)
        (c.metadata.registered inner) =
      c.search P.f32 ops query := by
  have hsearch : (CollectionKind.search (memoryStores U P levelFloat ops) matching (.flat inner)
      query).run = some (c.entries.search P.f32 ops c.metadata.metric c.metadata.dimension query) :=
    Collection.search_refines h matching query
  unfold Direct.searchWith MapCollection.search
  dsimp only [Option.bind_some]
  -- both refuse the same dimension before they search
  by_cases hdim : query.embedding.dimension ≠ c.metadata.dimension.get
  · rw [if_pos hdim, if_pos hdim]
  · rw [if_neg hdim, if_neg hdim]
    dsimp only
    unfold runBlockingRead
    rw [if_neg Bool.false_ne_true]
    dsimp only
    rw [hsearch]
    rfl

end

/-! ### Calls -/

/-- A collection is put under one name. -/
theorem Database.Keeps.put {db' : Database} (h : db.Keeps U maps) {name : String}
    {c : MapCollection} {inner : FlatMemory} (hname : c.metadata.name = name)
    (hrefines : c.metadata.Keeps U inner c.entries)
    (hmetas : ∀ name', db'.metas.get name' =
      if name' = name then some c.metadata else db.metas.get name')
    (hhandles : db'.handles = db.handles.insert name (c.metadata.registered inner)) :
    db'.Keeps U (maps.insert name c) := by
  refine ⟨fun name' => ?_, fun name' hnone => ?_, fun name' c' hget => ?_⟩
  · rw [hmetas, OrderedTable.get_insert]
    by_cases heq : name' = name
    · rw [if_pos heq, if_pos heq]
      rfl
    · rw [if_neg heq, if_neg heq]
      exact h.metas name'
  · rw [OrderedTable.get_insert] at hnone
    rw [hhandles, OrderedTable.get_insert]
    by_cases heq : name' = name
    · rw [if_pos heq] at hnone
      cases hnone
    · rw [if_neg heq] at hnone ⊢
      exact h.absent name' hnone
  · rw [OrderedTable.get_insert] at hget
    rw [hhandles, OrderedTable.get_insert]
    by_cases heq : name' = name
    · rw [if_pos heq] at hget ⊢
      cases hget
      exact ⟨hname.trans heq.symm, inner, rfl, hrefines⟩
    · rw [if_neg heq] at hget ⊢
      exact h.stored name' c' hget

/-- A call on one collection. -/
theorem Database.Keeps.write (h : db.Keeps U maps) {α : Type} {answer : α → ClientAnswer}
    {name : String}
    {f : CollectionHandle FlatIndex PlacedGraph InMemoryLexicalIndex InMemoryPayloadStore →
      Except Status α ×
        CollectionHandle FlatIndex PlacedGraph InMemoryLexicalIndex InMemoryPayloadStore}
    {g : MapCollection → Option (Except Status α × EntryMap)}
    (hcall : ∀ (c : MapCollection) inner r,
      c.metadata.Keeps U inner c.entries →
      g c = some r → ∃ inner',
        f (c.metadata.registered inner) = (r.1, c.metadata.registered inner') ∧
        c.metadata.Keeps U inner' r.2)
    {q : Except ClientError ClientAnswer × Maps} (hq : maps.write answer name g = some q) :
    (Direct.write answer name f db).1 = q.1 ∧ (Direct.write answer name f db).2.Keeps U q.2 := by
  unfold Maps.write at hq
  unfold Direct.write Direct.onCollection
  cases hget : maps.get name with
  | none =>
    simp only [hget] at hq
    cases hq
    rw [h.absent name hget]
    exact ⟨rfl, h⟩
  | some c =>
    simp only [hget] at hq
    obtain ⟨r, hr, rfl⟩ := Option.map_eq_some_iff.mp hq
    obtain ⟨hname, inner, hhandle, hrefines⟩ := h.stored name c hget
    obtain ⟨inner', hrun, hrefines'⟩ := hcall c inner r hrefines hr
    rw [hhandle]
    dsimp only
    rw [hrun]
    -- the metadata stays, and is what both tables have under the name
    have hmetas : ∀ name', db.metas.get name' =
        if name' = name then some c.metadata else db.metas.get name' := fun name' => by
      by_cases heq : name' = name
      · rw [if_pos heq, heq, h.metas, hget]
        rfl
      · rw [if_neg heq]
    exact ⟨rfl, h.put (c := { c with entries := r.2 }) hname hrefines' hmetas rfl⟩

theorem Database.Keeps.create (h : db.Keeps U maps) {metadata : CollectionMeta}
    {q : Except ClientError ClientAnswer × Maps} (hq : maps.create metadata = some q) :
    ((db.create metadata).1.mapError fun e => ClientError.status (serverErrorToStatus e)).map
        (fun _ => ClientAnswer.created) = q.1 ∧
      (db.create metadata).2.Keeps U q.2 := by
  have hsome : (db.metas.get metadata.name).isSome = (maps.get metadata.name).isSome := by
    rw [h.metas, Option.isSome_map]
  unfold Maps.create at hq
  unfold Database.create
  by_cases hvalid : isValidName metadata.name = true
  · rw [if_pos hvalid] at hq ⊢
    rw [hsome]
    by_cases hthere : (maps.get metadata.name).isSome = true
    · rw [if_pos hthere] at hq ⊢
      cases hq
      exact ⟨rfl, h⟩
    · rw [if_neg hthere] at hq ⊢
      by_cases hflat : metadata.indexType = .flat
      · rw [if_pos hflat] at hq
        cases hq
        -- an empty index, no documents and no payloads are the empty map
        obtain ⟨inner, hkind, hempty⟩ : ∃ inner, metadata.newKind = .flat inner ∧
            metadata.Keeps U inner .empty := by
          refine ⟨_, by unfold CollectionMeta.newKind; rw [hflat], ?_⟩
          exact ⟨FlatIndex.stores_new _ _, InMemoryLexicalIndex.holds_new U, fun _ => rfl⟩
        exact ⟨rfl, h.put (c := { metadata := metadata, entries := .empty }) rfl hempty
          (fun _ => OrderedTable.get_insert _ _ _ _) (by rw [hkind])⟩
      · rw [if_neg hflat] at hq
        cases hq
  · rw [if_neg hvalid] at hq ⊢
    cases hq
    exact ⟨rfl, h⟩

theorem Database.Keeps.drop (h : db.Keeps U maps) (name : String) :
    (db.drop name).1 = (maps.get name).isSome ∧ (db.drop name).2.Keeps U (maps.erase name) := by
  have herased : ∀ {V : Type} (t : OrderedTable String V) name',
      (t.erase name).get name' = if name' = name then none else t.get name' :=
    fun t => OrderedTable.get_erase t name
  refine ⟨?_, fun name' => ?_, fun name' hnone => ?_, fun name' c hget => ?_⟩
  · show (db.metas.get name).isSome = _
    rw [h.metas, Option.isSome_map]
  · show (db.metas.erase name).get name' = _
    rw [herased, herased, h.metas]
    split <;> rfl
  · rw [herased] at hnone
    refine (herased db.handles name').trans ?_
    split at hnone
    · next heq => exact if_pos heq
    · next hne => exact (if_neg hne).trans (h.absent name' hnone)
  · rw [herased] at hget
    split at hget
    · cases hget
    · next hne =>
      obtain ⟨hname, inner, hhandle, hrefines⟩ := h.stored name' c hget
      exact ⟨hname, inner, (herased db.handles name').trans ((if_neg hne).trans hhandle), hrefines⟩

variable (P levelFloat ops) in
/-- The number of vectors is that of the entries. -/
theorem Database.Keeps.view (h : db.Keeps U maps) (metadata : CollectionMeta) :
    Direct.view (memoryStores U P levelFloat ops) db.handles metadata = maps.view metadata := by
  unfold Direct.view Maps.view
  cases hget : maps.get metadata.name with
  | none => rw [h.absent _ hget]
  | some c =>
    obtain ⟨-, inner, hhandle, hrefines⟩ := h.stored _ c hget
    have hlen : (FlatIndex.port P.f32).len inner.index = c.entries.len :=
      ((FlatIndex.lawful_port P.f32).len hrefines.index).trans (c.entries.len_mapValues _)
    rw [hhandle]
    dsimp only
    rw [if_neg Bool.false_ne_true]
    exact congrArg _ hlen

theorem Database.Keeps.metas_eq (h : db.Keeps U maps) :
    db.metas = maps.mapValues MapCollection.metadata := by
  apply OrderedTable.ext_get
  intro name
  rw [OrderedTable.get_mapValues]
  exact h.metas name

theorem Database.Keeps.isPlaced (h : db.Keeps U maps) : db.isPlaced = true := by
  refine List.all_eq_true.mpr fun e hmem => ?_
  obtain ⟨name, handle⟩ := e
  have hhandle := (OrderedTable.mem_entries_iff _ _ _).mp hmem
  cases hget : maps.get name with
  | none =>
    rw [h.absent name hget] at hhandle
    cases hhandle
  | some c =>
    obtain ⟨-, inner, hhandle', -⟩ := h.stored name c hget
    rw [hhandle'] at hhandle
    cases hhandle
    rfl

variable (P levelFloat) in
/-- Each call returns what the maps say. -/
theorem Database.Keeps.answer (h : db.Keeps U maps) {call : ClientCall}
    {q : Except ClientError ClientAnswer × Maps}
    (hq : maps.answer U P.f32 ops call = some q) :
    (Direct.answer (memoryStores U P levelFloat ops) ops db call).1 = q.1 ∧
      (Direct.answer (memoryStores U P levelFloat ops) ops db call).2.Keeps U q.2 := by
  cases call with
  | createCollection spec =>
    cases hfield : spec.hnsw.bind HnswConfig.tooLarge with
    | some field =>
      simp only [Maps.answer, hfield] at hq
      simp only [Direct.answer, hfield]
      cases hq
      exact ⟨rfl, h⟩
    | none =>
      simp only [Maps.answer, hfield] at hq
      simp only [Direct.answer, hfield]
      exact h.create hq
  | dropCollection name =>
    cases hq
    exact ⟨congrArg _ (congrArg _ (h.drop name).1), (h.drop name).2⟩
  | listCollections order =>
    cases hq
    refine ⟨?_, h⟩
    simp only [Direct.answer, h.view P levelFloat ops, h.metas_eq]
  | describeCollection name =>
    cases hget : maps.get name with
    | none =>
      have hmeta : db.metas.get name = none := by rw [h.metas, hget]; rfl
      simp only [Maps.answer, hget] at hq
      simp only [Direct.answer, hmeta]
      cases hq
      exact ⟨rfl, h⟩
    | some c =>
      have hmeta : db.metas.get name = some c.metadata := by rw [h.metas, hget]; rfl
      simp only [Maps.answer, hget] at hq
      simp only [Direct.answer, hmeta, h.view P levelFloat ops]
      cases hq
      exact ⟨rfl, h⟩
  | upsert order orders collection point =>
    exact h.write (fun _ _ _ hrefines hput =>
      upsertPoints_flat P levelFloat ops _ 0 hrefines hput) hq
  | batchUpsert order orders collection points =>
    exact h.write (fun _ _ _ hrefines hput =>
      upsertPoints_flat P levelFloat ops orders 0 hrefines hput) hq
  | bulkUpsert order orders collection chunks =>
    cases chunks with
    | nil =>
      cases hq
      exact ⟨rfl, h⟩
    | cons chunk chunks =>
      -- each chunk is checked and put before the next one is looked at
      exact h.write (fun _ _ _ hrefines hput =>
        upsertChunks_flat P levelFloat ops orders _ 0 hrefines hput) hq
  | delete order collection id =>
    refine h.write (fun c inner r hrefines hr => ?_) hq
    cases hr
    obtain ⟨_, w', hrun, rfl, hrefines'⟩ := runBlocking_ends
      (Collection.delete (memoryStores U P levelFloat ops).hnsw order id) queryErrorToStatus
      (ends_delete (w := .start inner .none) ops (FlatIndex.lawful_port P.f32) hrefines order id)
    exact ⟨w'.state, hrun, hrefines'⟩
  | deleteByFilter matching each orders collection filter =>
    refine h.write (fun c inner r hrefines hr => ?_) hq
    cases hr
    obtain ⟨_, w', hrun, rfl, hrefines'⟩ := runBlocking_ends
      (Collection.deleteByFilter (memoryStores U P levelFloat ops).hnsw matching each orders filter)
      queryErrorToStatus
      (ends_deleteByFilter (w := .start inner .none) ops (FlatIndex.lawful_port P.f32) hrefines
        matching each orders filter)
    exact ⟨w'.state, hrun, hrefines'⟩
  | compact collection =>
    refine h.write (fun c inner r hrefines hr => ?_) hq
    cases hr
    exact ⟨inner, runBlocking_flat rfl, hrefines⟩
  | search matching fields collection query =>
    cases hrefused : Direct.searchRefused query with
    | some e =>
      simp only [Maps.answer, hrefused] at hq
      simp only [Direct.answer, Direct.read, hrefused]
      cases hq
      exact ⟨rfl, h⟩
    | none =>
      simp only [Maps.answer, hrefused] at hq
      simp only [Direct.answer, Direct.read, hrefused]
      refine h.write (fun c inner r hrefines hr => ?_) hq
      cases hr
      exact ⟨inner, congrArg (·, _) (searchWith_flat P levelFloat ops matching hrefines query),
        hrefines⟩
  | searchHybrid orders fields collection query => cases hq

/-! ## Sessions -/

variable (P levelFloat) in
/-- The maps say what a session on the database returns, as far as they go. -/
theorem Database.Keeps.run (h : db.Keeps U maps) (events : List EidosClient.Event) :
    Maps.run U P.f32 ops events maps <+:
      Direct.run (memoryStores U P levelFloat ops) ops events db := by
  induction events generalizing db maps with
  | nil => exact List.prefix_rfl
  | cons event rest ih =>
    cases event with
    | call call =>
      rw [Maps.run, Direct.run]
      cases hq : maps.answer U P.f32 ops call with
      | none =>
        -- the maps say nothing from here on
        exact List.nil_prefix
      | some q =>
        obtain ⟨hanswer, hkeeps⟩ := h.answer P levelFloat hq
        rw [hanswer]
        exact (List.prefix_cons_inj _).mpr (ih hkeeps)
    | restart order =>
      -- there is no graph, so every vector is at its place
      rw [Maps.run, Direct.run, if_pos h.isPlaced]
      exact ih h

end

namespace EidosClient

/-- What is promised of the results is promised of the first of them. -/
theorem ResultsAgree.of_initial {results direct said : List (Except ClientError ClientAnswer)}
    (h : ResultsAgree results direct) (hinitial : said <+: direct) : ResultsAgree results said := by
  induction h generalizing said with
  | nothing =>
    rw [List.prefix_nil.mp hinitial]
    exact .nothing
  | same rest ih =>
    cases said with
    | nil => exact .nothing
    | cons first later =>
      obtain ⟨rfl, hlater⟩ := List.cons_prefix_cons.mp hinitial
      exact .same (ih hlater)
  | internal code =>
    cases said with
    | nil => exact .nothing
    | cons first later =>
      -- an internal error is the last that is promised
      obtain ⟨rfl, -⟩ := List.cons_prefix_cons.mp hinitial
      exact .internal code
  | tooLarge excuse => exact .tooLarge excuse

end EidosClient

open EidosClient

/-- An entry that is replaced after a restart, and one that is deleted. -/
def flatSession : List EidosClient.Event :=
  [.call (.createCollection ⟨"notes", .dotProduct, .one, .flat, none⟩),
    .call (.batchUpsert .ascending (fun _ => (.ascending, .ascending)) "notes"
      [⟨⟨1⟩, .single (F32.ofInt 5) (.refl true), none, none⟩,
        ⟨⟨2⟩, .single (F32.ofInt 7) (.refl true), none, none⟩]),
    .restart .ascending,
    .call (.upsert .ascending (.ascending, .ascending) "notes"
      ⟨⟨2⟩, .single (F32.ofInt 3) (.refl true), none, none⟩),
    .call (.search .ascending .ascending "notes"
      ⟨.single (F32.ofInt 1) (.refl true), 1, none, none⟩),
    .call (.delete .ascending "notes" ⟨1⟩),
    .call (.describeCollection "notes")]

end EidosDB
