import EidosDB.Server.CallParity
import EidosDB.Server.Database

/-! # Collections on Disk and in Memory

    The stores of a collection on disk stand in for those of the database in
    memory: a graph is related to the graph with its mark, which says whether
    the vectors of the segment are still at the places of their nodes. -/

namespace EidosDB

open Effect

/-! ## Graphs with their mark -/

namespace PlacedGraph

variable {pc : HnswCodec} {P : Platform} {config : HnswConfig} {dimension : Dimension}

/-- The store has the graph, and its vectors at their places while the mark
    is set. -/
def StandsOnDisk (pc : HnswCodec) (config : HnswConfig) (dimension : Dimension) (s : HnswStore)
    (g : PlacedGraph) : Prop :=
  HnswStore.StandsFor pc config dimension (g.placed = true) s g.index

/-- An operation of the graph does not look at the mark. -/
theorem simulates_onGraph {α : Type} {Excused : Option Stop → Halt IndexError → Prop}
    {R : Prop → HnswStore → HnswIndex → Prop} {R' : α → Prop → HnswStore → HnswIndex → Prop}
    {m : Effect IndexError HnswStore α} {m' : Effect IndexError HnswIndex α}
    (h : ∀ placed, Simulates Excused (R placed) m m' fun a => R' a placed) :
    Simulates Excused (fun s g => R (g.placed = true) s g.index) m (onGraph m')
      fun a s g => R' a (g.placed = true) s g.index := by
  apply simulates_zoom_spec
  intro s g hr
  apply simulates_mono (h (g.placed = true))
  · rintro _ _ ⟨rfl, rfl⟩
    exact hr
  · exact fun _ _ _ hr' => hr'

theorem standsIn_port (pc : HnswCodec) (P : Platform) (levelFloat : LevelFloat)
    (config : HnswConfig) (dimension : Dimension) :
    (HnswStore.port pc P levelFloat).StandsIn Blameless (PlacedGraph.port P levelFloat) dimension
      (fun id g => g.index.graph.live id = none) (StandsOnDisk pc config dimension) where
  metric h := (HnswStore.standsIn_port pc P levelFloat config dimension _).metric h
  supportedMetrics h :=
    (HnswStore.standsIn_port pc P levelFloat config dimension _).supportedMetrics h
  len h := (HnswStore.standsIn_port pc P levelFloat config dimension _).len h
  remove id := simulates_onGraph fun placed =>
    (HnswStore.standsIn_port pc P levelFloat config dimension placed).remove id
  insert id _ hdim := simulates_onGraph fun placed =>
    (HnswStore.standsIn_port pc P levelFloat config dimension placed).insert id hdim
  searchFiltered h :=
    (HnswStore.standsIn_port pc P levelFloat config dimension _).searchFiltered h

/-- Compaction takes the mark away if it drops a node. -/
theorem simulates_compact (pc : HnswCodec) (P : Platform) (levelFloat : LevelFloat)
    (config : HnswConfig) (dimension : Dimension) :
    Simulates Interrupted (StandsOnDisk pc config dimension) (HnswStore.compact pc P levelFloat)
      (compact P levelFloat) fun _ => StandsOnDisk pc config dimension := by
  apply simulates_call
  intro w g h
  apply ends_mono (HnswStore.ends_compact_standsFor (P := P) h levelFloat)
  · rintro _ w' ⟨hhow, index, hcompact, hstands⟩
    refine ⟨hhow, ⟨index, g.placed && decide (g.index.len = g.index.graph.nodeCount)⟩, ?_, ?_⟩
    · rw [hcompact]
      rfl
    · unfold StandsOnDisk
      rw [Bool.and_eq_true, decide_eq_true_eq]
      exact hstands
  · exact fun _ _ hcause => Or.inl hcause

end PlacedGraph

/-! ## Collections -/

section Stores

variable (U : Unicode) (codecs : ServerCodecs) (payload : Codec Payload) (P : Platform)
  (levelFloat : LevelFloat) (ops : F64Ops)

theorem diskStores_standIn (metadata : CollectionMeta) :
    (diskStores U codecs payload P levelFloat ops).StandIn (memoryStores U P levelFloat ops)
      metadata.dimension (fun id f => ∀ e, (id, e) ∉ f.points)
      (fun id g => g.index.graph.live id = none)
      (FlatStore.StandsFor metadata.metric metadata.dimension)
      (PlacedGraph.StandsOnDisk codecs.hnsw (metadata.hnsw.getD .default) metadata.dimension)
      (LexicalStore.Mirrors codecs.lexical) (StoredPayloads.StandsFor payload) where
  flat :=
    { index := FlatStore.standsIn_port P.f32 metadata.metric metadata.dimension
      lexical := LexicalStore.standsIn_port U codecs.lexical ops
      payloads := StoredPayloads.standsIn_port payload ops }
  hnsw :=
    { index := PlacedGraph.standsIn_port codecs.hnsw P levelFloat _ metadata.dimension
      lexical := LexicalStore.standsIn_port U codecs.lexical ops
      payloads := StoredPayloads.standsIn_port payload ops }
  compactFlat := by
    intro w f h
    apply ends_mono (FlatStore.ends_compact_standsFor h)
    · rintro _ w' ⟨hhow, hstands⟩
      exact ⟨hhow, f, answers_pure () f, hstands⟩
    · exact fun _ _ hcause => Or.inl hcause
  compactHnsw := PlacedGraph.simulates_compact codecs.hnsw P levelFloat _ metadata.dimension

end Stores

/-- A collection on disk beside the one in memory, both of the kind that the
    metadata says. -/
structure CollectionMeta.StandsFor (codecs : ServerCodecs) (payload : Codec Payload)
    (metadata : CollectionMeta) (k : StoredKind) (k' : MemoryKind) : Prop where
  stores : KindStandsFor (FlatStore.StandsFor metadata.metric metadata.dimension)
    (PlacedGraph.StandsOnDisk codecs.hnsw (metadata.hnsw.getD .default) metadata.dimension)
    (LexicalStore.Mirrors codecs.lexical) (StoredPayloads.StandsFor payload) k k'
  indexType : k'.indexType = metadata.indexType

namespace CollectionMeta

variable {codecs : ServerCodecs} {payload : Codec Payload} {metadata : CollectionMeta}
  {k : StoredKind} {k' : MemoryKind}

/-- No operation changes the kind of a collection. -/
theorem StandsFor.follows {ε α : Type} {Excused : ε → Prop} {r : Outcome ε α × StoredKind}
    {r' : Outcome ε α × MemoryKind} (hk : metadata.StandsFor codecs payload k k')
    (h : Follows Excused (KindStandsFor (FlatStore.StandsFor metadata.metric metadata.dimension)
      (PlacedGraph.StandsOnDisk codecs.hnsw (metadata.hnsw.getD .default) metadata.dimension)
      (LexicalStore.Mirrors codecs.lexical) (StoredPayloads.StandsFor payload)) r r')
    (hkind : r'.2.indexType = k'.indexType) :
    Follows Excused (metadata.StandsFor codecs payload) r r' :=
  h.mono_of (C := fun t => t.indexType = metadata.indexType) (hkind.trans hk.indexType)
    fun _ _ hstores hindex => ⟨hstores, hindex⟩

theorem indexType_exec {I J L P ε α : Type} (flat : Effect ε (Collection I L P) α)
    (hnsw : Effect ε (Collection J L P) α) (k : CollectionKind I J L P) :
    (k.exec flat hnsw).2.indexType = k.indexType := by
  cases k <;> rfl

end CollectionMeta

/-- Calls on collections on disk follow those in memory. -/
theorem storesStandIn (U : Unicode) (codecs : ServerCodecs) (payload : Codec Payload) (P : Platform)
    (levelFloat : LevelFloat) (ops : F64Ops) :
    StoresStandIn (diskStores U codecs payload P levelFloat ops) (memoryStores U P levelFloat ops)
      (CollectionMeta.StandsFor codecs payload) := by
  have hin : ∀ metadata : CollectionMeta, _ :=
    diskStores_standIn U codecs payload P levelFloat ops
  refine
    { upsert := ?_
      delete := ?_
      deleteByFilter := ?_
      compact := ?_
      len := ?_
      search := ?_
      searchHybrid := ?_ }
  · intro metadata k k' hk orders d hdim
    refine hk.follows (upsert_follows (hin metadata) hk.stores orders hdim) ?_
    cases k' <;> rfl
  · intro metadata k k' hk order id
    exact hk.follows (delete_follows (hin metadata) hk.stores order id)
      (CollectionMeta.indexType_exec _ _ k')
  · intro metadata k k' hk matching each orders filter
    exact hk.follows (deleteByFilter_follows (hin metadata) hk.stores matching each orders filter)
      (CollectionMeta.indexType_exec _ _ k')
  · intro metadata k k' hk
    exact hk.follows (compact_follows (hin metadata) hk.stores)
      (CollectionMeta.indexType_exec _ _ k')
  · exact fun hk => len_eq_of_standsFor (hin _) hk.stores
  · exact fun hk matching query => search_eq_of_standsFor (hin _) hk.stores matching query
  · exact fun hk ops orders query =>
      searchHybrid_eq_of_standsFor (hin _) hk.stores ops orders query

end EidosDB
