import EidosDB.Hnsw.Steps

/-! # Soundness Against the Flat Index

    The two indexes are driven by the same calls.  `Sim` says that they store
    the same points; every call keeps it and gets the same answer from both.
    A search then returns a part of what the flat index would list, in the
    same order. -/

namespace EidosDB

open HnswGraph

variable {P : Platform} {config : HnswConfig} {dimension : Dimension}

/-! ## The flat index under the same calls -/

namespace FlatIndex

/-- A call as the flat index sees it; it has nothing to compact. -/
def step (f : FlatIndex) : HnswOp → Answer × FlatIndex
  | .insert id embedding => (.done (f.insert id embedding).1, (f.insert id embedding).2)
  | .remove id => (.removed (f.remove id).1, (f.remove id).2)
  | .compact => (.done (.ok ()), f)

/-- A run of calls, with the answers in order. -/
def run : FlatIndex → List HnswOp → List Answer × FlatIndex
  | f, [] => ([], f)
  | f, op :: rest => ((f.step op).1 :: (run (f.step op).2 rest).1, (run (f.step op).2 rest).2)

end FlatIndex

namespace HnswIndex

/-! ## What a search does -/

/-- A candidate as it is returned. -/
def neighborOfCandidate (c : Candidate) : Neighbor := { id := c.id, score := c.score }

/-- A search answers nothing when there is no entry point, and otherwise sorts
    and cuts what a beam search at layer 0 found. -/
theorem searchFiltered_spec {s : HnswIndex} (h : Inv config dimension s) {query : Embedding}
    (hdim : query.dimension = dimension.get) (k : Nat) (isAdmissible : VectorId → Bool) :
    (s.graph.entryPoint = none ∧
      s.searchFiltered P query k config.metric isAdmissible = some (.ok [])) ∨
    ∃ entry current candidates, s.graph.entryPoint = some entry ∧
      s.graph.ReachAbove 1 entry current ∧ current < s.graph.nodeCount ∧
      s.graph.BeamSpec P config.metric query.values current (max config.efSearch k) 0
        isAdmissible candidates ∧
      s.searchFiltered P query k config.metric isAdmissible = some (.ok
        ((sortBy Neighbor.cmp ((candidates.take k).map neighborOfCandidate)).take k)) := by
  unfold searchFiltered
  rw [h.config_eq, h.dimension_eq, if_neg (not_not.mpr hdim), if_neg (not_not.mpr rfl)]
  cases hep : s.graph.entryPoint with
  | none => exact Or.inl ⟨rfl, rfl⟩
  | some entry =>
    right
    dsimp only
    set current := if 0 < s.graph.nodeLevel entry
      then s.graph.greedyDescent P config.metric query.values entry (s.graph.nodeLevel entry) 1
      else entry with hcurrent
    have hreach : s.graph.ReachAbove 1 entry current := by
      rw [hcurrent]
      split
      · exact greedyDescent_reach entry _ _
      · exact Relation.ReflTransGen.refl
    have hlt : current < s.graph.nodeCount := by
      rcases Relation.ReflTransGen.cases_tail hreach with heq | ⟨x, -, l, -, hx⟩
      · exact heq ▸ h.entry.lt_nodeCount hep
      · exact h.links.inRange x l current hx
    have hef : 1 ≤ max config.efSearch k := le_trans config.search_pos (le_max_left _ _)
    obtain ⟨candidates, hsearch, hspec⟩ := beamSearch_spec P s.graph config.metric query.values
      (max config.efSearch k) 0 current isAdmissible hef hlt
    refine ⟨entry, current, candidates, rfl, hreach, hlt, hspec, ?_⟩
    rw [hsearch]
    rfl

/-- A live node is a stored point, under the id and the embedding that its
    candidate is scored with. -/
theorem point_of_live {g : HnswGraph} {n : Nat} (h : g.IsLive n) :
    ∃ e, (g.idOf n, e) ∈ g.points ∧ g.embeddingOf n = e.values := by
  obtain ⟨node, hnode⟩ := exists_node h.1
  refine ⟨node.embedding, mem_points.mpr ⟨n, node, hnode, ?_, ?_, rfl⟩, ?_⟩
  · simpa [isTombstone, hnode] using h.2
  · simp [idOf, nodeId, hnode]
  · simp [embeddingOf, nodeEmbedding, hnode]

theorem live_of_point {g : HnswGraph} {id : VectorId} {e : Embedding} (h : (id, e) ∈ g.points) :
    ∃ n, g.IsLive n ∧ g.idOf n = id ∧ g.embeddingOf n = e.values := by
  obtain ⟨n, node, hnode, ht, rfl, rfl⟩ := mem_points.mp h
  refine ⟨n, ⟨(List.getElem?_eq_some_iff.mp hnode).1, ?_⟩, ?_, ?_⟩
  · simp [isTombstone, hnode, ht]
  · simp [idOf, nodeId, hnode]
  · simp [embeddingOf, nodeEmbedding, hnode]

/-- Live nodes have distinct ids. -/
theorem live_injective {g : HnswGraph} (h : NodeInv dimension g) {a b : Nat} (ha : g.IsLive a)
    (hb : g.IsLive b) (hid : g.idOf a = g.idOf b) : a = b := by
  obtain ⟨ia, hia⟩ := nodeId_eq_some ha.1
  obtain ⟨ib, hib⟩ := nodeId_eq_some hb.1
  rw [idOf, idOf, hia, hib, Option.getD_some, Option.getD_some] at hid
  subst hid
  have hla := (h.live_iff ia a).mpr ⟨ha, hia⟩
  have hlb := (h.live_iff ia b).mpr ⟨hb, hib⟩
  exact Option.some.inj (hla.symm.trans hlb)

section candidates

variable {g : HnswGraph} {metric : Metric} {query : List F32} {entry ef : Nat}
  {isAdmissible : VectorId → Bool} {candidates : List Candidate}

/-- What a beam search returns stands for an admissible point. -/
theorem candidate_point (hspec : g.BeamSpec P metric query entry ef 0 isAdmissible candidates)
    {c : Candidate} (hc : c ∈ candidates) :
    ∃ p ∈ g.points, isAdmissible p.1 = true ∧
      neighborOfCandidate c = neighborOf P.f32 metric query p := by
  obtain ⟨htomb, hadm⟩ := hspec.eligible c hc
  obtain ⟨e, hp, he⟩ := point_of_live ⟨hspec.inRange c hc, htomb⟩
  refine ⟨_, hp, hadm, ?_⟩
  rw [hspec.candidate c hc]
  simp only [neighborOfCandidate, neighborOf, candidateOf, he]

theorem nodup_candidates (h : NodeInv dimension g)
    (hspec : g.BeamSpec P metric query entry ef 0 isAdmissible candidates) :
    (candidates.map neighborOfCandidate).Nodup := by
  have hnodup := hspec.nodup
  unfold List.Nodup at hnodup ⊢
  rw [List.pairwise_map] at hnodup ⊢
  refine hnodup.imp_of_mem ?_
  intro a b ha hb hne heq
  have hid : a.id = b.id := congrArg Neighbor.id heq
  rw [hspec.candidate a ha, hspec.candidate b hb] at hid
  exact hne (live_injective h ⟨hspec.inRange a ha, (hspec.eligible a ha).1⟩
    ⟨hspec.inRange b hb, (hspec.eligible b hb).1⟩ hid)

end candidates

/-! ## The simulation -/

theorem mem_points_withTombstone {g : HnswGraph} (h : NodeInv dimension g) {n : Nat}
    {id : VectorId} (hlive : g.live id = some n) (p : VectorId × Embedding) :
    p ∈ (g.withTombstone n id).points ↔ p ∈ g.points ∧ p.1 ≠ id := by
  obtain ⟨pid, e⟩ := p
  have hn := ((h.live_iff id n).mp hlive)
  rw [mem_points, mem_points]
  constructor
  · rintro ⟨m, node, hm, ht, rfl, rfl⟩
    rw [getElem?_withTombstone, Option.map_eq_some_iff] at hm
    obtain ⟨x, hx, heq⟩ := hm
    by_cases hmn : n = m
    · rw [if_pos hmn] at heq
      rw [← heq] at ht
      exact absurd ht (by simp)
    · rw [if_neg hmn] at heq
      subst heq
      refine ⟨⟨m, x, hx, ht, rfl, rfl⟩, fun hid => hmn ?_⟩
      have hm : g.live id = some m := (h.live_iff id m).mpr
        ⟨⟨(List.getElem?_eq_some_iff.mp hx).1, by simp [isTombstone, hx, ht]⟩,
          by simpa [nodeId, hx] using hid⟩
      exact Option.some.inj (hlive.symm.trans hm)
  · rintro ⟨⟨m, node, hm, ht, rfl, rfl⟩, hne⟩
    refine ⟨m, node, ?_, ht, rfl, rfl⟩
    have hmn : n ≠ m := by
      rintro rfl
      have hid : node.id = id := by simpa [nodeId, hm] using hn.2
      exact hne hid
    simp [getElem?_withTombstone, hm, hmn]

/-- Both indexes store the same points. -/
structure Sim (config : HnswConfig) (dimension : Dimension) (s : HnswIndex) (f : FlatIndex) :
    Prop where
  inv : Inv config dimension s
  flat : f.Inv
  metric : f.metric = config.metric
  dim : f.dimension = dimension
  points : ∀ p, p ∈ s.graph.points ↔ p ∈ f.points

namespace Sim

variable {s : HnswIndex} {f : FlatIndex}

theorem new (config : HnswConfig) (dimension : Dimension) :
    Sim config dimension (HnswIndex.new config dimension)
      (FlatIndex.new config.metric dimension) :=
  ⟨inv_new config dimension, FlatIndex.inv_new _ _, rfl, rfl, fun _ => Iff.rfl⟩

theorem nodup_points (h : Sim config dimension s f) : s.graph.points.Nodup :=
  List.Nodup.of_map _ (HnswIndex.nodup_points h.inv.nodes)

theorem length_points (h : Sim config dimension s f) :
    s.graph.points.length = f.points.length :=
  ((List.perm_ext_iff_of_nodup h.nodup_points (FlatIndex.nodup_points h.flat)).mpr
    h.points).length_eq

theorem len_eq (h : Sim config dimension s f) : s.len = f.len := by
  rw [len, h.inv.nodes.liveCount, ← HnswIndex.length_points, h.length_points]
  rfl

theorem live_iff (h : Sim config dimension s f) (id : VectorId) :
    (∃ n, s.graph.live id = some n) ↔ ∃ e, (id, e) ∈ f.points := by
  rw [← Option.isSome_iff_exists, live_isSome_iff h.inv.nodes, List.mem_map]
  constructor
  · rintro ⟨⟨_, e⟩, hp, rfl⟩
    exact ⟨e, (h.points _).mp hp⟩
  · rintro ⟨e, hp⟩
    exact ⟨(id, e), (h.points _).mpr hp, rfl⟩

theorem insert (h : Sim config dimension s f) (levelFloat : LevelFloat) (id : VectorId)
    (e : Embedding) : ∃ s', s.insert P levelFloat id e = some ((f.insert id e).1, s') ∧
      Sim config dimension s' (f.insert id e).2 := by
  obtain ⟨r, s', hcall, houtcome, hinv⟩ := insertTracked_spec (P := P) h.inv levelFloat id e
  have hinsert : s.insert P levelFloat id e = some (r.map (fun _ => ()), s') := by
    rw [HnswIndex.insert, hcall]
    rfl
  have hflatInv := FlatIndex.inv_insert h.flat id e
  have hdims : s.dimension.get = f.dimension.get := by rw [h.inv.dimension_eq, h.dim]
  rw [hinsert]
  cases houtcome with
  | mismatch hdim =>
    have hflat : f.insert id e =
        (.error (.dimensionMismatch f.dimension.get e.dimension), f) := by
      rcases f.insert_cases id e with ⟨-, heq⟩ | ⟨hd, -⟩ | ⟨hd, -⟩
      · exact heq
      · exact absurd (hd.trans hdims.symm) hdim
      · exact absurd (hd.trans hdims.symm) hdim
    exact ⟨s, by rw [hflat, hdims]; rfl, by rw [hflat]; exact h⟩
  | duplicate hdim n hlive =>
    have hflat : f.insert id e = (.error (.duplicateId id), f) := by
      rcases f.insert_cases id e with ⟨hd, -⟩ | ⟨-, -, heq⟩ | ⟨-, hnone, -⟩
      · exact absurd (hdim.trans hdims) hd
      · exact heq
      · obtain ⟨e', he'⟩ := (h.live_iff id).mp ⟨n, hlive⟩
        exact absurd he' (hnone e')
    exact ⟨s, by rw [hflat]; rfl, by rw [hflat]; exact h⟩
  | @accepted hdim hid level _ delta _ hi =>
    have hflat : f.insert id e = (.ok (), { f with points := f.points ++ [(id, e)] }) := by
      rcases f.insert_cases id e with ⟨hd, -⟩ | ⟨-, hsome, -⟩ | ⟨-, -, heq⟩
      · exact absurd (hdim.trans hdims) hd
      · obtain ⟨n, hn⟩ := (h.live_iff id).mpr hsome
        rw [hid] at hn
        exact absurd hn (by simp)
      · exact heq
    rw [hflat] at hflatInv ⊢
    refine ⟨s', rfl, hinv, hflatInv, h.metric, h.dim, ?_⟩
    intro p
    rw [hi.shape.points, points_setEntryPoint, points_withNode, List.mem_append, List.mem_append,
      h.points]

theorem remove (h : Sim config dimension s f) (id : VectorId) :
    (s.remove id).1 = (f.remove id).1 ∧ Sim config dimension (s.remove id).2 (f.remove id).2 := by
  have houtcome := removeTracked_outcome h.inv id
  have hinv := houtcome.inv h.inv
  have hflatInv := FlatIndex.inv_remove h.flat id
  show (s.removeTracked id).1.map Option.isSome = (f.remove id).1 ∧
    Sim config dimension (s.removeTracked id).2 (f.remove id).2
  revert houtcome hinv
  generalize (s.removeTracked id).1 = r
  generalize (s.removeTracked id).2 = s'
  intro houtcome hinv
  cases houtcome with
  | absent hnone =>
    have hflat : f.remove id = (.ok false, f) := by
      rcases f.remove_cases id with ⟨hsome, -⟩ | ⟨-, heq⟩
      · obtain ⟨n, hn⟩ := (h.live_iff id).mpr hsome
        rw [hnone] at hn
        exact absurd hn (by simp)
      · exact heq
    rw [hflat]
    exact ⟨rfl, h⟩
  | @removed node hlive =>
    have hflat : f.remove id =
        (.ok true, { f with points := f.points.eraseP (fun p => p.1 == id) }) := by
      rcases f.remove_cases id with ⟨-, heq⟩ | ⟨hnone, -⟩
      · exact heq
      · obtain ⟨e, he⟩ := (h.live_iff id).mp ⟨node, hlive⟩
        exact absurd he (hnone e)
    rw [hflat] at hflatInv ⊢
    refine ⟨rfl, hinv, hflatInv, h.metric, h.dim, ?_⟩
    intro p
    rw [points_setEntryPoint, mem_points_withTombstone h.inv.nodes hlive, h.points,
      FlatIndex.mem_eraseP_iff h.flat.nodup]

theorem compact (h : Sim config dimension s f) (levelFloat : LevelFloat) :
    ∃ s', s.compact P levelFloat = some (.ok (), s') ∧ Sim config dimension s' f := by
  obtain ⟨s', hcall, hinv, -, hpoints⟩ := compact_spec (P := P) h.inv levelFloat
  exact ⟨s', hcall, hinv, h.flat, h.metric, h.dim, fun p => by rw [hpoints]; exact h.points p⟩

/-- Every call gets the same answer from both. -/
theorem step (h : Sim config dimension s f) (levelFloat : LevelFloat) (op : HnswOp) :
    ∃ s', s.step P levelFloat op = some ((f.step op).1, s') ∧
      Sim config dimension s' (f.step op).2 := by
  cases op with
  | insert id e =>
    obtain ⟨s', hcall, hsim⟩ := h.insert (P := P) levelFloat id e
    exact ⟨s', by rw [HnswIndex.step, hcall]; rfl, hsim⟩
  | remove id =>
    obtain ⟨hanswer, hsim⟩ := h.remove id
    exact ⟨_, by rw [HnswIndex.step, hanswer]; rfl, hsim⟩
  | compact =>
    obtain ⟨s', hcall, hsim⟩ := h.compact (P := P) levelFloat
    exact ⟨s', by rw [HnswIndex.step, hcall]; rfl, hsim⟩

theorem run (h : Sim config dimension s f) (calls : List (LevelFloat × HnswOp)) :
    ∃ s', s.run P calls = some ((f.run (calls.map Prod.snd)).1, s') ∧
      Sim config dimension s' (f.run (calls.map Prod.snd)).2 := by
  induction calls generalizing s f with
  | nil => exact ⟨s, rfl, h⟩
  | cons call rest ih =>
    obtain ⟨s₁, hcall, hsim⟩ := h.step (P := P) call.1 call.2
    obtain ⟨s', hrest, hsim'⟩ := ih hsim
    exact ⟨s', by simp [HnswIndex.run, hcall, hrest, FlatIndex.run], hsim'⟩

/-- With `k` the number of points, the flat index lists every admissible one. -/
theorem flat_search (h : Sim config dimension s f) {query : Embedding}
    (hdim : query.dimension = dimension.get) (isAdmissible : VectorId → Bool) :
    f.searchFiltered P.f32 query f.len config.metric isAdmissible = .ok
      (sortBy Neighbor.cmp ((f.points.filter (fun p => isAdmissible p.1)).map
        (neighborOf P.f32 config.metric query.values))) := by
  unfold FlatIndex.searchFiltered hits
  rw [h.dim, if_neg (not_not.mpr hdim), List.take_of_length_le]
  rw [length_sortBy, List.length_map]
  exact List.length_filter_le _ _

/-- What the flat index lists in full: the admissible points, each once. -/
theorem mem_flat_search (h : Sim config dimension s f) {query : List F32}
    {isAdmissible : VectorId → Bool} {r : Neighbor}
    (hr : r ∈ sortBy Neighbor.cmp ((f.points.filter (fun p => isAdmissible p.1)).map
      (neighborOf P.f32 config.metric query))) :
    isAdmissible r.id = true ∧ ∃ n, s.graph.live r.id = some n ∧
      r.score = config.metric.score P.f32 query (s.graph.embeddingOf n) := by
  rw [mem_sortBy, List.mem_map] at hr
  obtain ⟨⟨id, e⟩, hp, rfl⟩ := hr
  obtain ⟨hp, hadm⟩ := List.mem_filter.mp hp
  obtain ⟨n, hn, hid, hemb⟩ := live_of_point ((h.points (id, e)).mpr hp)
  obtain ⟨id', hid'⟩ := nodeId_eq_some hn.1
  rw [idOf, hid', Option.getD_some] at hid
  subst hid
  exact ⟨hadm, n, (h.inv.nodes.live_iff id' n).mpr ⟨hn, hid'⟩, by rw [hemb]; rfl⟩

theorem nodup_flat_search (h : Sim config dimension s f) (query : List F32)
    (isAdmissible : VectorId → Bool) :
    ((sortBy Neighbor.cmp ((f.points.filter (fun p => isAdmissible p.1)).map
      (neighborOf P.f32 config.metric query))).map (fun r => r.id)).Nodup := by
  have hperm := (sortBy_perm Neighbor.cmp ((f.points.filter (fun p => isAdmissible p.1)).map
    (neighborOf P.f32 config.metric query))).map (fun r => r.id)
  rw [hperm.nodup_iff, List.map_map]
  exact h.flat.nodup.sublist (List.filter_sublist.map Prod.fst)

end Sim

/-- The list a search returns, against the full list of the flat index: a part
    of it in the same order, with distinct ids, each live, admissible and
    scored with its current embedding. -/
structure SoundList (P : Platform) (metric : Metric) (g : HnswGraph) (query : List F32) (k : Nat)
    (isAdmissible : VectorId → Bool) (out all : List Neighbor) : Prop where
  length_le : out.length ≤ k
  sublist : out.Sublist all
  distinct : (out.map (fun r => r.id)).Nodup
  admissible : ∀ r ∈ out, isAdmissible r.id = true
  current : ∀ r ∈ out, ∃ n, g.live r.id = some n ∧
    r.score = metric.score P.f32 query (g.embeddingOf n)

/-- A search answer against that of the flat index: the same rejection, or a
    sound list. -/
inductive SoundAnswer (P : Platform) (metric : Metric) (g : HnswGraph) (query : List F32)
    (k : Nat) (isAdmissible : VectorId → Bool) :
    Option (Except IndexError (List Neighbor)) → Except IndexError (List Neighbor) → Prop where
  | rejected (e : IndexError) :
      SoundAnswer P metric g query k isAdmissible (some (.error e)) (.error e)
  | listed {out all : List Neighbor}
      (hlist : SoundList P metric g query k isAdmissible out all) :
      SoundAnswer P metric g query k isAdmissible (some (.ok out)) (.ok all)

theorem Sim.search {s : HnswIndex} {f : FlatIndex} (h : Sim config dimension s f)
    (query : Embedding) (k : Nat) (isAdmissible : VectorId → Bool) :
    SoundAnswer P config.metric s.graph query.values k isAdmissible
      (s.searchFiltered P query k config.metric isAdmissible)
      (f.searchFiltered P.f32 query f.len config.metric isAdmissible) := by
  by_cases hdim : query.dimension = dimension.get
  · rw [h.flat_search hdim]
    rcases searchFiltered_spec (P := P) h.inv hdim k isAdmissible with
      ⟨-, hnone⟩ | ⟨entry, current, candidates, -, -, -, hspec, hsome⟩
    · rw [hnone]
      exact .listed ⟨Nat.zero_le k, List.nil_sublist _, List.nodup_nil, by simp, by simp⟩
    · rw [hsome]
      have hsub : (sortBy Neighbor.cmp ((candidates.take k).map neighborOfCandidate)).Sublist
          (sortBy Neighbor.cmp ((f.points.filter (fun p => isAdmissible p.1)).map
            (neighborOf P.f32 config.metric query.values))) := by
        apply sublist_sortBy
        · exact sortBy_sorted Neighbor.cmp _
        · have hnodup := (nodup_candidates h.inv.nodes hspec).sublist
            ((List.take_sublist k candidates).map neighborOfCandidate)
          exact (sortBy_perm Neighbor.cmp _).nodup_iff.mpr hnodup
        · intro r hr
          rw [mem_sortBy, List.mem_map] at hr
          obtain ⟨c, hc, rfl⟩ := hr
          obtain ⟨p, hp, hadm, heq⟩ := candidate_point hspec (List.mem_of_mem_take hc)
          rw [heq]
          exact List.mem_map_of_mem (List.mem_filter.mpr ⟨(h.points p).mp hp, hadm⟩)
      have htake := (List.take_sublist k _).trans hsub
      exact .listed ⟨List.length_take_le _ _, htake,
        (h.nodup_flat_search query.values isAdmissible).sublist (htake.map _),
        fun r hr => (h.mem_flat_search (htake.subset hr)).1,
        fun r hr => (h.mem_flat_search (htake.subset hr)).2⟩
  · have hs : s.searchFiltered P query k config.metric isAdmissible =
        some (.error (.dimensionMismatch dimension.get query.dimension)) := by
      rw [searchFiltered, h.inv.dimension_eq, if_pos hdim]
    have hf : f.searchFiltered P.f32 query f.len config.metric isAdmissible =
        .error (.dimensionMismatch dimension.get query.dimension) := by
      rw [FlatIndex.searchFiltered, h.dim, if_pos hdim]
    rw [hs, hf]
    exact .rejected _

/-- **Soundness.**  An index and a flat index under the same calls answer
    alike, hold as many points, and every search of the first lists a part of
    what the second would. -/
theorem run_sound (P : Platform) (config : HnswConfig) (dimension : Dimension)
    (calls : List (LevelFloat × HnswOp)) :
    ∃ s, (new config dimension).run P calls =
        some (((FlatIndex.new config.metric dimension).run (calls.map Prod.snd)).1, s) ∧
      s.len = ((FlatIndex.new config.metric dimension).run (calls.map Prod.snd)).2.len ∧
      ∀ query k isAdmissible,
        let f := ((FlatIndex.new config.metric dimension).run (calls.map Prod.snd)).2
        SoundAnswer P config.metric s.graph query.values k isAdmissible
          (s.searchFiltered P query k config.metric isAdmissible)
          (f.searchFiltered P.f32 query f.len config.metric isAdmissible) := by
  obtain ⟨s, hrun, hsim⟩ := (Sim.new config dimension).run (P := P) calls
  exact ⟨s, hrun, hsim.len_eq, fun query k isAdmissible => hsim.search query k isAdmissible⟩

end HnswIndex

end EidosDB
