import EidosDB.Hnsw.Connectivity

/-! # When a Search Is Exact

    On a connected graph a beam as wide as the number of live points misses
    nothing, so the answer is that of the flat index.  A graph is connected
    while it has at most `m_max0 + 1` nodes, and as long as no insert offers
    its node to a neighbor whose layer-0 list is full. -/

namespace EidosDB

open HnswGraph

variable {P : Platform} {config : HnswConfig} {dimension : Dimension}

namespace HnswIndex

/-! ## Exact answers -/

/-- The beam takes every live node. -/
theorem withinBeam_live {g : HnswGraph} {layer entry ef : Nat} {isAdmissible : VectorId → Bool}
    (hentry : entry < g.nodeCount) (hef : g.liveNodes.length ≤ ef) :
    g.WithinBeam layer entry ef isAdmissible := by
  intro l hnodup hall
  have hsub : l ⊆ g.liveNodes.map (fun x => x.idx) := by
    intro n hn
    obtain ⟨hreach, htomb, -⟩ := hall n hn
    have hlt : n < g.nodeCount := by
      rcases Relation.ReflTransGen.cases_tail hreach with rfl | ⟨x, -, -, hx⟩
      · exact hentry
      · exact hx
    obtain ⟨x, hx, heq⟩ := exists_liveNode ⟨hlt, htomb⟩
    exact List.mem_map.mpr ⟨x, hx, heq⟩
  have hlen := (List.subperm_of_subset hnodup hsub).length_le
  rw [List.length_map] at hlen
  exact le_trans hlen hef

namespace Sim

variable {s : HnswIndex} {f : FlatIndex}

/-- A beam search that takes every live node of a connected graph finds
    exactly the admissible points. -/
theorem candidates_perm (h : Sim config dimension s f) (hconn : Connected s.graph)
    {query : List F32} {entry current ef : Nat} {isAdmissible : VectorId → Bool}
    {candidates : List Candidate} (hentry : s.graph.entryPoint = some entry)
    (hreach : s.graph.ReachAbove 1 entry current) (hlt : current < s.graph.nodeCount)
    (hef : s.len ≤ ef)
    (hspec : s.graph.BeamSpec P config.metric query current ef 0 isAdmissible candidates) :
    (candidates.map neighborOfCandidate).Perm ((f.points.filter (fun p => isAdmissible p.1)).map
      (neighborOf P.f32 config.metric query)) := by
  have hflat : ((f.points.filter (fun p => isAdmissible p.1)).map
      (neighborOf P.f32 config.metric query)).Nodup :=
    (sortBy_perm Neighbor.cmp _).nodup_iff.mp
      (List.Nodup.of_map _ (h.nodup_flat_search query isAdmissible))
  rw [List.perm_ext_iff_of_nodup (nodup_candidates h.inv.nodes hspec) hflat]
  intro r
  constructor
  · -- what the beam returns is live and admissible
    intro hr
    obtain ⟨c, hc, rfl⟩ := List.mem_map.mp hr
    obtain ⟨p, hp, hadm, heq⟩ := candidate_point hspec hc
    rw [heq]
    exact List.mem_map_of_mem (List.mem_filter.mpr ⟨(h.points p).mp hp, hadm⟩)
  · -- a point has a live node, which is reached and fits into the beam
    intro hr
    obtain ⟨⟨id, e⟩, hp, rfl⟩ := List.mem_map.mp hr
    obtain ⟨hp, hadm⟩ := List.mem_filter.mp hp
    obtain ⟨n, hn, hid, hemb⟩ := live_of_point ((h.points (id, e)).mpr hp)
    have hbeam : s.graph.WithinBeam 0 current ef isAdmissible :=
      withinBeam_live hlt (by rw [← h.inv.nodes.liveCount]; exact hef)
    have hc := hspec.complete hbeam n (hconn.live_reachable hentry hreach hn)
      ⟨hn.2, by rw [hid]; exact hadm⟩
    refine List.mem_map.mpr ⟨_, hc, ?_⟩
    simp only [neighborOfCandidate, neighborOf, candidateOf, hid, hemb]

/-- On a connected graph, with a beam for all live points, both indexes give
    the same answer. -/
theorem search_exact (h : Sim config dimension s f) (hconn : Connected s.graph)
    (query : Embedding) (k : Nat) (isAdmissible : VectorId → Bool)
    (hef : s.len ≤ max config.efSearch k) :
    s.searchFiltered P query k config.metric isAdmissible =
      some (f.searchFiltered P.f32 query k config.metric isAdmissible) := by
  by_cases hdim : query.dimension = dimension.get
  · have hflat : f.searchFiltered P.f32 query k config.metric isAdmissible =
        .ok (hits P.f32 config.metric query.values k isAdmissible f.points) := by
      rw [FlatIndex.searchFiltered, h.dim, if_neg (not_not.mpr hdim)]
    rw [hflat]
    rcases searchFiltered_spec (P := P) h.inv hdim k isAdmissible with
      ⟨hep, hnone⟩ | ⟨entry, current, candidates, hep, hreach, hlt, hspec, hsome⟩
    · -- no entry point: nothing is stored
      have hempty : f.points = [] := by
        rw [List.eq_nil_iff_forall_not_mem]
        rintro ⟨id, e⟩ hp
        obtain ⟨n, hn, -⟩ := live_of_point ((h.points (id, e)).mpr hp)
        exact h.inv.entry.none_iff.mp hep n hn
      rw [hnone, hempty]
      simp [hits, sortBy]
    · -- the candidates come sorted, so the final sort has nothing to do
      have hsorted : (candidates.map neighborOfCandidate).Pairwise (Before Neighbor.cmp) := by
        rw [List.pairwise_map]
        exact hspec.sorted
      have hperm := sortBy_eq_of_perm Neighbor.cmp
        (h.candidates_perm hconn hep hreach hlt hef hspec)
      rw [hsome, hits, ← hperm, sortBy_of_sorted Neighbor.cmp hsorted, List.map_take,
        sortBy_of_sorted Neighbor.cmp (hsorted.sublist (List.take_sublist k _)), List.take_take,
        min_self]
  · rw [searchFiltered, h.inv.dimension_eq, if_pos hdim, FlatIndex.searchFiltered, h.dim,
      if_pos hdim]

end Sim

/-! ## Small indexes -/

theorem reachable_small {s : HnswIndex} (h : Reachable P config dimension s) :
    s.graph.nodeCount ≤ config.mMax0 + 1 → Connected s.graph := by
  induction h with
  | init => exact fun _ => Connected.new
  | step levelFloat op hs hcall ih => exact step_small (reachable_inv hs) hcall ih

/-- **Exactness of small indexes.**  While the nodes, marked ones included, are
    at most `m_max0 + 1`, no list of layer 0 was ever pruned, and a search
    with a beam for all live points answers as the flat index does. -/
theorem run_exact (P : Platform) (config : HnswConfig) (dimension : Dimension)
    (calls : List (LevelFloat × HnswOp)) :
    ∃ s, (new config dimension).run P calls =
        some (((FlatIndex.new config.metric dimension).run (calls.map Prod.snd)).1, s) ∧
      (s.graph.nodeCount ≤ config.mMax0 + 1 → ∀ query k isAdmissible,
        s.len ≤ max config.efSearch k →
        s.searchFiltered P query k config.metric isAdmissible =
          some (((FlatIndex.new config.metric dimension).run (calls.map Prod.snd)).2.searchFiltered
            P.f32 query k config.metric isAdmissible)) := by
  obtain ⟨s, hrun, hsim⟩ := (Sim.new config dimension).run (P := P) calls
  refine ⟨s, hrun, fun hsmall query k isAdmissible hef => ?_⟩
  exact hsim.search_exact (reachable_small (reachable_run .init calls hrun) hsmall) query k
    isAdmissible hef

theorem run_exact_reinsert : ∃ s, (new (.degreeTwo 50) .one).run .small reinsertCalls =
      some (((FlatIndex.new .dotProduct .one).run (reinsertCalls.map Prod.snd)).1, s) ∧
    ∀ isAdmissible,
      s.searchFiltered .small (.single (F32.ofInt 2) (.refl true)) 2 .dotProduct isAdmissible =
        some (((FlatIndex.new .dotProduct .one).run (reinsertCalls.map Prod.snd)).2.searchFiltered
          F32Ops.small (.single (F32.ofInt 2) (.refl true)) 2 .dotProduct isAdmissible) := by
  obtain ⟨s, hrun, hexact⟩ := run_exact .small (.degreeTwo 50) .one reinsertCalls
  have hsize : ((new (.degreeTwo 50) .one).run .small reinsertCalls).map
      (fun r => (r.2.graph.nodeCount, r.2.len)) = some (3, 2) := by decide +kernel
  rw [hrun] at hsize
  simp only [Option.map_some, Option.some.injEq, Prod.mk.injEq] at hsize
  exact ⟨s, hrun, fun isAdmissible => hexact (by rw [hsize.1]; decide) _ 2 isAdmissible
    (by rw [hsize.2]; decide)⟩

/-! ## Full lists -/

/-- Whether the layer loop, with `count` layers left, comes to offer the new
    node to a node whose layer-0 list is full. -/
def linkMeetsFull (P : Platform) (metric : Metric) (config : HnswConfig) (query : List F32)
    (newNode : Nat) : Nat → LinkState → Bool
  | 0, _ => false
  | count + 1, st =>
      match layerCandidates P metric config query st count,
        linkLayer P metric config query newNode count st with
      | some candidates, some st' =>
          (count == 0 &&
            (st.graph.selectNeighborsHeuristic P metric candidates (config.limit count)).any
              (fun sel => decide (config.limit count ≤ (st.graph.neighbors sel count).length))) ||
          linkMeetsFull P metric config query newNode count st'
      | _, _ => false

/-- The same for an insert; a rejected one links nothing. -/
def insertMeetsFull (P : Platform) (levelFloat : LevelFloat) (s : HnswIndex) (id : VectorId)
    (e : Embedding) : Bool :=
  if e.dimension ≠ s.dimension.get ∨ (s.graph.idToNode id).isSome then false
  else
    match s.graph.entryPoint with
    | none => false
    | some entry =>
        let level := (s.rng.nextLevel levelFloat s.config.m).1
        linkMeetsFull P s.config.metric s.config e.values s.graph.nodeCount
          (min level (s.graph.nodeLevel entry) + 1)
          (linkStart P s.config s.graph id e level entry)

/-- The same for the inserts of a compaction. -/
def bulkMeetsFull (P : Platform) (levelFloat : LevelFloat) :
    HnswIndex → List (VectorId × Embedding) → Bool
  | _, [] => false
  | s, (id, e) :: rest =>
      insertMeetsFull P levelFloat s id e ||
        match s.insert P levelFloat id e with
        | some (.ok (), s') => bulkMeetsFull P levelFloat s' rest
        | _ => false

/-- Whether a call offers a new node to a node whose layer-0 list is full. -/
def meetsFull (P : Platform) (levelFloat : LevelFloat) (s : HnswIndex) : HnswOp → Bool
  | .insert id e => insertMeetsFull P levelFloat s id e
  | .remove _ => false
  | .compact => bulkMeetsFull P levelFloat (new s.config s.dimension) s.graph.points

/-- Whether some call of a run does. -/
def runMeetsFull (P : Platform) : HnswIndex → List (LevelFloat × HnswOp) → Bool
  | _, [] => false
  | s, call :: rest =>
      meetsFull P call.1 s call.2 ||
        match s.step P call.1 call.2 with
        | some (_, s') => runMeetsFull P s' rest
        | none => false

theorem linkMeetsFull_step {metric : Metric} {query : List F32} {newNode count : Nat}
    {st st' : LinkState} {candidates : List Candidate} {selected : List Nat}
    (hl : LayerLinked P metric config query newNode count st st' candidates selected)
    (hroom : linkMeetsFull P metric config query newNode (count + 1) st = false) :
    linkMeetsFull P metric config query newNode count st' = false ∧
      (count = 0 → ∀ n ∈ selected, (st.graph.neighbors n 0).length < config.limit 0) := by
  unfold linkMeetsFull at hroom
  rw [hl.found, hl.call] at hroom
  dsimp only at hroom
  rw [← hl.selection, Bool.or_eq_false_iff] at hroom
  refine ⟨hroom.2, ?_⟩
  rintro rfl
  have hnone := hroom.1
  simp only [beq_self_eq_true, Bool.true_and, List.any_eq_false, decide_eq_true_eq] at hnone
  exact fun n hn => not_le.mp (hnone n hn)

theorem insertTracked_roomy {s s' : HnswIndex} (h : Inv config dimension s)
    (hconn : Connected s.graph) {levelFloat : LevelFloat} {id : VectorId} {e : Embedding}
    {delta : InsertDelta} (hroom : insertMeetsFull P levelFloat s id e = false)
    (hcall : insertTracked P levelFloat s id e = some (.ok delta, s')) : Connected s'.graph := by
  obtain ⟨hdim, hid, hat⟩ := insertTracked_ok hcall
  unfold insertMeetsFull idToNode at hroom
  rw [hid, if_neg (by simp [hdim])] at hroom
  obtain rfl := h.config_eq
  generalize s.rng.nextLevel levelFloat s.config.m = drawn at hat hroom
  obtain ⟨delta', s₁, hat', hconn'⟩ := insertAt_connected (P := P)
    (fun count st => linkMeetsFull P s.config.metric s.config e.values
      s.graph.nodeCount count st = false)
    (h.setRng drawn.2) hconn (hdim.trans (congrArg Dimension.get h.dimension_eq)) hid
    (fun entry hep => by
      have hep : s.graph.entryPoint = some entry := hep
      rw [hep] at hroom
      exact hroom)
    (fun _ _ _ _ _ hl hextra => (linkMeetsFull_step hl hextra).1)
    (fun _ _ _ _ _ hl hextra => (linkMeetsFull_step hl hextra).2 rfl)
  rw [hat] at hat'
  cases hat'
  exact hconn'

theorem step_roomy {s s' : HnswIndex} (h : Inv config dimension s) (hconn : Connected s.graph)
    {levelFloat : LevelFloat} {op : HnswOp} {answer : Answer}
    (hroom : meetsFull P levelFloat s op = false)
    (hcall : s.step P levelFloat op = some (answer, s')) : Connected s'.graph := by
  cases op with
  | insert id e =>
    obtain ⟨r, s₁, htracked, houtcome, -⟩ := insertTracked_spec (P := P) h levelFloat id e
    rw [step, insert, htracked] at hcall
    obtain rfl : s₁ = s' := by simpa using congrArg (Option.map Prod.snd) hcall
    cases houtcome with
    | mismatch => exact hconn
    | duplicate => exact hconn
    | accepted => exact insertTracked_roomy h hconn hroom htracked
  | remove id =>
    have hs' : (s.remove id).2 = s' := by
      rw [step] at hcall
      simpa using congrArg (Option.map Prod.snd) hcall
    rw [← hs']
    show Connected (s.removeTracked id).2.graph
    have houtcome := removeTracked_outcome h id
    generalize (s.removeTracked id).1 = r at houtcome
    generalize (s.removeTracked id).2 = s₁ at houtcome
    cases houtcome with
    | absent => exact hconn
    | removed => exact hconn.withTombstone h.entry _ _
  | compact =>
    unfold meetsFull at hroom
    rw [h.config_eq, h.dimension_eq] at hroom
    obtain ⟨s₁, hcompact, -, hconn', -⟩ := compact_induct (P := P) levelFloat
      (motive := fun rest s => Connected s.graph ∧ bulkMeetsFull P levelFloat s rest = false) h
      ⟨Connected.new, hroom⟩ (by
      intro id e rest s delta s' level hinv _ hend htracked _
      obtain ⟨hc, hbulk⟩ := hend
      rw [bulkMeetsFull, Bool.or_eq_false_iff, insert, htracked] at hbulk
      exact ⟨insertTracked_roomy hinv hc hbulk.1 htracked, hbulk.2⟩)
    rw [step, hcompact] at hcall
    obtain rfl : s₁ = s' := by simpa using congrArg (Option.map Prod.snd) hcall
    exact hconn'

theorem run_roomy {s : HnswIndex} (h : Inv config dimension s) (hconn : Connected s.graph)
    (calls : List (LevelFloat × HnswOp)) (hroom : runMeetsFull P s calls = false) :
    ∃ answers s', s.run P calls = some (answers, s') ∧ Inv config dimension s' ∧
      Connected s'.graph := by
  induction calls generalizing s with
  | nil => exact ⟨[], s, rfl, h, hconn⟩
  | cons call rest ih =>
    obtain ⟨answer, s₁, hcall, hinv⟩ := step_spec (P := P) h call.1 call.2
    rw [runMeetsFull, hcall, Bool.or_eq_false_iff] at hroom
    obtain ⟨answers, s', hrest, hend⟩ := ih hinv (step_roomy h hconn hroom.1 hcall) hroom.2
    exact ⟨answer :: answers, s', by simp [run, hcall, hrest], hend⟩

/-! ## Finding every stored vector -/

/-- Every live id is returned when neither the beam nor `k` can leave one out. -/
def Findable (P : Platform) (config : HnswConfig) (dimension : Dimension) (s : HnswIndex) : Prop :=
  ∀ query k, query.dimension = dimension.get → s.graph.nodeCount ≤ k →
    ∃ out, s.searchFiltered P query k config.metric (fun _ => true) = some (.ok out) ∧
      ∀ id, (s.graph.live id).isSome → id ∈ out.map (fun r => r.id)

/-- The flat index that stores the live points. -/
def toFlat (s : HnswIndex) : FlatIndex :=
  { metric := s.config.metric, dimension := s.dimension, points := s.graph.points }

theorem sim_toFlat {s : HnswIndex} (h : Inv config dimension s) :
    Sim config dimension s s.toFlat := by
  refine ⟨h, ⟨nodup_points h.nodes, ?_⟩, by rw [toFlat, h.config_eq],
    by rw [toFlat, h.dimension_eq], fun _ => Iff.rfl⟩
  rintro ⟨id, e⟩ hp
  obtain ⟨n, node, hn, -, -, rfl⟩ := mem_points.mp hp
  rw [toFlat, h.dimension_eq]
  exact h.nodes.dim node (List.mem_of_getElem? hn)

theorem findable_of_connected {s : HnswIndex} (h : Inv config dimension s)
    (hconn : Connected s.graph) : Findable P config dimension s := by
  intro query k hdim hk
  have hlen : s.graph.points.length ≤ k :=
    le_trans (List.length_filterMap_le _ _) hk
  have hlive : s.len ≤ k := by
    rw [len, h.nodes.liveCount, ← length_points]
    exact hlen
  have hsearch := (sim_toFlat h).search_exact (P := P) hconn query k (fun _ => true)
    (le_trans hlive (le_max_right _ _))
  rw [FlatIndex.searchFiltered, if_neg (by simp [toFlat, h.dimension_eq, hdim])] at hsearch
  refine ⟨_, hsearch, fun id hid => ?_⟩
  obtain ⟨⟨id, e⟩, hp, rfl⟩ := List.mem_map.mp ((live_isSome_iff h.nodes id).mp hid)
  exact List.mem_map.mpr ⟨_, (mem_hits_all hlen).mpr ⟨(id, e), hp, rfl, rfl⟩, rfl⟩

/-- **Every stored vector is findable** in a run in which no insert offers its
    node to a neighbor whose layer-0 list is full. -/
theorem run_findable (P : Platform) (config : HnswConfig) (dimension : Dimension)
    (calls : List (LevelFloat × HnswOp))
    (hroom : runMeetsFull P (new config dimension) calls = false) :
    ∃ answers s, (new config dimension).run P calls = some (answers, s) ∧
      Findable P config dimension s := by
  obtain ⟨answers, s, hrun, hinv, hconn⟩ := run_roomy (P := P) (inv_new config dimension)
    Connected.new calls hroom
  exact ⟨answers, s, hrun, findable_of_connected hinv hconn⟩

theorem run_findable_reinsert : ∃ answers s,
    (new (.degreeTwo 50) .one).run .small reinsertCalls = some (answers, s) ∧
      Findable .small (.degreeTwo 50) .one s :=
  run_findable .small (.degreeTwo 50) .one reinsertCalls (by decide +kernel)

/-- Six inserts of one vector under ascending ids. -/
def sixTwins : List (LevelFloat × HnswOp) :=
  ([1, 2, 3, 4, 5, 6] : List (Fin (2 ^ 128))).map fun id =>
    (.base2, .insert ⟨id⟩ (.single (F32.ofInt 1) (.refl true)))

/-- The sixth of six equal vectors is dropped from every list it is offered
    to, and no search returns it. -/
theorem not_findable_sixTwins : ∃ answers s,
    (new (.degreeTwo 50) .one).run .small sixTwins = some (answers, s) ∧
      ¬ Findable .small (.degreeTwo 50) .one s := by
  obtain ⟨answers, s, hrun⟩ := run_isSome (P := .small) (inv_new (.degreeTwo 50) .one) sixTwins
  refine ⟨answers, s, hrun, fun hfind => ?_⟩
  have hfacts : ((new (.degreeTwo 50) .one).run .small sixTwins).map (fun r =>
      (r.2.graph.nodeCount, (r.2.graph.live ⟨6⟩).isSome,
        (r.2.searchFiltered .small (.single (F32.ofInt 1) (.refl true)) 6 .dotProduct
          (fun _ => true)).map (fun a => a.toOption.map (fun out => out.map (fun r => r.id))))) =
      some (6, true, some (some [⟨1⟩, ⟨2⟩, ⟨3⟩, ⟨4⟩, ⟨5⟩])) := by decide +kernel
  rw [hrun] at hfacts
  simp only [Option.map_some, Option.some.injEq, Prod.mk.injEq] at hfacts
  obtain ⟨hcount, hlive, hsearch⟩ := hfacts
  obtain ⟨out, hout, hall⟩ := hfind (.single (F32.ofInt 1) (.refl true)) 6 rfl
    (by rw [hcount])
  have hout' : s.searchFiltered .small (.single (F32.ofInt 1) (.refl true)) 6 .dotProduct
      (fun _ => true) = some (.ok out) := hout
  rw [hout'] at hsearch
  have hids : out.map (fun r => r.id) = [⟨1⟩, ⟨2⟩, ⟨3⟩, ⟨4⟩, ⟨5⟩] := by
    simpa [Except.toOption] using hsearch
  have hmem := hall ⟨6⟩ hlive
  rw [hids] at hmem
  exact absurd hmem (by decide)

end HnswIndex

end EidosDB
