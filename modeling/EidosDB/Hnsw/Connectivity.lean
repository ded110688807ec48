import EidosDB.Hnsw.Sound

/-! # Connectivity of Layer 0

    A search sees the nodes that layer 0 connects to the node where its
    descent ends.  `Connected` says that these are all the live ones: layer 0
    is symmetric, the links of every layer stay inside one component of it,
    and the live nodes are in the component of the entry point.

    An insert keeps this as long as no selected node drops a link.  A full
    list that is offered the new node is pruned, and the links it drops are
    kept by their other ends: there the symmetry is lost, and with it the
    invariant. -/

namespace EidosDB

open HnswGraph HnswIndex

variable {P : Platform} {config : HnswConfig} {dimension : Dimension} {g g' : HnswGraph}

namespace HnswGraph

/-! ## Components -/

theorem Reach.single {l a b : Nat} (h : b ∈ g.neighbors a l) (hb : b < g.nodeCount) :
    g.Reach l a b :=
  Relation.ReflTransGen.single ⟨h, hb⟩

theorem Reach.trans {l a b c : Nat} (hab : g.Reach l a b) (hbc : g.Reach l b c) :
    g.Reach l a c :=
  Relation.ReflTransGen.trans hab hbc

/-- A graph that keeps the links of a layer keeps its paths. -/
theorem Reach.mono {l a b : Nat} (hcount : g.nodeCount ≤ g'.nodeCount)
    (hlinks : ∀ n x, x ∈ g.neighbors n l → x ∈ g'.neighbors n l) (h : g.Reach l a b) :
    g'.Reach l a b :=
  Relation.ReflTransGen.mono (fun n x hx => ⟨hlinks n x hx.1, lt_of_lt_of_le hx.2 hcount⟩) _ _ h

theorem Reach.symm {l a b : Nat}
    (hsymm : ∀ n x, x ∈ g.neighbors n l → n ∈ g.neighbors x l) (h : g.Reach l a b) :
    g.Reach l b a := by
  induction h with
  | refl => exact Relation.ReflTransGen.refl
  | tail _ hlink ih =>
    exact (Reach.single (hsymm _ _ hlink.1) (lt_of_mem_neighbors hlink.1)).trans ih

/-- Layer 0 is symmetric, all links stay in its components, and the live nodes
    are in the component of the entry point. -/
structure Connected (g : HnswGraph) : Prop where
  symm : ∀ a b, b ∈ g.neighbors a 0 → a ∈ g.neighbors b 0
  upper : ∀ l a b, b ∈ g.neighbors a l → g.Reach 0 a b
  live : ∀ e n, g.entryPoint = some e → g.IsLive n → g.Reach 0 e n

namespace Connected

theorem new : Connected HnswGraph.new := by
  have hnil : ∀ n l, HnswGraph.new.neighbors n l = [] := fun n l =>
    neighbors_of_le (Nat.zero_le n) l
  exact ⟨by simp [hnil], by simp [hnil], fun e n he => absurd he (by simp [HnswGraph.new])⟩

/-- A descent stays in the component it starts in. -/
theorem reachAbove (h : Connected g) {lo a b : Nat} (hab : g.ReachAbove lo a b) :
    g.Reach 0 a b := by
  induction hab with
  | refl => exact Relation.ReflTransGen.refl
  | tail _ hlink ih =>
    obtain ⟨l, -, hl⟩ := hlink
    exact ih.trans (h.upper l _ _ hl)

/-- From wherever a descent ends, every live node is reachable. -/
theorem live_reachable (h : Connected g) {lo e c n : Nat} (he : g.entryPoint = some e)
    (hc : g.ReachAbove lo e c) (hn : g.IsLive n) : g.Reach 0 c n :=
  ((h.reachAbove hc).symm h.symm).trans (h.live e n he hn)

/-- Marking a node keeps its links; another live node takes over as entry. -/
theorem withTombstone (h : Connected g) (hentry : EntryInv g) (node : Nat) (id : VectorId) :
    Connected ((g.withTombstone node id).setEntryPoint (electedEntry g node id)) := by
  have hreach : ∀ a b, g.Reach 0 a b → ((g.withTombstone node id).setEntryPoint
      (electedEntry g node id)).Reach 0 a b := fun a b hab =>
    hab.mono (by simp) (by simp)
  refine ⟨?_, ?_, ?_⟩
  · simpa using h.symm
  · intro l a b hb
    exact hreach a b (h.upper l a b (by simpa using hb))
  · intro e n he hn
    have hnew := (entryInv_removed hentry node id).live e he
    rw [isLive_setEntryPoint, isLive_withTombstone] at hn hnew
    refine hreach e n ?_
    cases hep : g.entryPoint with
    | none => exact absurd hn.1 (hentry.none_iff.mp hep n)
    | some entry =>
      exact ((h.live entry e hep hnew.1).symm h.symm).trans (h.live entry n hep hn.1)

end Connected

/-! ## Linking a new node -/

/-- What holds of the links while layer 0 is not written: the links between
    old nodes stay in the components of the old graph `g`, and the new node is
    linked to the component of the old entry point. -/
structure BeforeBase (g : HnswGraph) (newNode entry : Nat) (st : LinkState) : Prop where
  base : ∀ n, st.graph.neighbors n 0 = g.neighbors n 0
  old : ∀ l a b, b ∈ st.graph.neighbors a l → a ≠ newNode → b ≠ newNode → g.Reach 0 a b
  ofNew : ∀ l b, b ∈ st.graph.neighbors newNode l → g.Reach 0 entry b
  toNew : ∀ l a, newNode ∈ st.graph.neighbors a l → g.Reach 0 entry a
  current : g.Reach 0 entry st.current

/-- What holds once layer 0 is written. -/
structure AfterBase (g : HnswGraph) (newNode entry : Nat) (g' : HnswGraph) : Prop where
  symm : ∀ a b, b ∈ g'.neighbors a 0 → a ∈ g'.neighbors b 0
  upper : ∀ l a b, b ∈ g'.neighbors a l → g'.Reach 0 a b
  new : g'.Reach 0 entry newNode
  old : ∀ a b, g.Reach 0 a b → g'.Reach 0 a b

section link

variable {base : HnswGraph} {metric : Metric} {query : List F32} {newNode entry count : Nat}
  {st st' : LinkState} {candidates : List Candidate} {selected : List Nat}

/-- The candidates of a layer are in the component of the entry point. -/
theorem BeforeBase.candidate_reach (h : BeforeBase g newNode entry st)
    (hlinking : Linking config base newNode (count + 1) st)
    (hl : LayerLinked P metric config query newNode count st st' candidates selected) :
    ∀ c ∈ candidates, g.Reach 0 entry c.node := by
  have hpath : ∀ n, st.graph.Reach count st.current n → n ≠ newNode ∧ g.Reach 0 entry n := by
    intro n hn
    induction hn with
    | refl => exact ⟨hlinking.current_ne, h.current⟩
    | @tail a b _ hab ih =>
      have hb : b ≠ newNode := fun heq =>
        hlinking.new_unlisted a count (Nat.lt_succ_self _) (heq ▸ hab.1)
      exact ⟨hb, ih.2.trans (h.old count a b hab.1 ih.1 hb)⟩
  exact fun c hc => (hpath c.node (hl.search.reach c hc)).2

/-- A layer above the base keeps `BeforeBase`. -/
theorem BeforeBase.step (h : BeforeBase g newNode entry st)
    (hlinking : Linking config base newNode (count + 1) st)
    (hl : LayerLinked P metric config query newNode count st st' candidates selected)
    (hcount : 0 < count) : BeforeBase g newNode entry st' := by
  have hcandidates := h.candidate_reach hlinking hl
  have hselected : ∀ n ∈ selected, g.Reach 0 entry n := by
    intro n hn
    obtain ⟨c, hc, rfl⟩ := hl.selected_candidate hn
    exact hcandidates c hc
  refine ⟨?_, ?_, ?_, ?_, ?_⟩
  · intro n
    rw [hl.linked.otherLayer n 0 (by omega), h.base]
  · intro l a b hb ha hbn
    rcases hlinking.mem_cases hl hb with hb | ⟨-, heq, -⟩ | ⟨-, -, -, heq⟩
    · exact h.old l a b hb ha hbn
    · exact absurd heq ha
    · exact absurd heq hbn
  · intro l b hb
    rcases hlinking.mem_cases hl hb with hb | ⟨-, -, hb⟩ | ⟨-, -, hne, -⟩
    · exact h.ofNew l b hb
    · exact hselected b hb
    · exact absurd rfl hne
  · intro l a ha
    rcases hlinking.mem_cases hl ha with ha | ⟨-, -, hmem⟩ | ⟨-, hsel, -, -⟩
    · exact h.toNew l a ha
    · exact absurd rfl (hlinking.selected_node hl hmem).2.1
    · exact hselected a hsel
  · rcases hl.current with heq | ⟨c, hc, heq⟩
    · exact heq ▸ h.current
    · exact heq ▸ hcandidates c hc

/-- The base layer, when every selected node has room for the new one. -/
theorem BeforeBase.finish (h : BeforeBase g newNode entry st) (hconn : Connected g)
    (hnewNode : newNode = g.nodeCount) (hentry : st.graph.isTombstone entry = false)
    (hlinking : Linking config base newNode 1 st)
    (hl : LayerLinked P metric config query newNode 0 st st' candidates selected)
    (hroom : ∀ n ∈ selected, (st.graph.neighbors n 0).length < config.limit 0) :
    AfterBase g newNode entry st'.graph := by
  have hshape := hl.linked.shape
  have hnewLt := hlinking.new_lt
  have hcount : g.nodeCount ≤ st'.graph.nodeCount := by
    rw [hshape.nodeCount, ← hnewNode]
    exact le_of_lt hnewLt
  -- no list loses an entry, and the new node is listed by those it lists
  have hkept : ∀ n x, x ∈ g.neighbors n 0 → x ∈ st'.graph.neighbors n 0 := by
    intro n x hx
    have hn : n ≠ newNode := fun heq => by
      have := lt_of_mem_neighbors hx
      omega
    rw [← h.base] at hx
    rcases hlinking.list_cases hl n 0 with ⟨-, heq⟩ | ⟨-, heq, -⟩ | ⟨-, -, hsel, heq⟩
    · exact heq ▸ hx
    · exact absurd heq hn
    · rw [heq, relink_of_room (hroom n hsel)]
      exact List.mem_append_left _ hx
  have hnewList : st'.graph.neighbors newNode 0 = selected := by
    rcases hlinking.list_cases hl newNode 0 with ⟨hne, -⟩ | ⟨-, -, heq⟩ | ⟨-, hne, -, -⟩
    · exact absurd rfl (hne rfl).1
    · exact heq
    · exact absurd rfl hne
  have hback : ∀ n ∈ selected, newNode ∈ st'.graph.neighbors n 0 := by
    intro n hn
    rcases hlinking.list_cases hl n 0 with ⟨hne, -⟩ | ⟨-, heq, -⟩ | ⟨-, -, hsel, heq⟩
    · exact absurd hn (hne rfl).2
    · exact absurd heq (hlinking.selected_node hl hn).2.1
    · rw [heq, relink_of_room (hroom n hsel)]
      exact List.mem_append_right _ (List.mem_singleton.mpr rfl)
  have hmono : ∀ a b, g.Reach 0 a b → st'.graph.Reach 0 a b := fun a b hab =>
    hab.mono hcount hkept
  have hsymm : ∀ a b, b ∈ st'.graph.neighbors a 0 → a ∈ st'.graph.neighbors b 0 := by
    intro a b hb
    rcases hlinking.mem_cases hl hb with hb | ⟨-, rfl, hb⟩ | ⟨-, ha, -, rfl⟩
    · rw [h.base] at hb
      exact hkept b a (hconn.symm a b hb)
    · exact hback b hb
    · exact hnewList ▸ ha
  -- the entry point is live, so the search at layer 0 finds something to link to
  have hfound : selected ≠ [] := by
    refine hl.selected_ne_nil (hl.search.nonempty entry ?_ ⟨hentry, rfl⟩)
    refine (h.current.symm hconn.symm).mono ?_ fun n x hx => by rw [h.base]; exact hx
    rw [← hnewNode]
    exact le_of_lt hnewLt
  have hnewReach : st'.graph.Reach 0 entry newNode := by
    obtain ⟨b, hb⟩ := List.exists_mem_of_ne_nil selected hfound
    obtain ⟨c, hc, rfl⟩ := hl.selected_candidate hb
    have hlast : st'.graph.Reach 0 c.node newNode :=
      Reach.single (hback c.node hb) (by rw [hshape.nodeCount]; exact hnewLt)
    exact (hmono _ _ (h.candidate_reach hlinking hl c hc)).trans hlast
  refine ⟨hsymm, ?_, hnewReach, hmono⟩
  intro l a b hb
  by_cases hl0 : l = 0
  · subst hl0
    exact Reach.single hb ((hlinking.step hl).links.inRange a 0 b hb)
  · rw [hl.linked.otherLayer a l hl0] at hb
    by_cases ha : a = newNode
    · subst ha
      exact (hnewReach.symm hsymm).trans (hmono _ _ (h.ofNew l b hb))
    · by_cases hbn : b = newNode
      · subst hbn
        exact ((hmono _ _ (h.toNew l a hb)).symm hsymm).trans hnewReach
      · exact hmono _ _ (h.old l a b hb ha hbn)

end link

end HnswGraph

namespace HnswIndex

/-! ## Inserts -/

section insertAt

variable {s : HnswIndex} {id : VectorId} {e : Embedding} {level : Nat}

theorem beforeBase_start (h : Inv config dimension s) (hconn : Connected s.graph) {entry : Nat}
    (hreach : s.graph.ReachAbove (level + 1) entry
      (linkStart P config s.graph id e level entry).current) :
    BeforeBase s.graph s.graph.nodeCount entry (linkStart P config s.graph id e level entry) := by
  have hlists : ∀ n l, (linkStart P config s.graph id e level entry).graph.neighbors n l =
      s.graph.neighbors n l := neighbors_withNode s.graph id e level
  refine ⟨fun n => hlists n 0, ?_, ?_, ?_, hconn.reachAbove hreach⟩
  · intro l a b hb _ _
    exact hconn.upper l a b (hlists a l ▸ hb)
  · intro l b hb
    rw [hlists, neighbors_of_le (le_refl _)] at hb
    exact absurd hb (by simp)
  · intro l a ha
    rw [hlists] at ha
    exact absurd (h.links.inRange a l _ ha) (lt_irrefl _)

/-- The first node of an index without live nodes stands alone. -/
theorem connected_first (h : Inv config dimension s) (hconn : Connected s.graph)
    (hep : s.graph.entryPoint = none) :
    Connected ((s.graph.withNode id e level).setEntryPoint (raisedEntry s.graph level)) := by
  refine ⟨?_, ?_, ?_⟩
  · simpa using hconn.symm
  · intro l a b hb
    rw [neighbors_setEntryPoint, neighbors_withNode] at hb
    exact (hconn.upper l a b hb).mono (by simp) (by simp)
  · intro e' n he' hn
    rw [entryPoint_setEntryPoint, raisedEntry, hep] at he'
    cases he'
    rw [isLive_setEntryPoint, isLive_withNode] at hn
    rcases hn with rfl | hn
    · exact Relation.ReflTransGen.refl
    · exact absurd hn (h.entry.none_iff.mp hep n)

theorem connected_linked (hconn : Connected s.graph) {entry : Nat} {graph : HnswGraph}
    (hep : s.graph.entryPoint = some entry)
    (hafter : AfterBase s.graph s.graph.nodeCount entry graph)
    (hlive : ∀ n, graph.IsLive n → n = s.graph.nodeCount ∨ s.graph.IsLive n) :
    Connected (graph.setEntryPoint (raisedEntry s.graph level)) := by
  have hfrom : ∀ n, graph.IsLive n → graph.Reach 0 entry n := by
    intro n hn
    rcases hlive n hn with rfl | hn
    · exact hafter.new
    · exact hafter.old entry n (hconn.live entry n hep hn)
  refine ⟨hafter.symm, hafter.upper, ?_⟩
  intro e' n he' hn
  show graph.Reach 0 e' n
  rw [entryPoint_setEntryPoint, raisedEntry, hep] at he'
  dsimp only at he'
  split at he'
  · cases he'
    exact (hafter.new.symm hafter.symm).trans (hfrom n hn)
  · cases he'
    exact hfrom n hn

/-- An accepted insert keeps the graph connected if, when it comes to layer 0,
    every selected node has room for the new one. -/
theorem insertAt_connected (extra : Nat → LinkState → Prop) (h : Inv config dimension s)
    (hconn : Connected s.graph) (hdim : e.dimension = dimension.get)
    (hid : s.graph.live id = none)
    (hstart : ∀ entry, s.graph.entryPoint = some entry →
      extra (min level (s.graph.nodeLevel entry) + 1)
        (linkStart P config s.graph id e level entry))
    (hstep : ∀ count st st' candidates selected,
      LayerLinked P config.metric config e.values s.graph.nodeCount count st st' candidates
        selected → extra (count + 1) st → extra count st')
    (hroom : ∀ st st' candidates selected,
      Linking config (s.graph.withNode id e level) s.graph.nodeCount 1 st →
      LayerLinked P config.metric config e.values s.graph.nodeCount 0 st st' candidates selected →
      extra 1 st → ∀ n ∈ selected, (st.graph.neighbors n 0).length < config.limit 0) :
    ∃ delta s', insertAt P s id e level = some (.ok delta, s') ∧ Connected s'.graph := by
  obtain ⟨delta, st, hcall, hi, -, hend⟩ := insertAt_induct (P := P) level
    (motive := fun count st => extra count st ∧ ∀ entry, s.graph.entryPoint = some entry →
      (0 < count → BeforeBase s.graph s.graph.nodeCount entry st) ∧
      (count = 0 → AfterBase s.graph s.graph.nodeCount entry st.graph)) h hdim hid
    (by
      intro entry hep hreach
      refine ⟨hstart entry hep, fun entry' hep' => ?_⟩
      obtain rfl := Option.some.inj (hep.symm.trans hep')
      exact ⟨fun _ => beforeBase_start h hconn hreach, fun h0 => absurd h0 (by omega)⟩)
    (by
      intro count st st' candidates selected hlinking hl hend
      obtain ⟨hextra, hbefore⟩ := hend
      refine ⟨hstep count st st' candidates selected hl hextra, fun entry hep => ?_⟩
      have hbase := (hbefore entry hep).1 (Nat.succ_pos count)
      refine ⟨hbase.step hlinking hl, ?_⟩
      rintro rfl
      refine hbase.finish hconn rfl ?_ hlinking hl
        (hroom st st' candidates selected hlinking hl hextra)
      rw [hlinking.shape.isTombstone, isTombstone_withNode,
        if_neg (ne_of_lt (h.entry.lt_nodeCount hep))]
      exact (h.entry.live entry hep).2)
  refine ⟨delta, _, hcall, ?_⟩
  rcases hend with ⟨hep, hgraph⟩ | ⟨hep, hmotive⟩
  · show Connected (st.graph.setEntryPoint _)
    rw [hgraph]
    exact connected_first h hconn hep
  · obtain ⟨entry, hentry⟩ := Option.ne_none_iff_exists'.mp hep
    refine connected_linked hconn hentry ((hmotive.2 entry hentry).2 rfl) fun n hn => ?_
    have hlive := (hi.shape.isLive n).mp hn
    rwa [isLive_setEntryPoint, isLive_withNode] at hlive

end insertAt

theorem insertTracked_ok {s s' : HnswIndex} {levelFloat : LevelFloat} {id : VectorId}
    {e : Embedding} {delta : InsertDelta}
    (hcall : insertTracked P levelFloat s id e = some (.ok delta, s')) :
    e.dimension = s.dimension.get ∧ s.graph.live id = none ∧
      insertAt P { s with rng := (s.rng.nextLevel levelFloat s.config.m).2 } id e
        (s.rng.nextLevel levelFloat s.config.m).1 = some (.ok delta, s') := by
  rcases insertTracked_cases (P := P) s levelFloat id e with
    ⟨-, heq⟩ | ⟨-, -, heq⟩ | ⟨hdim, hid, heq⟩
  · rw [hcall] at heq
    exact absurd heq (by simp)
  · rw [hcall] at heq
    exact absurd heq (by simp)
  · exact ⟨hdim, hid, heq ▸ hcall⟩

/-! ## Small graphs -/

/-- With at most `m_max0` nodes before the insert no layer-0 list is full. -/
theorem room_of_small {s : HnswIndex} {id : VectorId} {e : Embedding} {level : Nat}
    (hsmall : s.graph.nodeCount ≤ config.mMax0) {st st' : LinkState} {query : List F32}
    {candidates : List Candidate} {selected : List Nat}
    (hlinking : Linking config (s.graph.withNode id e level) s.graph.nodeCount 1 st)
    (hl : LayerLinked P config.metric config query s.graph.nodeCount 0 st st' candidates selected) :
    ∀ n ∈ selected, (st.graph.neighbors n 0).length < config.limit 0 := by
  intro n hn
  have hcount : st.graph.nodeCount = s.graph.nodeCount + 1 := by
    rw [hlinking.shape.nodeCount, nodeCount_withNode]
  -- the list and its owner are distinct old nodes
  have hnodup : (n :: st.graph.neighbors n 0).Nodup :=
    List.nodup_cons.mpr ⟨hlinking.links.irrefl n 0, hlinking.links.nodup n 0⟩
  have hrange : ∀ x ∈ n :: st.graph.neighbors n 0, x ∈ List.range s.graph.nodeCount := by
    intro x hx
    rw [List.mem_range]
    rcases List.mem_cons.mp hx with rfl | hx
    · obtain ⟨hlt, hne, -⟩ := hlinking.selected_node hl hn
      omega
    · have hlt := hlinking.links.inRange n 0 x hx
      have hne : x ≠ s.graph.nodeCount := fun heq =>
        hlinking.new_unlisted n 0 Nat.zero_lt_one (heq ▸ hx)
      omega
  have hlen := (List.subperm_of_subset hnodup hrange).length_le
  rw [List.length_cons, List.length_range] at hlen
  rw [HnswConfig.limit_zero]
  omega

theorem insertTracked_small {s s' : HnswIndex} (h : Inv config dimension s)
    (hconn : Connected s.graph) (hsmall : s.graph.nodeCount ≤ config.mMax0)
    {levelFloat : LevelFloat} {id : VectorId} {e : Embedding} {delta : InsertDelta}
    (hcall : insertTracked P levelFloat s id e = some (.ok delta, s')) : Connected s'.graph := by
  obtain ⟨hdim, hid, hat⟩ := insertTracked_ok hcall
  generalize s.rng.nextLevel levelFloat s.config.m = drawn at hat
  obtain ⟨delta', s₁, hat', hconn'⟩ := insertAt_connected (P := P) (fun _ _ => True)
    (h.setRng drawn.2) hconn (hdim.trans (congrArg Dimension.get h.dimension_eq)) hid
    (fun _ _ => trivial) (fun _ _ _ _ _ _ _ => trivial)
    (fun _ _ _ _ hlinking hl _ => room_of_small hsmall hlinking hl)
  rw [hat] at hat'
  cases hat'
  exact hconn'

/-- A graph of at most `m_max0 + 1` nodes is connected: it was never larger
    since it was last empty. -/
theorem step_small {s s' : HnswIndex} (h : Inv config dimension s) {levelFloat : LevelFloat}
    {op : HnswOp} {answer : Answer} (hcall : s.step P levelFloat op = some (answer, s'))
    (hconn : s.graph.nodeCount ≤ config.mMax0 + 1 → Connected s.graph) :
    s'.graph.nodeCount ≤ config.mMax0 + 1 → Connected s'.graph := by
  cases op with
  | insert id e =>
    obtain ⟨r, s₁, htracked, houtcome, -⟩ := insertTracked_spec (P := P) h levelFloat id e
    rw [step, insert, htracked] at hcall
    obtain rfl : s₁ = s' := by simpa using congrArg (Option.map Prod.snd) hcall
    cases houtcome with
    | mismatch => exact hconn
    | duplicate => exact hconn
    | accepted _ _ _ hi =>
      intro hsmall
      rw [hi.shape.nodeCount, nodeCount_setEntryPoint, nodeCount_withNode] at hsmall
      exact insertTracked_small h (hconn (by omega)) (by omega) htracked
  | remove id =>
    have hs' : (s.remove id).2 = s' := by
      rw [step] at hcall
      simpa using congrArg (Option.map Prod.snd) hcall
    rw [← hs']
    show (s.removeTracked id).2.graph.nodeCount ≤ _ → Connected (s.removeTracked id).2.graph
    have houtcome := removeTracked_outcome h id
    generalize (s.removeTracked id).1 = r at houtcome
    generalize (s.removeTracked id).2 = s₁ at houtcome
    cases houtcome with
    | absent => exact hconn
    | removed =>
      intro hsmall
      exact (hconn (by simpa using hsmall)).withTombstone h.entry _ _
  | compact =>
    obtain ⟨s₁, hcompact, -, hsmall⟩ := compact_induct (P := P) levelFloat
      (motive := fun _ s => s.graph.nodeCount ≤ config.mMax0 + 1 → Connected s.graph) h
      (fun _ => Connected.new) (by
      intro id e rest s delta s' level hinv _ hm htracked hi hsmall
      rw [hi.shape.nodeCount, nodeCount_setEntryPoint, nodeCount_withNode] at hsmall
      exact insertTracked_small hinv (hm (by omega)) (by omega) htracked)
    rw [step, hcompact] at hcall
    obtain rfl : s₁ = s' := by simpa using congrArg (Option.map Prod.snd) hcall
    exact hsmall

end HnswIndex

end EidosDB
