import EidosDB.Core.Types

/-! # The Flat Index

    Exact search by comparing the query with every stored vector: the oracle
    that the other indexes are measured against.

    The list of hits is a function of the set of stored points alone
    (`hits_eq_of_mem_iff`), so two indexes that store the same points give
    the same answers whatever their storage order. -/

namespace EidosDB

/-- `a` scored against the query. -/
def neighborOf (ops : F32Ops) (metric : Metric) (query : List F32) (p : VectorId × Embedding) :
    Neighbor :=
  { id := p.1, score := metric.score ops query p.2.values }

/-- The exact answer over a list of points: the admissible ones, scored,
    sorted closest first and cut to `k`. -/
def hits (ops : F32Ops) (metric : Metric) (query : List F32) (k : Nat)
    (isAdmissible : VectorId → Bool) (points : List (VectorId × Embedding)) : List Neighbor :=
  (sortBy Neighbor.cmp
    ((points.filter (fun p => isAdmissible p.1)).map (neighborOf ops metric query))).take k

/-- `FlatIndex` -/
structure FlatIndex where
  metric : Metric
  dimension : Dimension
  points : List (VectorId × Embedding)

namespace FlatIndex

/-- `FlatIndex::new` -/
def new (metric : Metric) (dimension : Dimension) : FlatIndex :=
  { metric := metric, dimension := dimension, points := [] }

def len (self : FlatIndex) : Nat := self.points.length

def insert (self : FlatIndex) (id : VectorId) (embedding : Embedding) :
    Except IndexError Unit × FlatIndex :=
  if embedding.dimension ≠ self.dimension.get then
    (.error (.dimensionMismatch self.dimension.get embedding.dimension), self)
  else if self.points.any (fun p => p.1 == id) then
    (.error (.duplicateId id), self)
  else
    (.ok (), { self with points := self.points ++ [(id, embedding)] })

def remove (self : FlatIndex) (id : VectorId) : Except IndexError Bool × FlatIndex :=
  if self.points.any (fun p => p.1 == id) then
    (.ok true, { self with points := self.points.eraseP (fun p => p.1 == id) })
  else
    (.ok false, self)

def searchFiltered (ops : F32Ops) (self : FlatIndex) (query : Embedding) (k : Nat)
    (metric : Metric) (isAdmissible : VectorId → Bool) : Except IndexError (List Neighbor) :=
  if query.dimension ≠ self.dimension.get then
    .error (.dimensionMismatch self.dimension.get query.dimension)
  else
    .ok (hits ops metric query.values k isAdmissible self.points)

/-! ## Invariant -/

/-- Ids are stored once, embeddings have the index dimension. -/
structure Inv (f : FlatIndex) : Prop where
  nodup : (f.points.map Prod.fst).Nodup
  dims : ∀ p ∈ f.points, p.2.dimension = f.dimension.get

theorem inv_new (metric : Metric) (dimension : Dimension) : (new metric dimension).Inv where
  nodup := List.nodup_nil
  dims := by simp [new]

theorem any_id_iff (self : FlatIndex) (id : VectorId) :
    self.points.any (fun p => p.1 == id) = true ↔ ∃ e, (id, e) ∈ self.points := by
  simp [List.any_eq_true]

theorem not_any_id_iff (self : FlatIndex) (id : VectorId) :
    ¬ self.points.any (fun p => p.1 == id) = true ↔ ∀ e, (id, e) ∉ self.points := by
  rw [any_id_iff, not_exists]

/-- What `insert` does, by the reason it may refuse. -/
theorem insert_cases (self : FlatIndex) (id : VectorId) (e : Embedding) :
    (e.dimension ≠ self.dimension.get ∧ self.insert id e =
      (.error (.dimensionMismatch self.dimension.get e.dimension), self)) ∨
    (e.dimension = self.dimension.get ∧ (∃ e', (id, e') ∈ self.points) ∧
      self.insert id e = (.error (.duplicateId id), self)) ∨
    (e.dimension = self.dimension.get ∧ (∀ e', (id, e') ∉ self.points) ∧
      self.insert id e = (.ok (), { self with points := self.points ++ [(id, e)] })) := by
  unfold insert
  by_cases hdim : e.dimension = self.dimension.get
  · by_cases hdup : self.points.any (fun p => p.1 == id) = true
    · exact Or.inr (Or.inl ⟨hdim, (self.any_id_iff id).mp hdup, by simp [hdim, hdup]⟩)
    · exact Or.inr (Or.inr ⟨hdim, (self.not_any_id_iff id).mp hdup, by simp [hdim, hdup]⟩)
  · exact Or.inl ⟨hdim, by simp [hdim]⟩

theorem inv_insert {self : FlatIndex} (h : self.Inv) (id : VectorId) (e : Embedding) :
    (self.insert id e).2.Inv := by
  rcases self.insert_cases id e with ⟨_, heq⟩ | ⟨_, _, heq⟩ | ⟨hdim, hnew, heq⟩
  · rw [heq]; exact h
  · rw [heq]; exact h
  · rw [heq]
    refine ⟨?_, ?_⟩
    · rw [List.map_append, List.nodup_append]
      refine ⟨h.nodup, by simp, ?_⟩
      intro a ha b hb hab
      obtain ⟨⟨id', e'⟩, hp, rfl⟩ := List.mem_map.mp ha
      have hb' : b = id := by simpa using hb
      exact hnew e' (by rw [← hb', ← hab]; exact hp)
    · intro p hp
      rcases List.mem_append.mp hp with hp | hp
      · exact h.dims p hp
      · rw [List.mem_singleton.mp hp]
        exact hdim

theorem mem_eraseP_iff {points : List (VectorId × Embedding)}
    (hnodup : (points.map Prod.fst).Nodup) (id : VectorId) (p : VectorId × Embedding) :
    p ∈ points.eraseP (fun p => p.1 == id) ↔ p ∈ points ∧ p.1 ≠ id := by
  induction points with
  | nil => simp
  | cons q rest ih =>
    rw [List.map_cons, List.nodup_cons] at hnodup
    obtain ⟨hq, hrest⟩ := hnodup
    by_cases hid : q.1 = id
    · rw [List.eraseP_cons_of_pos (by simpa using hid)]
      constructor
      · intro hp
        have hne : p.1 ≠ id := fun h =>
          hq (hid ▸ h ▸ List.mem_map_of_mem hp)
        exact ⟨List.mem_cons_of_mem _ hp, hne⟩
      · rintro ⟨hp, hne⟩
        rcases List.mem_cons.mp hp with rfl | hp
        · exact absurd hid hne
        · exact hp
    · rw [List.eraseP_cons_of_neg (by simpa using hid), List.mem_cons, List.mem_cons, ih hrest]
      constructor
      · rintro (rfl | ⟨hp, hne⟩)
        · exact ⟨Or.inl rfl, hid⟩
        · exact ⟨Or.inr hp, hne⟩
      · rintro ⟨rfl | hp, hne⟩
        · exact Or.inl rfl
        · exact Or.inr ⟨hp, hne⟩

/-- What `remove` does: answer whether the id was stored, and drop its point. -/
theorem remove_cases (self : FlatIndex) (id : VectorId) :
    ((∃ e, (id, e) ∈ self.points) ∧ self.remove id =
      (.ok true, { self with points := self.points.eraseP (fun p => p.1 == id) })) ∨
    ((∀ e, (id, e) ∉ self.points) ∧ self.remove id = (.ok false, self)) := by
  unfold remove
  by_cases h : self.points.any (fun p => p.1 == id) = true
  · exact Or.inl ⟨(self.any_id_iff id).mp h, by rw [if_pos h]⟩
  · exact Or.inr ⟨(self.not_any_id_iff id).mp h, by rw [if_neg h]⟩

theorem inv_remove {self : FlatIndex} (h : self.Inv) (id : VectorId) :
    (self.remove id).2.Inv := by
  rcases self.remove_cases id with ⟨_, heq⟩ | ⟨_, heq⟩
  · rw [heq]
    refine ⟨h.nodup.sublist (List.eraseP_sublist.map _), ?_⟩
    intro p hp
    exact h.dims p (List.mem_of_mem_eraseP hp)
  · rw [heq]; exact h

@[simp] theorem insert_metric (self : FlatIndex) (id : VectorId) (e : Embedding) :
    (self.insert id e).2.metric = self.metric := by
  rcases self.insert_cases id e with ⟨_, heq⟩ | ⟨_, _, heq⟩ | ⟨_, _, heq⟩ <;> rw [heq]

@[simp] theorem insert_dimension (self : FlatIndex) (id : VectorId) (e : Embedding) :
    (self.insert id e).2.dimension = self.dimension := by
  rcases self.insert_cases id e with ⟨_, heq⟩ | ⟨_, _, heq⟩ | ⟨_, _, heq⟩ <;> rw [heq]

@[simp] theorem remove_metric (self : FlatIndex) (id : VectorId) :
    (self.remove id).2.metric = self.metric := by
  rcases self.remove_cases id with ⟨_, heq⟩ | ⟨_, heq⟩ <;> rw [heq]

@[simp] theorem remove_dimension (self : FlatIndex) (id : VectorId) :
    (self.remove id).2.dimension = self.dimension := by
  rcases self.remove_cases id with ⟨_, heq⟩ | ⟨_, heq⟩ <;> rw [heq]

theorem nodup_points {self : FlatIndex} (h : self.Inv) : self.points.Nodup :=
  List.Nodup.of_map _ h.nodup

/-- Two embeddings stored under one id are the same. -/
theorem unique {self : FlatIndex} (h : self.Inv) {id : VectorId} {e e' : Embedding}
    (he : (id, e) ∈ self.points) (he' : (id, e') ∈ self.points) : e = e' := by
  have := List.inj_on_of_nodup_map h.nodup he he' rfl
  exact congrArg Prod.snd this

end FlatIndex

/-! ## Hits depend on the set of points only -/

/-- Points listed without repetition and the same in both lists give the same
    hits. -/
theorem hits_eq_of_mem_iff (ops : F32Ops) (metric : Metric) (query : List F32) (k : Nat)
    (isAdmissible : VectorId → Bool) {l₁ l₂ : List (VectorId × Embedding)}
    (h₁ : l₁.Nodup) (h₂ : l₂.Nodup) (hmem : ∀ p, p ∈ l₁ ↔ p ∈ l₂) :
    hits ops metric query k isAdmissible l₁ = hits ops metric query k isAdmissible l₂ := by
  have hperm : l₁.Perm l₂ := (List.perm_ext_iff_of_nodup h₁ h₂).mpr hmem
  unfold hits
  rw [sortBy_eq_of_perm Neighbor.cmp ((hperm.filter _).map _)]

theorem mem_hits_all {ops : F32Ops} {metric : Metric} {query : List F32}
    {isAdmissible : VectorId → Bool} {points : List (VectorId × Embedding)} {r : Neighbor}
    {k : Nat} (hk : points.length ≤ k) :
    r ∈ hits ops metric query k isAdmissible points ↔
      ∃ p ∈ points, isAdmissible p.1 = true ∧ neighborOf ops metric query p = r := by
  unfold hits
  rw [List.take_of_length_le]
  · simp only [mem_sortBy, List.mem_map, List.mem_filter, and_assoc]
  · rw [length_sortBy, List.length_map]
    exact le_trans (List.length_filter_le _ _) hk

/-- With room for all, the hits among the admissible points are the admissible
    ones among all hits. -/
theorem hits_filter (ops : F32Ops) (metric : Metric) (query : List F32) {k : Nat}
    (isAdmissible : VectorId → Bool) {points : List (VectorId × Embedding)}
    (hk : points.length ≤ k) :
    hits ops metric query k isAdmissible points =
      (sortBy Neighbor.cmp (points.map (neighborOf ops metric query))).filter
        fun n => isAdmissible n.id := by
  unfold hits
  rw [List.take_of_length_le, filter_sortBy, List.filter_map]
  · rfl
  · rw [length_sortBy, List.length_map]
    exact le_trans (List.length_filter_le _ _) hk

end EidosDB
