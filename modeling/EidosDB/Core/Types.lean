import EidosDB.Core.Float
import EidosDB.Lib.SortBy

/-! # The Geometric Core

    Identifiers, embeddings, metrics, search results and the errors of a
    vector index.  Lengths and counts are `usize` on a 64-bit target; an
    embedding of more than `u32::MAX` components does not fit in memory and
    is not distinguished here. -/

namespace EidosDB

/-- `u32::MAX` -/
def u32Max : Nat := 4294967295

/-- `u64::MAX` -/
def u64Max : Nat := 18446744073709551615

/-- `usize::MAX` -/
def usizeMax : Nat := 18446744073709551615

/-! ## Identifiers -/

instance uuidNeZero : NeZero 340282366920938463463374607431768211456 := ⟨by decide⟩

/-- A vector id: the 128 bits of a UUID, read as one big-endian number, so
    that the order of the bytes is the order of the numbers. -/
structure VectorId where
  uuid : Fin 340282366920938463463374607431768211456
  deriving DecidableEq, Repr

theorem VectorId.uuid_injective : Function.Injective VectorId.uuid := by
  intro ⟨a⟩ ⟨b⟩ h
  exact congrArg VectorId.mk h

instance : LinearOrder VectorId := LinearOrder.lift' VectorId.uuid VectorId.uuid_injective

/-- `Uuid::nil()` as an id. -/
def nilId : VectorId := ⟨0⟩

/-! ## Embeddings and metrics -/

/-- The number of components of the vectors of an index (a `NonZeroU32`). -/
structure Dimension where
  get : Nat
  pos : 0 < get
  lt : get < 4294967296
  deriving DecidableEq

def Dimension.one : Dimension := ⟨1, by decide, by decide⟩

inductive Metric where
  | cosine
  | dotProduct
  | euclidean
  deriving DecidableEq, Repr

/-- Failure modes of a vector index. -/
inductive IndexError where
  | dimensionMismatch (expected got : Nat)
  | duplicateId (id : VectorId)
  | emptyEmbedding
  | nonFiniteComponent
  | backend (message : String)
  | unsupportedMetric (metric : Metric)
  deriving DecidableEq, Repr

/-- A non-empty vector of finite components. -/
structure Embedding where
  values : List F32
  nonempty : values ≠ []
  finite : ∀ v ∈ values, v.isFinite = true
  deriving DecidableEq

@[ext] theorem Embedding.ext {a b : Embedding} (h : a.values = b.values) : a = b := by
  cases a; cases b; cases h; rfl

/-- `Embedding::new` -/
def Embedding.new (values : List F32) : Except IndexError Embedding :=
  if hne : values = [] then .error .emptyEmbedding
  else if hfin : ∀ v ∈ values, v.isFinite = true then .ok ⟨values, hne, hfin⟩
  else .error .nonFiniteComponent

/-- The vector with one component. -/
def Embedding.single (v : F32) (h : v.isFinite = true) : Embedding :=
  ⟨[v], by simp, by simpa using h⟩

def Embedding.dimension (e : Embedding) : Nat := e.values.length

@[simp] theorem Embedding.new_values (e : Embedding) : Embedding.new e.values = .ok e := by
  unfold Embedding.new
  rw [dif_neg e.nonempty, dif_pos e.finite]

theorem Embedding.values_of_new {values : List F32} {e : Embedding}
    (h : Embedding.new values = .ok e) : e.values = values := by
  unfold Embedding.new at h
  split at h
  · cases h
  · split at h
    · cases h
      rfl
    · cases h

/-- `Metric::score`: higher is always closer. -/
def Metric.score (ops : F32Ops) (metric : Metric) (a b : List F32) : F32 :=
  match metric with
  | .cosine => ops.cosine a b
  | .dotProduct => ops.dot a b
  | .euclidean => ops.neg (ops.euclidean a b)

/-! ## Results and their order -/

structure Neighbor where
  id : VectorId
  score : F32
  deriving DecidableEq, Repr

/-- The comparator of every result list: descending score in the total order,
    then ascending id. -/
def closestFirst (scoreA : F32) (idA : VectorId) (scoreB : F32) (idB : VectorId) : Ordering :=
  (F32.totalCmp scoreB scoreA).then (compare idA idB)

theorem closestFirst_isLE {sa sb : F32} {ia ib : VectorId} :
    (closestFirst sa ia sb ib).isLE = true ↔
      sb.totalKey < sa.totalKey ∨ (sa = sb ∧ ia ≤ ib) := by
  unfold closestFirst F32.totalCmp
  rcases lt_trichotomy sb.totalKey sa.totalKey with h | h | h
  · simp [compare_lt_iff_lt.mpr h, h]
  · have hs : sa = sb := F32.totalKey_injective h.symm
    subst hs
    simp [← compare_le_iff_le, Ordering.isLE_iff_ne_gt]
  · have hne : sa ≠ sb := fun he => by rw [he] at h; exact lt_irrefl _ h
    simp [compare_gt_iff_gt.mpr h, hne, le_of_lt h]

def Neighbor.cmp (a b : Neighbor) : Ordering := closestFirst a.score a.id b.score b.id

theorem Neighbor.before_iff {a b : Neighbor} : Before Neighbor.cmp a b ↔
    b.score.totalKey < a.score.totalKey ∨ (a.score = b.score ∧ a.id ≤ b.id) :=
  closestFirst_isLE

instance : Std.Total (Before Neighbor.cmp) where
  total a b := by
    rw [Neighbor.before_iff, Neighbor.before_iff]
    rcases lt_trichotomy a.score.totalKey b.score.totalKey with h | h | h
    · exact Or.inr (Or.inl h)
    · have hs := F32.totalKey_injective h
      exact (le_total a.id b.id).imp (fun hi => Or.inr ⟨hs, hi⟩) (fun hi => Or.inr ⟨hs.symm, hi⟩)
    · exact Or.inl (Or.inl h)

instance : IsTrans Neighbor (Before Neighbor.cmp) where
  trans a b c hab hbc := by
    rw [Neighbor.before_iff] at hab hbc ⊢
    rcases hab with hab | ⟨hab, hid⟩
    · rcases hbc with hbc | ⟨hbc, _⟩
      · exact Or.inl (lt_trans hbc hab)
      · exact Or.inl (hbc ▸ hab)
    · rcases hbc with hbc | ⟨hbc, hid'⟩
      · exact Or.inl (hab ▸ hbc)
      · exact Or.inr ⟨hab.trans hbc, le_trans hid hid'⟩

instance : Std.Antisymm (Before Neighbor.cmp) where
  antisymm a b hab hba := by
    rw [Neighbor.before_iff] at hab hba
    obtain ⟨ia, sa⟩ := a
    obtain ⟨ib, sb⟩ := b
    dsimp only at hab hba
    rcases hab with hab | ⟨rfl, hid⟩
    · rcases hba with hba | ⟨rfl, _⟩
      · exact absurd (lt_trans hab hba) (lt_irrefl _)
      · exact absurd hab (lt_irrefl _)
    · rcases hba with hba | ⟨_, hid'⟩
      · exact absurd hba (lt_irrefl _)
      · rw [le_antisymm hid hid']

end EidosDB
