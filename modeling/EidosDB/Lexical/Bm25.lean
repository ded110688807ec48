import EidosDB.Core.Double
import EidosDB.Core.Types

/-! # BM25 Scores and Rankings

    The scoring formulas over the processor's double-precision arithmetic,
    and the order of a ranked list: descending score in the total order, then
    ascending id.  A list of distinct ids is ranked in one way only
    (`ranked_of_perm`), whatever the order it was collected in. -/

namespace EidosDB

/-! ## Formulas -/

namespace Bm25

variable (ops : F64Ops)

/-- `K1` -/
def k1 : F64 := .sixFifths

/-- `B` -/
def b : F64 := .threeQuarters

/-- `idf` -/
def idf (corpusSize docFreq : Nat) : F64 :=
  let n := ops.ofInt corpusSize
  let df := ops.ofInt docFreq
  ops.ln (ops.add .one (ops.div (ops.add (ops.sub n df) .half) (ops.add df .half)))

/-- `term_score` -/
def termScore (termFrequency docLength : Nat) (averageDocLength idf : F64) : F64 :=
  if averageDocLength.eq .zero then .zero
  else
    let f := ops.ofInt termFrequency
    let len := ops.ofInt docLength
    ops.div (ops.mul idf (ops.mul f (ops.add k1 .one)))
      (ops.add f (ops.mul k1
        (ops.add (ops.sub .one b) (ops.div (ops.mul b len) averageDocLength))))

/-- Tokens for each document. -/
def averageDocLength (totalTokens corpusSize : Nat) : F64 :=
  ops.div (ops.ofInt totalTokens) (ops.ofInt corpusSize)

end Bm25

/-! ## Rankings -/

/-- An id and its score. -/
abbrev Scored := VectorId × F64

/-- The comparator of a ranked list. -/
def Scored.cmp (a b : Scored) : Ordering := (F64.totalCmp b.2 a.2).then (compare a.1 b.1)

/-- The place of an entry in a ranked list. -/
def Scored.rank (a : Scored) : Lex (Int × VectorId) := toLex (-a.2.totalKey, a.1)

theorem Scored.rank_injective : Function.Injective Scored.rank := by
  rintro ⟨i, x⟩ ⟨j, y⟩ h
  unfold Scored.rank at h
  rw [EmbeddingLike.apply_eq_iff_eq, Prod.mk.injEq, neg_inj] at h
  exact Prod.ext h.2 (F64.totalKey_injective h.1)

theorem Scored.before_iff {a b : Scored} : Before Scored.cmp a b ↔ a.rank ≤ b.rank := by
  unfold Before Scored.cmp Scored.rank F64.totalCmp
  rw [Prod.Lex.toLex_le_toLex]
  rcases lt_trichotomy b.2.totalKey a.2.totalKey with h | h | h
  · simp [compare_lt_iff_lt.mpr h, h]
  · simp [h, ← compare_le_iff_le, Ordering.isLE_iff_ne_gt]
  · have hne : ¬ a.2.totalKey = b.2.totalKey := ne_of_lt h
    simp [compare_gt_iff_gt.mpr h, not_lt_of_gt h, hne]

/-- `sort_by` and `truncate` of the searches. -/
def ranked (k : Nat) (scored : List Scored) : List Scored := (sortBy Scored.cmp scored).take k

/-- Lists of the same entries are ranked alike. -/
theorem ranked_of_perm {k : Nat} {l₁ l₂ : List Scored} (h : l₁.Perm l₂) :
    ranked k l₁ = ranked k l₂ := by
  unfold ranked
  rw [sortBy_eq_of_key Scored.rank Scored.rank_injective (fun _ _ => Scored.before_iff) h]

end EidosDB
