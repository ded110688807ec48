import EidosDB.Lexical.Fusion
import EidosDB.Lexical.InMemory

/-! # Scores over Any Numbers

    The formulas of BM25 and of rank fusion use a few operations on numbers
    and nothing else of them.  Here they stand over any kind of numbers.
    Over doubles they are the formulas of the code (`fuseRrf_eq`,
    `searchTextFiltered_eq`); over an ordered field they say what the code
    computes where nothing is rounded. -/

namespace EidosDB

/-- The operations on numbers that scores are made of. -/
structure Numbers (R : Type) where
  zero : R
  one : R
  half : R
  threeQuarters : R
  sixFifths : R
  add : R → R → R
  sub : R → R → R
  mul : R → R → R
  div : R → R → R
  /-- `as f64` of an integer -/
  ofInt : Int → R
  totalCmp : R → R → Ordering
  /-- `x > y` -/
  gt : R → R → Bool
  /-- `x == y` -/
  eq : R → R → Bool

/-- Doubles. -/
def F64Ops.numbers (ops : F64Ops) : Numbers F64 where
  zero := .zero
  one := .one
  half := .half
  threeQuarters := .threeQuarters
  sixFifths := .sixFifths
  add := ops.add
  sub := ops.sub
  mul := ops.mul
  div := ops.div
  ofInt := ops.ofInt
  totalCmp := F64.totalCmp
  gt := F64.gt
  eq := F64.eq

/-- Exact arithmetic in an ordered field. -/
def Numbers.exact (R : Type) [Field R] [LinearOrder R] : Numbers R where
  zero := 0
  one := 1
  half := 1 / 2
  threeQuarters := 3 / 4
  sixFifths := 6 / 5
  add := (· + ·)
  sub := (· - ·)
  mul := (· * ·)
  div := (· / ·)
  ofInt := fun n => n
  totalCmp := compare
  gt x y := decide (y < x)
  eq x y := decide (x = y)

namespace Numbers

variable {R : Type} (N : Numbers R)

/-- The comparator of a ranked list. -/
def rankCmp (a b : VectorId × R) : Ordering := (N.totalCmp b.2 a.2).then (compare a.1 b.1)

/-! ## Fusion -/

/-- One place of one ranking; `position` counts from 0. -/
def addRank (k : R) (scores : OrderedTable VectorId R) (place : VectorId × Nat) :
    OrderedTable VectorId R :=
  let rank := N.ofInt (place.2 + 1)
  scores.insert place.1
    (N.add ((scores.get place.1).getD N.zero) (N.div N.one (N.add k rank)))

/-- The scores `fuse_rrf` accumulates. -/
def fusedScores (rankings : List (List VectorId)) (k : R) : OrderedTable VectorId R :=
  rankings.foldl (fun scores ranking => ranking.zipIdx.foldl (N.addRank k) scores) .empty

/-- `fuse_rrf` -/
def fuseRrf (order : HashOrder) (rankings : List (List VectorId)) (k : R) : List (VectorId × R) :=
  sortBy N.rankCmp (order.entries (N.fusedScores rankings k))

/-! ## BM25 -/

/-- `idf` -/
def idf (ln : R → R) (corpusSize docFreq : Nat) : R :=
  let n := N.ofInt corpusSize
  let df := N.ofInt docFreq
  ln (N.add N.one (N.div (N.add (N.sub n df) N.half) (N.add df N.half)))

/-- `term_score` -/
def termScore (termFrequency docLength : Nat) (averageDocLength idf : R) : R :=
  if N.eq averageDocLength N.zero then N.zero
  else
    let f := N.ofInt termFrequency
    let len := N.ofInt docLength
    N.div (N.mul idf (N.mul f (N.add N.sixFifths N.one)))
      (N.add f (N.mul N.sixFifths
        (N.add (N.sub N.one N.threeQuarters) (N.div (N.mul N.threeQuarters len) averageDocLength))))

/-- Tokens for each document. -/
def averageDocLength (totalTokens corpusSize : Nat) : R :=
  N.div (N.ofInt totalTokens) (N.ofInt corpusSize)

variable (ln : R → R)

/-- The contribution of a query term that a document holds. -/
def contribution (index : InMemoryLexicalIndex) (stats : DocStats) (term : String)
    (frequency : Nat) : R :=
  N.termScore frequency stats.length (N.averageDocLength index.totalTokens index.docs.len)
    (N.idf ln index.docs.len ((index.docFrequencies.get term).getD 0))

/-- One query term in the scoring loop. -/
def addTermScore (index : InMemoryLexicalIndex) (stats : DocStats) (score : R) (term : String) : R :=
  match stats.termFrequencies.get term with
  | none => score
  | some frequency => N.add score (N.contribution ln index stats term frequency)

/-- The score of one document. -/
def scoreOf (index : InMemoryLexicalIndex) (terms : List String) (stats : DocStats) : R :=
  terms.foldl (N.addTermScore ln index stats) N.zero

/-- `search_text_filtered` -/
def searchTextFiltered (U : Unicode) (order : HashOrder) (index : InMemoryLexicalIndex)
    (query : String) (k : Nat) (isAdmissible : VectorId → Bool) : List (VectorId × R) :=
  if index.docs.len = 0 then []
  else
    let terms := tokenize U query
    (sortBy N.rankCmp
      (((order.entries index.docs).filter fun p => isAdmissible p.1).filterMap fun p =>
        let score := N.scoreOf ln index terms p.2
        if N.gt score N.zero then some (p.1, score) else none)).take k

end Numbers

/-! ## Over doubles -/

/-- Over doubles the fusion is that of the code. -/
theorem fuseRrf_eq (ops : F64Ops) : fuseRrf ops = ops.numbers.fuseRrf := rfl

/-- Over doubles the search is that of the code. -/
theorem searchTextFiltered_eq (U : Unicode) (ops : F64Ops) (order : HashOrder)
    (index : InMemoryLexicalIndex) :
    index.searchTextFiltered U ops order =
      ops.numbers.searchTextFiltered ops.ln U order index := rfl

/-! ## Exact ranks -/

section Exact

variable {R : Type}

/-- The place of an entry in an exactly ranked list. -/
def exactRank (a : VectorId × R) : Lex (Rᵒᵈ × VectorId) := toLex (OrderDual.toDual a.2, a.1)

theorem exactRank_injective : Function.Injective (exactRank (R := R)) := by
  rintro ⟨i, x⟩ ⟨j, y⟩ h
  unfold exactRank at h
  rw [EmbeddingLike.apply_eq_iff_eq, Prod.mk.injEq, OrderDual.toDual_inj] at h
  exact Prod.ext h.2 h.1

variable [LinearOrder R]

/-- `a` is ranked before `b`: it has the higher score, or the lower id at the
    same score. -/
theorem exactRank_lt {a b : VectorId × R} :
    exactRank a < exactRank b ↔ b.2 < a.2 ∨ (a.2 = b.2 ∧ a.1 < b.1) := by
  unfold exactRank
  rw [Prod.Lex.toLex_lt_toLex, OrderDual.toDual_lt_toDual, OrderDual.toDual_inj]

variable [Field R]

theorem before_rankCmp {a b : VectorId × R} :
    Before (Numbers.exact R).rankCmp a b ↔ exactRank a ≤ exactRank b := by
  unfold Before Numbers.rankCmp exactRank
  rw [Prod.Lex.toLex_le_toLex, OrderDual.toDual_lt_toDual, OrderDual.toDual_inj]
  show ((compare b.2 a.2).then (compare a.1 b.1)).isLE = true ↔ _
  rcases lt_trichotomy b.2 a.2 with h | h | h
  · simp [compare_lt_iff_lt.mpr h, h]
  · simp [h, ← compare_le_iff_le, Ordering.isLE_iff_ne_gt]
  · have hne : ¬ a.2 = b.2 := ne_of_lt h
    simp [compare_gt_iff_gt.mpr h, not_lt_of_gt h, hne]

instance : Std.Total (Before (Numbers.exact R).rankCmp) where
  total a b := by
    rw [before_rankCmp, before_rankCmp]
    exact le_total _ _

instance : IsTrans (VectorId × R) (Before (Numbers.exact R).rankCmp) where
  trans a b c hab hbc := by
    rw [before_rankCmp] at hab hbc ⊢
    exact le_trans hab hbc

end Exact

end EidosDB
