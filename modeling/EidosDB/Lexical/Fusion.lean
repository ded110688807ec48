import EidosDB.Lexical.Bm25
import EidosDB.Lib.HashOrder

/-! # Reciprocal Rank Fusion

    Several rankings are fused into one by summing `1 / (k + rank)` for each
    id, and ranked as every other list of scores. -/

namespace EidosDB

variable (ops : F64Ops)

/-- One place of one ranking; `position` counts from 0. -/
def addRank (k : F64) (scores : OrderedTable VectorId F64) (place : VectorId × Nat) :
    OrderedTable VectorId F64 :=
  let rank := ops.ofInt (place.2 + 1)
  scores.insert place.1
    (ops.add ((scores.get place.1).getD .zero) (ops.div .one (ops.add k rank)))

/-- `fuse_rrf` -/
def fuseRrf (order : HashOrder) (rankings : List (List VectorId)) (k : F64) : List Scored :=
  let scores := rankings.foldl (fun scores ranking => ranking.zipIdx.foldl (addRank ops k) scores)
    .empty
  sortBy Scored.cmp (order.entries scores)

end EidosDB
