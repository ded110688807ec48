import EidosDB.Core.Types

/-! # HNSW Configuration and Level Sampler

    `HnswConfig` can only be built with a degree of at least two and beams of
    at least one.  Levels come from a SplitMix64 generator; the logarithm in
    the sampler is a parameter, its clamp to `0..=MAX_LEVEL` is not. -/

namespace EidosDB

inductive HnswConfigError where
  | degreeTooSmall (m : Nat)
  | zeroConstructionBeam
  | zeroSearchBeam
  deriving DecidableEq, Repr

def HnswConfigError.text : HnswConfigError → String
  | .degreeTooSmall m => s!"m must be at least 2, got {m}"
  | .zeroConstructionBeam => "ef_construction must be at least 1"
  | .zeroSearchBeam => "ef_search must be at least 1"

/-- Parameters of graph construction and search. -/
structure HnswConfig where
  metric : Metric
  m : Nat
  efConstruction : Nat
  efSearch : Nat
  seed : BitVec 64
  degree : 2 ≤ m
  construction_pos : 1 ≤ efConstruction
  search_pos : 1 ≤ efSearch
  deriving DecidableEq

namespace HnswConfig

/-- `HnswConfig::MIN_DEGREE` -/
def minDegree : Nat := 2

/-- `HnswConfig::new` -/
def new (metric : Metric) (m efConstruction efSearch : Nat) (seed : BitVec 64) :
    Except HnswConfigError HnswConfig :=
  if hm : m < minDegree then .error (.degreeTooSmall m)
  else if hc : efConstruction = 0 then .error .zeroConstructionBeam
  else if hs : efSearch = 0 then .error .zeroSearchBeam
  else .ok
    { metric := metric, m := m, efConstruction := efConstruction, efSearch := efSearch
      seed := seed, degree := not_lt.mp hm
      construction_pos := Nat.one_le_iff_ne_zero.mpr hc
      search_pos := Nat.one_le_iff_ne_zero.mpr hs }

@[simp] theorem new_self (c : HnswConfig) :
    new c.metric c.m c.efConstruction c.efSearch c.seed = .ok c := by
  have hm : ¬ c.m < minDegree := not_lt.mpr c.degree
  have hc : ¬ c.efConstruction = 0 := Nat.one_le_iff_ne_zero.mp c.construction_pos
  have hs : ¬ c.efSearch = 0 := Nat.one_le_iff_ne_zero.mp c.search_pos
  simp [new, hm, hc, hs]

/-- The smallest degree, with beams wide enough for a handful of nodes. -/
def degreeTwo (seed : BitVec 64) : HnswConfig :=
  { metric := .dotProduct, m := 2, efConstruction := 10, efSearch := 10, seed := seed
    degree := le_refl 2, construction_pos := by decide, search_pos := by decide }

/-- Degree limit of layer 0: `m.saturating_mul(2)`. -/
def mMax0 (c : HnswConfig) : Nat := min (c.m * 2) usizeMax

/-- Degree limit of the higher layers. -/
def mMax (c : HnswConfig) : Nat := c.m

/-- `m_limit` of the linking loop. -/
def limit (c : HnswConfig) (layer : Nat) : Nat := if layer = 0 then c.mMax0 else c.mMax

theorem one_le_limit (c : HnswConfig) (layer : Nat) : 1 ≤ c.limit layer := by
  have := c.degree
  unfold limit mMax0 mMax usizeMax
  split <;> omega

@[simp] theorem limit_zero (c : HnswConfig) : c.limit 0 = c.mMax0 := rfl

end HnswConfig

/-! ## The generator -/

/-- Hard ceiling on a sampled level. -/
def maxLevel : Nat := 64

/-- `SplitMix64` -/
structure SplitMix64 where
  state : BitVec 64
  deriving DecidableEq

/-- The floating-point part of the sampler: for a degree `m` and a numerator
    `raw + 1`, the value of `(-u.ln() * m_l).floor()` with
    `u = (raw + 1) / 2^64` and `m_l = 1 / ln m`, or `none` where it is not
    finite. -/
abbrev LevelFloat : Type := Nat → BitVec 64 → Option Int

/-- The logarithm for `m = 2`, where the level is the integer part of
    `64 - log2 (raw + 1)`. -/
def LevelFloat.base2 : LevelFloat := fun _ numerator =>
  let n := numerator.toNat
  if n = 0 then none else if n = 1 then some 64 else some (63 - ((n - 1).log2 : Int))

namespace SplitMix64

def new (seed : BitVec 64) : SplitMix64 := { state := seed }

def fromState (state : BitVec 64) : SplitMix64 := { state := state }

/-- The output mixer of `next_u64`. -/
def mix (s : BitVec 64) : BitVec 64 :=
  let z := (s ^^^ (s >>> 30)) * 0xBF58476D1CE4E5B9#64
  let z := (z ^^^ (z >>> 27)) * 0x94D049BB133111EB#64
  z ^^^ (z >>> 31)

/-- Advance the state and return the output. -/
def nextU64 (rng : SplitMix64) : BitVec 64 × SplitMix64 :=
  let state := rng.state + 0x9E3779B97F4A7C15#64
  (mix state, { state := state })

/-- Sample the level of a new node. -/
def nextLevel (levelFloat : LevelFloat) (m : Nat) (rng : SplitMix64) : Nat × SplitMix64 :=
  let (raw, rng') := rng.nextU64
  let level := match levelFloat m (raw + 1) with
    | some l => (max 0 (min l maxLevel)).toNat
    | none => maxLevel
  (level, rng')

/-- Whatever the logarithm returns, the level is in `0..=MAX_LEVEL`. -/
theorem nextLevel_le (levelFloat : LevelFloat) (m : Nat) (rng : SplitMix64) :
    (nextLevel levelFloat m rng).1 ≤ maxLevel := by
  show (match levelFloat m ((nextU64 rng).1 + 1) with
    | some l => (max 0 (min l maxLevel)).toNat
    | none => maxLevel) ≤ maxLevel
  split
  · rw [Int.toNat_le]
    exact max_le (Int.natCast_nonneg _) (min_le_right _ _)
  · exact le_refl _

/-- Every level up to the ceiling is the sample of some logarithm. -/
theorem nextLevel_const (m : Nat) (rng : SplitMix64) {level : Nat} (h : level ≤ maxLevel) :
    (nextLevel (fun _ _ => some level) m rng).1 = level := by
  show (max 0 (min (level : Int) maxLevel)).toNat = level
  rw [min_eq_left (by exact_mod_cast h), max_eq_right (Int.natCast_nonneg _), Int.toNat_natCast]

end SplitMix64

end EidosDB
