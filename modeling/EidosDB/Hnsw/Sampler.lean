import EidosDB.Hnsw.Config
import EidosDB.Lib.Scramble

/-! # The Stream of the Level Sampler

    The generator is a counter whose words are scrambled without loss, so it
    gives every word once before it gives one twice.  Among them is the
    greatest one.  The sampler adds one to a word to keep its quotient above
    zero, and the sum wraps around to zero just there. -/

namespace EidosDB

namespace SplitMix64

open BitVec

/-! ## Draws -/

/-- What every call of `next_u64` adds to the state. -/
def increment : BitVec 64 := 0x9E3779B97F4A7C15#64

/-- The generator after `n` calls of `next_u64`. -/
def after (rng : SplitMix64) : Nat → SplitMix64
  | 0 => rng
  | n + 1 => (rng.after n).nextU64.2

/-- What the call number `n` of `next_u64` returns, counted from zero. -/
def draw (rng : SplitMix64) (n : Nat) : BitVec 64 := (rng.after n).nextU64.1

theorem state_after (rng : SplitMix64) (n : Nat) :
    (rng.after n).state = counter increment rng.state n := by
  induction n with
  | zero => exact (counter_zero increment rng.state).symm
  | succ n ih =>
    rw [counter_succ, ← ih]
    rfl

theorem after_add (rng : SplitMix64) (n k : Nat) : (rng.after n).after k = rng.after (n + k) := by
  induction k with
  | zero => rfl
  | succ k ih =>
    rw [after, ih]
    rfl

/-! ## No word is lost -/

/-- The mixer, step by step. -/
theorem mix_eq (s : BitVec 64) : mix s =
    xorShift 31 (xorShift 27 (xorShift 30 s * 0xBF58476D1CE4E5B9#64) * 0x94D049BB133111EB#64) := rfl

theorem mix_injective : Function.Injective mix := by
  intro s s' h
  rw [mix_eq, mix_eq] at h
  have hthird := xorShift_injective (by decide) h
  have hsecond := mul_injective (d := 0x319642B2D24D8EC3#64) (by decide) hthird
  have hshift := xorShift_injective (by decide) hsecond
  have hfirst := mul_injective (d := 0x96DE1B173F119089#64) (by decide) hshift
  exact xorShift_injective (by decide) hfirst

theorem nextU64_injective :
    Function.Injective fun state => (fromState state).nextU64.1 := by
  intro s s' h
  have hstate : s + increment = s' + increment := mix_injective h
  exact (BitVec.add_left_inj increment).mp hstate

theorem draw_eq (rng : SplitMix64) (n : Nat) :
    rng.draw n = mix (counter increment rng.state (n + 1)) := by
  rw [counter_succ, ← state_after]
  rfl

/-- **The period.**  The output of `next_u64` determines the state before
    it; any `2 ^ 64` calls in a row return different words; and a generator
    restored from a state goes on with the stream it was taken from. -/
theorem full_period :
    (Function.Injective fun state => (fromState state).nextU64.1) ∧
    (∀ seed start, Function.Injective fun i : Fin (2 ^ 64) => (new seed).draw (start + i.val)) ∧
    ∀ seed n k, (fromState ((new seed).after n).state).draw k = (new seed).draw (n + k) := by
  refine ⟨nextU64_injective, ?_, ?_⟩
  · intro seed start i j h
    dsimp only at h
    rw [draw_eq, draw_eq] at h
    have hcounter := mix_injective h
    have hinverse : increment * 0xF1DE83E19937733D#64 = 1#64 := by decide
    have hi := i.isLt
    have hj := j.isLt
    -- of two different draws one comes first, less than a period before the other
    rcases Nat.lt_trichotomy i.val j.val with hlt | heq | hgt
    · exact absurd hcounter (counter_ne hinverse _ (by omega) (by omega))
    · exact Fin.ext heq
    · exact absurd hcounter.symm (counter_ne hinverse _ (by omega) (by omega))
  · intro seed n k
    rw [draw, draw, ← after_add]
    rfl

/-! ## The numerator of the sampler -/

/-- `raw.wrapping_add(1)` -/
def levelNumerator (rng : SplitMix64) : BitVec 64 := rng.nextU64.1 + 1

/-- The quotient `u` of `next_level`, before it is rounded. -/
def levelU (rng : SplitMix64) : ℚ := (rng.levelNumerator.toNat : ℚ) / 2 ^ 64

theorem nextLevel_eq (levelFloat : LevelFloat) (m : Nat) (rng : SplitMix64) :
    (nextLevel levelFloat m rng).1 =
      (levelFloat m rng.levelNumerator).elim maxLevel fun l => (max 0 (min l maxLevel)).toNat := by
  unfold nextLevel levelNumerator
  dsimp only
  cases levelFloat m (rng.nextU64.1 + 1) with
  | none => rfl
  | some l => rfl

/-- The state before the draw of the greatest word. -/
def lastState : BitVec 64 := 0x31628AF67B2131AB#64

theorem nextU64_lastState : (fromState lastState).nextU64.1 = BitVec.allOnes 64 := by decide

theorem levelNumerator_eq_zero_iff (rng : SplitMix64) :
    rng.levelNumerator = 0 ↔ rng.state = lastState := by
  have hwrap : rng.nextU64.1 + 1 = 0 ↔ rng.nextU64.1 = BitVec.allOnes 64 := by
    constructor
    · intro h
      have hsum : rng.nextU64.1 + 1 = BitVec.allOnes 64 + 1 := h.trans (by decide)
      exact (BitVec.add_left_inj 1).mp hsum
    · intro h
      rw [h]
      decide
  rw [levelNumerator, hwrap, ← nextU64_lastState]
  constructor
  · intro h
    exact nextU64_injective h
  · intro h
    rw [← h]
    rfl

/-- What the sampler is documented to draw from: a numerator of at least one,
    and so a quotient in `(0, 1]`. -/
def SamplesUnitInterval (rng : SplitMix64) : Prop :=
  1 ≤ rng.levelNumerator.toNat ∧ 0 < rng.levelU ∧ rng.levelU ≤ 1

/-- **The sampler's quotient.**  It is in `(0, 1]` for every state of the
    generator but one. -/
theorem samplesUnitInterval_iff (rng : SplitMix64) :
    rng.SamplesUnitInterval ↔ rng.state ≠ lastState := by
  have hzero_iff := rng.levelNumerator_eq_zero_iff
  constructor
  · intro h hlast
    have hpos := h.1
    rw [hzero_iff.mpr hlast] at hpos
    exact absurd hpos (by decide)
  · intro hne
    have hpos : 0 < rng.levelNumerator.toNat := by
      apply Nat.pos_of_ne_zero
      intro hzero
      exact hne (hzero_iff.mp (BitVec.eq_of_toNat_eq hzero))
    have hlt : rng.levelNumerator.toNat < 2 ^ 64 := rng.levelNumerator.isLt
    refine ⟨hpos, ?_, ?_⟩
    · exact div_pos (by exact_mod_cast hpos) (by norm_num)
    · rw [levelU, div_le_one (by norm_num)]
      exact_mod_cast hlt.le

/-- A generator seeded with that state: the numerator of its first draw is
    zero. -/
theorem not_samplesUnitInterval : ¬ (new lastState).SamplesUnitInterval := by
  intro h
  exact absurd h.1 (by decide)

end SplitMix64

end EidosDB
