import Mathlib

/-! # Scrambling Words

    Steps that mix the bits of a machine word and lose none of them: a word
    is added to a shift of itself, or multiplied by a number that has an
    inverse.  A counter that goes up by such a number comes to every word
    before it comes back to the first. -/

namespace BitVec

variable {w : Nat}

/-- A word that is a shift of itself is zero. -/
theorem eq_zero_of_ushiftRight {k : Nat} (hk : 0 < k) {z : BitVec w} (h : z >>> k = z) : z = 0#w := by
  have hdiv : z.toNat / 2 ^ k = z.toNat := by
    rw [← Nat.shiftRight_eq_div_pow, ← toNat_ushiftRight, h]
  have hpow : 1 < 2 ^ k := Nat.one_lt_two_pow (by omega)
  have hzero : z.toNat = 0 := by
    by_contra hne
    have hlt := Nat.div_lt_self (Nat.pos_of_ne_zero hne) hpow
    omega
  exact eq_of_toNat_eq hzero

/-- `z ^ (z >> k)` -/
def xorShift (k : Nat) (z : BitVec w) : BitVec w := z ^^^ (z >>> k)

theorem xorShift_injective {k : Nat} (hk : 0 < k) :
    Function.Injective (xorShift k : BitVec w → BitVec w) := by
  intro z z' h
  -- the bits in which the two words differ are their own shift
  have hshift : (z ^^^ z') >>> k = z ^^^ z' := by
    unfold xorShift at h
    rw [ushiftRight_xor_distrib]
    calc z >>> k ^^^ z' >>> k
        = (z ^^^ (z ^^^ z >>> k)) ^^^ z' >>> k := by rw [← xor_assoc, xor_self, zero_xor]
      _ = (z ^^^ (z' ^^^ z' >>> k)) ^^^ z' >>> k := by rw [h]
      _ = z ^^^ z' := by rw [xor_assoc, xor_assoc, xor_self, xor_zero]
  have hzero := eq_zero_of_ushiftRight hk hshift
  exact xor_eq_zero_iff.mp hzero

theorem mul_injective {c d : BitVec w} (h : c * d = 1#w) :
    Function.Injective fun z : BitVec w => z * c := by
  intro z z' hz
  dsimp only at hz
  calc z = z * (c * d) := by rw [h, BitVec.mul_one]
    _ = z' * (c * d) := by rw [← BitVec.mul_assoc, hz, BitVec.mul_assoc]
    _ = z' := by rw [h, BitVec.mul_one]

/-! ## Counters -/

/-- A counter that goes up by `c`, after `n` steps. -/
def counter (c start : BitVec w) (n : Nat) : BitVec w := start + BitVec.ofNat w n * c

@[simp] theorem counter_zero (c start : BitVec w) : counter c start 0 = start := by
  simp [counter]

theorem counter_succ (c start : BitVec w) (n : Nat) :
    counter c start (n + 1) = counter c start n + c := by
  have hsucc : BitVec.ofNat w (n + 1) = BitVec.ofNat w n + 1#w := by
    rw [← ofNat_add]
  rw [counter, counter, hsucc, BitVec.add_mul, BitVec.one_mul, BitVec.add_assoc]

/-- Two steps less than `2 ^ w` apart show different words. -/
theorem counter_ne {c d : BitVec w} (h : c * d = 1#w) (start : BitVec w) {i j : Nat} (hij : i < j)
    (hnear : j < i + 2 ^ w) : counter c start i ≠ counter c start j := by
  intro heq
  have hmul : BitVec.ofNat w i * c = BitVec.ofNat w j * c := by
    unfold counter at heq
    exact add_right_inj start |>.mp heq
  have hword := congrArg BitVec.toNat (mul_injective h hmul)
  rw [toNat_ofNat, toNat_ofNat] at hword
  have hdvd : 2 ^ w ∣ j - i := (Nat.modEq_iff_dvd' hij.le).mp hword
  have hle := Nat.le_of_dvd (by omega) hdvd
  omega

end BitVec
