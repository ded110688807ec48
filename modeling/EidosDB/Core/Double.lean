import EidosDB.Core.Float

/-! # Double-Precision Floats

    An `f64` is its bit pattern, with the comparisons the code uses, as for
    `F32`.  Arithmetic and conversions are taken as a parameter. -/

namespace EidosDB

/-- An `f64` by its bits. -/
structure F64 where
  bits : Fin 18446744073709551616
  deriving DecidableEq, Repr

namespace F64

/-- The bits below the sign. -/
def magnitude (x : F64) : Nat := x.bits.val % 9223372036854775808

def negative (x : F64) : Bool := decide (9223372036854775808 ≤ x.bits.val)

/-- Exponent all ones, mantissa not zero. -/
def isNan (x : F64) : Bool := decide (9218868437227405312 < x.magnitude)

def isFinite (x : F64) : Bool := decide (x.magnitude < 9218868437227405312)

/-- Position of the bit pattern in the total order. -/
def totalKey (x : F64) : Int :=
  if x.negative then -(x.magnitude : Int) - 1 else x.magnitude

/-- Numeric order of a pattern that is not a NaN: the two zeros coincide. -/
def valueKey (x : F64) : Int :=
  if x.negative then -(x.magnitude : Int) else x.magnitude

/-- `f64::total_cmp` -/
def totalCmp (x y : F64) : Ordering := compare x.totalKey y.totalKey

/-- `f64::partial_cmp` -/
def partialCmp (x y : F64) : Option Ordering :=
  if x.isNan || y.isNan then none else some (compare x.valueKey y.valueKey)

/-- `x > y` -/
def gt (x y : F64) : Bool := x.partialCmp y == some .gt

/-- `x == y` -/
def eq (x y : F64) : Bool := x.partialCmp y == some .eq

def zero : F64 := ⟨0⟩

/-- `0.5` -/
def half : F64 := ⟨4602678819172646912⟩

/-- `0.75` -/
def threeQuarters : F64 := ⟨4604930618986332160⟩

/-- `1.0` -/
def one : F64 := ⟨4607182418800017408⟩

/-- `1.2` -/
def sixFifths : F64 := ⟨4608083138725491507⟩

/-- `60.0` -/
def sixty : F64 := ⟨4633641066610819072⟩

theorem totalKey_injective : Function.Injective totalKey := by
  intro ⟨x⟩ ⟨y⟩ h
  have hx := x.isLt
  have hy := y.isLt
  simp only [totalKey, negative, magnitude, decide_eq_true_eq] at h
  congr 1
  apply Fin.ext
  split at h <;> split at h <;> omega

/-- The float of an integer below `2 ^ 53` in magnitude. -/
def ofInt (n : Int) : F64 :=
  let m := n.natAbs
  let e := m.log2
  let sign := if n < 0 then 9223372036854775808 else 0
  if m = 0 then zero
  else ⟨Fin.ofNat _ (sign + (1023 + e) * 2 ^ 52 + (m - 2 ^ e) * 2 ^ 52 / 2 ^ e)⟩

/-- The integer part of the magnitude of a normal number. -/
def natPart (x : F64) : Nat :=
  (2 ^ 52 + x.magnitude % 2 ^ 52) * 2 ^ (x.magnitude / 2 ^ 52) / 2 ^ 1075

/-- The integer part of a normal number or zero. -/
def toInt (x : F64) : Int := if x.negative then -(x.natPart : Int) else x.natPart

end F64

/-- The double-precision arithmetic and the conversions the processor and the
    standard library provide. -/
structure F64Ops where
  add : F64 → F64 → F64
  sub : F64 → F64 → F64
  mul : F64 → F64 → F64
  div : F64 → F64 → F64
  /-- `f64::ln` -/
  ln : F64 → F64
  /-- `as f64` of an integer -/
  ofInt : Int → F64
  /-- `f64::from` of an `f32` -/
  ofF32 : F32 → F64
  /-- `as f32` -/
  toF32 : F64 → F32

/-- IEEE arithmetic where operands and results are integers below `2 ^ 24`,
    and the logarithm of one. -/
def F64Ops.small : F64Ops where
  add x y := F64.ofInt (x.toInt + y.toInt)
  sub x y := F64.ofInt (x.toInt - y.toInt)
  mul x y := F64.ofInt (x.toInt * y.toInt)
  div x y := F64.ofInt (x.toInt / y.toInt)
  ln _ := .zero
  ofInt := F64.ofInt
  ofF32 x := F64.ofInt x.toInt
  toF32 x := F32.ofInt x.toInt

/-! ## Conversions -/

/-- The magnitude of a float as that of a double. -/
def widenMagnitude (n : Nat) : Nat :=
  let e := n / 2 ^ 23
  let m := n % 2 ^ 23
  if e = 255 then 2047 * 2 ^ 52 + m * 2 ^ 29
  else if e ≠ 0 then (e + 896) * 2 ^ 52 + m * 2 ^ 29
  else if m = 0 then 0
  -- a subnormal float is a normal double
  else (m.log2 + 874) * 2 ^ 52 + (m - 2 ^ m.log2) * 2 ^ (52 - m.log2)

/-- The magnitude of a double as that of a float, where a float can hold it. -/
def narrowMagnitude (n : Nat) : Nat :=
  let e := n / 2 ^ 52
  let m := n % 2 ^ 52
  if e = 2047 then 255 * 2 ^ 23 + m / 2 ^ 29
  else if 1150 < e then 255 * 2 ^ 23
  else if 896 < e then (e - 896) * 2 ^ 23 + m / 2 ^ 29
  else if 874 ≤ e then 2 ^ (e - 874) + m / 2 ^ (926 - e)
  else 0

/-- The bits below the first one of a subnormal float, moved up. -/
theorem subnormal_lt {m : Nat} (hzero : m ≠ 0) (h : m < 2 ^ 23) : m.log2 < 23 ∧
    2 ^ m.log2 ≤ m ∧ (m - 2 ^ m.log2) * 2 ^ (52 - m.log2) < 2 ^ 52 := by
  have hle : 2 ^ m.log2 ≤ m := Nat.log2_self_le hzero
  have hlt : m < 2 ^ (m.log2 + 1) := Nat.lt_log2_self
  have hlog : m.log2 < 23 := (Nat.log2_lt hzero).mpr h
  refine ⟨hlog, hle, ?_⟩
  have hpow : 2 ^ m.log2 * 2 ^ (52 - m.log2) = 2 ^ 52 := by
    rw [← pow_add]
    congr 1
    omega
  rw [← hpow]
  apply Nat.mul_lt_mul_of_pos_right _ (by positivity)
  rw [pow_succ] at hlt
  omega

theorem widenMagnitude_lt {n : Nat} (h : n < 2147483648) :
    widenMagnitude n < 9223372036854775808 := by
  unfold widenMagnitude
  dsimp only
  split
  · omega
  · split
    · omega
    · split
      · omega
      · next hzero =>
        obtain ⟨hlog, -, hrest⟩ := subnormal_lt hzero (Nat.mod_lt n (by positivity))
        omega

theorem narrowMagnitude_widenMagnitude {n : Nat} (h : n < 2147483648) :
    narrowMagnitude (widenMagnitude n) = n := by
  unfold widenMagnitude
  dsimp only
  split
  · next he =>
    have hexp : (2047 * 2 ^ 52 + n % 2 ^ 23 * 2 ^ 29) / 2 ^ 52 = 2047 := by omega
    have hrest : (2047 * 2 ^ 52 + n % 2 ^ 23 * 2 ^ 29) % 2 ^ 52 = n % 2 ^ 23 * 2 ^ 29 := by omega
    unfold narrowMagnitude
    dsimp only
    rw [hexp, hrest, if_pos rfl]
    omega
  · split
    · next he hne =>
      have hexp : ((n / 2 ^ 23 + 896) * 2 ^ 52 + n % 2 ^ 23 * 2 ^ 29) / 2 ^ 52 = n / 2 ^ 23 + 896 := by
        omega
      have hrest : ((n / 2 ^ 23 + 896) * 2 ^ 52 + n % 2 ^ 23 * 2 ^ 29) % 2 ^ 52 =
          n % 2 ^ 23 * 2 ^ 29 := by omega
      unfold narrowMagnitude
      dsimp only
      rw [hexp, hrest, if_neg (by omega), if_neg (by omega), if_pos (by omega)]
      omega
    · split
      · next hzero =>
        have hn : n = 0 := by omega
        subst hn
        rfl
      · next he hzero =>
        have hn : n % 2 ^ 23 = n := by omega
        rw [hn] at hzero ⊢
        obtain ⟨hlog, hle, hsmall⟩ := subnormal_lt hzero (by omega)
        generalize n.log2 = l at *
        have hexp : ((l + 874) * 2 ^ 52 + (n - 2 ^ l) * 2 ^ (52 - l)) / 2 ^ 52 = l + 874 := by omega
        have hrest : ((l + 874) * 2 ^ 52 + (n - 2 ^ l) * 2 ^ (52 - l)) % 2 ^ 52 =
            (n - 2 ^ l) * 2 ^ (52 - l) := by omega
        unfold narrowMagnitude
        dsimp only
        rw [hexp, hrest, if_neg (by omega), if_neg (by omega), if_neg (by omega), if_pos (by omega),
          Nat.add_sub_cancel, show 926 - (l + 874) = 52 - l by omega,
          Nat.mul_div_cancel _ (by positivity)]
        omega

/-- `f64::from` -/
def F32.widen (x : F32) : F64 :=
  ⟨Fin.ofNat _ ((if x.negative then 9223372036854775808 else 0) + widenMagnitude x.magnitude)⟩

/-- `as f32` of a double that a float can hold. -/
def F64.narrow (x : F64) : F32 :=
  ⟨Fin.ofNat _ ((if x.negative then 2147483648 else 0) + narrowMagnitude x.magnitude)⟩

/-- A float survives the detour through doubles. -/
theorem narrow_widen (x : F32) : x.widen.narrow = x := by
  obtain ⟨bits⟩ := x
  have hbits := bits.isLt
  have hmag : bits.val % 2147483648 < 2147483648 := Nat.mod_lt _ (by omega)
  have hlt := widenMagnitude_lt hmag
  have hback := narrowMagnitude_widenMagnitude hmag
  unfold F32.widen F64.narrow F64.magnitude F64.negative F32.magnitude F32.negative
  generalize widenMagnitude (bits.val % 2147483648) = wide at *
  simp only [Fin.val_ofNat, decide_eq_true_eq]
  congr 1
  apply Fin.ext
  rw [Fin.val_ofNat]
  by_cases hneg : 2147483648 ≤ bits.val
  · rw [if_pos hneg]
    have hmod : (9223372036854775808 + wide) % 18446744073709551616 = 9223372036854775808 + wide := by
      omega
    have hwide : (9223372036854775808 + wide) % 9223372036854775808 = wide := by omega
    rw [hmod, if_pos (by omega), hwide, hback]
    omega
  · rw [if_neg hneg, Nat.zero_add]
    have hmod : wide % 18446744073709551616 = wide := by omega
    have hwide : wide % 9223372036854775808 = wide := by omega
    rw [hmod, if_neg (by omega), hwide, hback]
    omega
end EidosDB
