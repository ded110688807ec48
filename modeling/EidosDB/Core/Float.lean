import Mathlib

/-! # Single-Precision Floats

    An `f32` is its bit pattern.  The comparisons the code uses are defined
    on the bits as the standard documents them: `totalCmp` is the IEEE 754
    total order, `gt` the partial order in which both zeros are equal and a
    NaN is related to nothing.  Arithmetic is taken as a parameter. -/

namespace EidosDB

/-- The literals of 32-bit words, and of 64-bit ones below. -/
instance wordNeZero : NeZero 4294967296 := ⟨by decide⟩

instance doubleNeZero : NeZero 18446744073709551616 := ⟨by decide⟩

/-- An `f32` by its bits. -/
structure F32 where
  bits : Fin 4294967296
  deriving DecidableEq, Repr

namespace F32

/-- The bits below the sign. -/
def magnitude (x : F32) : Nat := x.bits.val % 2147483648

def negative (x : F32) : Bool := decide (2147483648 ≤ x.bits.val)

/-- Exponent all ones, mantissa not zero. -/
def isNan (x : F32) : Bool := decide (2139095040 < x.magnitude)

def isFinite (x : F32) : Bool := decide (x.magnitude < 2139095040)

/-- Position of the bit pattern in the total order. -/
def totalKey (x : F32) : Int :=
  if x.negative then -(x.magnitude : Int) - 1 else x.magnitude

/-- Numeric order of a pattern that is not a NaN: the two zeros coincide. -/
def valueKey (x : F32) : Int :=
  if x.negative then -(x.magnitude : Int) else x.magnitude

/-- `f32::total_cmp` -/
def totalCmp (x y : F32) : Ordering := compare x.totalKey y.totalKey

/-- `x > y` -/
def gt (x y : F32) : Bool := !x.isNan && !y.isNan && decide (y.valueKey < x.valueKey)

/-- `x < y` -/
def lt (x y : F32) : Bool := gt y x

/-- `x == y` -/
def eq (x y : F32) : Bool := !x.isNan && !y.isNan && decide (x.valueKey = y.valueKey)

def zero : F32 := ⟨0⟩

/-- `f32::NEG_INFINITY` -/
def negInfinity : F32 := ⟨4286578688⟩

theorem totalKey_injective : Function.Injective totalKey := by
  intro ⟨x⟩ ⟨y⟩ h
  have hx := x.isLt
  have hy := y.isLt
  simp only [totalKey, negative, magnitude, decide_eq_true_eq] at h
  congr 1
  apply Fin.ext
  split at h <;> split at h <;> omega

@[simp] theorem totalCmp_eq_eq {x y : F32} : totalCmp x y = .eq ↔ x = y := by
  rw [totalCmp, compare_eq_iff_eq, totalKey_injective.eq_iff]

/-- A float that exceeds another one comes after it in the total order. -/
theorem totalKey_lt_of_gt {x y : F32} (h : gt x y = true) : y.totalKey < x.totalKey := by
  simp only [gt, Bool.and_eq_true, decide_eq_true_eq] at h
  have hlt := h.2
  unfold valueKey at hlt
  unfold totalKey
  split at hlt <;> split at hlt <;> rename_i h₁ h₂ <;> simp only [h₁, h₂] <;> simp <;> omega

/-- `-x` -/
def neg (x : F32) : F32 := ⟨x.bits + 2147483648⟩

/-- The float of an integer below `2 ^ 24` in magnitude. -/
def ofInt (n : Int) : F32 :=
  let m := n.natAbs
  let e := m.log2
  let sign := if n < 0 then 2147483648 else 0
  if m = 0 then zero else ⟨Fin.ofNat _ (sign + (127 + e) * 2 ^ 23 + (m - 2 ^ e) * 2 ^ 23 / 2 ^ e)⟩

/-- The integer part of the magnitude of a normal number. -/
def natPart (x : F32) : Nat :=
  (2 ^ 23 + x.magnitude % 2 ^ 23) * 2 ^ (x.magnitude / 2 ^ 23) / 2 ^ 150

/-- The integer part of a normal number or zero. -/
def toInt (x : F32) : Int := if x.negative then -(x.natPart : Int) else x.natPart

/-- A magnitude with the sign of a product. -/
def signed (x y : F32) (m : Nat) : F32 :=
  if x.negative == y.negative then ofInt m else neg (ofInt m)

end F32

/-- The arithmetic the processor and the standard library provide. -/
structure F32Ops where
  add : F32 → F32 → F32
  sub : F32 → F32 → F32
  mul : F32 → F32 → F32
  div : F32 → F32 → F32
  neg : F32 → F32
  sqrt : F32 → F32
  /-- The value `Iterator::sum` starts from. -/
  sumStart : F32

namespace F32Ops

/-- IEEE arithmetic where operands and results are integers below `2 ^ 24`,
    enough to evaluate the model on such inputs. -/
def small : F32Ops where
  add x y := if x = F32.neg F32.zero && y = F32.neg F32.zero then x else F32.ofInt (x.toInt + y.toInt)
  sub x y := F32.ofInt (x.toInt - y.toInt)
  mul x y := F32.signed x y (x.natPart * y.natPart)
  div x y := F32.signed x y (x.natPart / y.natPart)
  neg := F32.neg
  sqrt x := F32.ofInt x.natPart.sqrt
  sumStart := F32.neg F32.zero

variable (ops : F32Ops)

/-- `Iterator::sum` -/
def sum (l : List F32) : F32 := l.foldl ops.add ops.sumStart

def dot (a b : List F32) : F32 := ops.sum (List.zipWith ops.mul a b)

def euclidean (a b : List F32) : F32 :=
  ops.sqrt (ops.sum (List.zipWith (fun x y => let d := ops.sub x y; ops.mul d d) a b))

def cosine (a b : List F32) : F32 :=
  let normA := ops.sqrt (ops.dot a a)
  let normB := ops.sqrt (ops.dot b b)
  if normA.eq F32.zero || normB.eq F32.zero then F32.zero
  else ops.div (ops.dot a b) (ops.mul normA normB)

end F32Ops

end EidosDB
