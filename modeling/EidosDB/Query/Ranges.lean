import EidosDB.Query.Filter

/-! # Range Filters over Mixed Numbers

    Two integers are compared exactly, any other two numbers after the cast
    of the integers to floats.  The cast rounds, so being equal is not
    transitive: two integers that round to one float are both equal to it.
    Being less is transitive all the same, because an integer that is less
    than another one is never rounded to a greater float. -/

namespace EidosDB

/-- What the code relies on in the cast of an `i64` to an `f64`: it rounds to a
    finite float and keeps the order, though not strictly. -/
structure MonotoneCast (ops : F64Ops) : Prop where
  finite : ∀ i : Int64, (ops.ofInt i.toInt).isFinite = true
  mono : ∀ i j : Int64, i.toInt ≤ j.toInt →
    (ops.ofInt i.toInt).valueKey ≤ (ops.ofInt j.toInt).valueKey

theorem F64.partialCmp_of_finite {x y : F64} (hx : x.isFinite = true) (hy : y.isFinite = true) :
    x.partialCmp y = some (compare x.valueKey y.valueKey) := by
  simp only [isFinite, decide_eq_true_eq] at hx hy
  have hnan : (x.isNan || y.isNan) = false := by
    rw [Bool.or_eq_false_iff]
    constructor
    · exact decide_eq_false (by omega)
    · exact decide_eq_false (by omega)
  rw [partialCmp, hnan]
  rfl

/-! ## The cast to the nearest float -/

/-- The quotient rounded to the nearest number, ties to the even one. -/
def roundEven (a d : Nat) : Nat :=
  a / d + if d < 2 * (a % d) ∨ (2 * (a % d) = d ∧ a / d % 2 = 1) then 1 else 0

theorem roundEven_mono {a b : Nat} (d : Nat) (h : a ≤ b) : roundEven a d ≤ roundEven b d := by
  have hquot : a / d ≤ b / d := Nat.div_le_div_right h
  have ha := Nat.div_add_mod a d
  have hb := Nat.div_add_mod b d
  unfold roundEven
  rcases Nat.lt_or_eq_of_le hquot with hlt | heq
  · split
    · omega
    · omega
  · -- the same quotient: the remainders are in order
    rw [heq] at ha ⊢
    have hrest : a % d ≤ b % d := by omega
    split
    · next hup =>
      rw [if_pos]
      omega
    · omega

theorem roundEven_mul (k : Nat) {d : Nat} (hd : 0 < d) : roundEven (k * d) d = k := by
  rw [roundEven, Nat.mul_div_cancel k hd, Nat.mul_mod_left, if_neg (by omega), Nat.add_zero]

namespace F64

/-- The bits of a positive integer: its exponent, and its 53 bits from the
    first one on. -/
def natBits (m : Nat) : Nat := (1022 + m.log2) * 2 ^ 52 + roundEven (m * 2 ^ 52) (2 ^ m.log2)

/-- `as f64` of an integer -/
def nearest (n : Int) : F64 :=
  if n = 0 then zero
  else ⟨Fin.ofNat _ ((if n < 0 then 9223372036854775808 else 0) + natBits n.natAbs)⟩

theorem natBits_bounds {m : Nat} (hm : m ≠ 0) :
    (1023 + m.log2) * 2 ^ 52 ≤ natBits m ∧ natBits m ≤ (1024 + m.log2) * 2 ^ 52 := by
  have hpos : 0 < 2 ^ m.log2 := by positivity
  have hlow : 2 ^ 52 * 2 ^ m.log2 ≤ m * 2 ^ 52 := by
    rw [Nat.mul_comm]
    exact Nat.mul_le_mul_right _ (Nat.log2_self_le hm)
  have hhigh : m * 2 ^ 52 ≤ 2 ^ 53 * 2 ^ m.log2 := by
    have hlt : m < 2 ^ (m.log2 + 1) := Nat.lt_log2_self
    rw [pow_succ] at hlt
    omega
  -- the 53 bits lie between two powers, and rounding keeps them there
  have hge := roundEven_mono (2 ^ m.log2) hlow
  have hle := roundEven_mono (2 ^ m.log2) hhigh
  rw [roundEven_mul _ hpos] at hge hle
  unfold natBits
  omega

theorem natBits_mono {m n : Nat} (hm : m ≠ 0) (h : m ≤ n) : natBits m ≤ natBits n := by
  have hn : n ≠ 0 := by omega
  have hlog : m.log2 ≤ n.log2 := (Nat.le_log2 hn).mpr (le_trans (Nat.log2_self_le hm) h)
  rcases Nat.lt_or_eq_of_le hlog with hlt | heq
  · -- a greater exponent decides, also when the lower integer is rounded up to it
    calc natBits m ≤ (1024 + m.log2) * 2 ^ 52 := (natBits_bounds hm).2
      _ ≤ (1023 + n.log2) * 2 ^ 52 := Nat.mul_le_mul_right _ (by omega)
      _ ≤ natBits n := (natBits_bounds hn).1
  · unfold natBits
    rw [heq]
    exact Nat.add_le_add_left (roundEven_mono _ (Nat.mul_le_mul_right _ h)) _

theorem natBits_finite {m : Nat} (hm : m ≠ 0) (h : m ≤ 2 ^ 63) : natBits m < 9218868437227405312 := by
  have hlog : m.log2 < 64 := (Nat.log2_lt hm).mpr (by omega)
  have := (natBits_bounds hm).2
  omega

/-- An `i64` as a float: its sign and the bits of its magnitude. -/
theorem nearest_int64 (i : Int64) (hi : i.toInt ≠ 0) :
    (nearest i.toInt).magnitude = natBits i.toInt.natAbs ∧
      (nearest i.toInt).negative = decide (i.toInt < 0) := by
  have hlt := i.toInt_lt
  have hge := i.le_toInt
  have hbits := @natBits_finite i.toInt.natAbs (by omega) (by omega)
  unfold nearest magnitude negative
  rw [if_neg hi]
  simp only [Fin.val_ofNat]
  -- the bits of a finite float leave the sign bit alone
  generalize natBits i.toInt.natAbs = bits at hbits ⊢
  by_cases hneg : i.toInt < 0
  · rw [if_pos hneg]
    constructor
    · omega
    · simp only [hneg, decide_true, decide_eq_true_eq]
      omega
  · rw [if_neg hneg]
    constructor
    · omega
    · simp only [hneg, decide_false, decide_eq_false_iff_not]
      omega

theorem valueKey_nearest (i : Int64) : (nearest i.toInt).valueKey =
    if i.toInt = 0 then 0
    else if i.toInt < 0 then -(natBits i.toInt.natAbs : Int) else natBits i.toInt.natAbs := by
  by_cases hi : i.toInt = 0
  · rw [if_pos hi, hi]
    rfl
  · obtain ⟨hmagnitude, hnegative⟩ := nearest_int64 i hi
    rw [if_neg hi, valueKey, hmagnitude, hnegative]
    simp only [decide_eq_true_eq]

end F64

/-- Small arithmetic with the cast as it is. -/
def F64Ops.casting : F64Ops := { F64Ops.small with ofInt := F64.nearest }

theorem monotoneCast_casting : MonotoneCast .casting where
  finite i := by
    by_cases hi : i.toInt = 0
    · rw [hi]
      rfl
    · have hlt := i.toInt_lt
      have hge := i.le_toInt
      have hbits := @F64.natBits_finite i.toInt.natAbs (by omega) (by omega)
      rw [F64.isFinite, F64Ops.casting, (F64.nearest_int64 i hi).1]
      exact decide_eq_true hbits
  mono i j hij := by
    show (F64.nearest i.toInt).valueKey ≤ (F64.nearest j.toInt).valueKey
    rw [F64.valueKey_nearest, F64.valueKey_nearest]
    by_cases hi : i.toInt < 0
    · by_cases hj : j.toInt < 0
      · -- of two negative integers the lower one has the greater magnitude
        have := @F64.natBits_mono j.toInt.natAbs i.toInt.natAbs (by omega) (by omega)
        rw [if_neg (by omega), if_pos hi, if_neg (by omega), if_pos hj]
        omega
      · rw [if_neg (by omega), if_pos hi]
        split
        · omega
        · omega
    · by_cases hzero : i.toInt = 0
      · rw [if_pos hzero]
        split
        · omega
        · rw [if_neg (by omega)]
          omega
      · have := @F64.natBits_mono i.toInt.natAbs j.toInt.natAbs (by omega) (by omega)
        rw [if_neg hzero, if_neg hi, if_neg (by omega), if_neg (by omega)]
        omega

/-! ## The comparison -/

namespace Value

variable {ops : F64Ops} {a b c : Value}

/-- An integer or a finite float. -/
def isNumber (v : Value) : Bool := v.isNumeric && v.isFinite

/-- The place of a number among the floats. -/
def scale (ops : F64Ops) (v : Value) : Int := (v.asF64 ops).elim 0 F64.valueKey

/-- Both are integers, in their exact order. -/
def IntegersLess (a b : Value) : Prop :=
  ∃ i j : Int64, a = .integer i ∧ b = .integer j ∧ i.toInt < j.toInt

/-- A number is an integer or a finite float. -/
theorem isNumber_iff : a.isNumber = true ↔
    (∃ i, a = .integer i) ∨ ∃ x, a = .float x ∧ x.isFinite = true := by
  cases a <;> simp [isNumber, isNumeric, isFinite]

theorem ordered_integer (i j : Int64) :
    (integer i).ordered ops (.integer j) = some (compare i.toInt j.toInt) := rfl

/-- Unless both are integers, the floats decide. -/
theorem ordered_float (hcast : MonotoneCast ops) (ha : a.isNumber = true) (hb : b.isNumber = true)
    (hmixed : ¬ ∃ i j, a = .integer i ∧ b = .integer j) :
    a.ordered ops b = some (compare (a.scale ops) (b.scale ops)) := by
  rcases isNumber_iff.mp ha with ⟨i, rfl⟩ | ⟨x, rfl, hx⟩ <;>
  rcases isNumber_iff.mp hb with ⟨j, rfl⟩ | ⟨y, rfl, hy⟩
  · exact absurd ⟨i, j, rfl, rfl⟩ hmixed
  · exact F64.partialCmp_of_finite (hcast.finite i) hy
  · exact F64.partialCmp_of_finite hx (hcast.finite j)
  · exact F64.partialCmp_of_finite hx hy

/-- Numbers are ordered, one way or the other. -/
theorem ordered_swap (hcast : MonotoneCast ops) (ha : a.isNumber = true) (hb : b.isNumber = true) :
    ∃ o, a.ordered ops b = some o ∧ b.ordered ops a = some o.swap := by
  by_cases hint : ∃ i j, a = .integer i ∧ b = .integer j
  · obtain ⟨i, j, rfl, rfl⟩ := hint
    refine ⟨_, ordered_integer i j, ?_⟩
    rw [ordered_integer]
    exact congrArg some Std.OrientedOrd.eq_swap
  · have hint' : ¬ ∃ j i, b = .integer j ∧ a = .integer i :=
      fun ⟨j, i, hj, hi⟩ => hint ⟨i, j, hi, hj⟩
    refine ⟨_, ordered_float hcast ha hb hint, ?_⟩
    rw [ordered_float hcast hb ha hint']
    exact congrArg some Std.OrientedOrd.eq_swap

/-- A number is less than another one on the scale, or both are integers and
    may have been rounded to one float. -/
theorem ordered_lt_iff (hcast : MonotoneCast ops) (ha : a.isNumber = true)
    (hb : b.isNumber = true) :
    a.ordered ops b = some .lt ↔ a.scale ops < b.scale ops ∨ IntegersLess a b := by
  by_cases hint : ∃ i j, a = .integer i ∧ b = .integer j
  · obtain ⟨i, j, rfl, rfl⟩ := hint
    rw [ordered_integer, Option.some.injEq, compare_lt_iff_lt]
    constructor
    · exact fun hlt => Or.inr ⟨i, j, rfl, rfl, hlt⟩
    · rintro (hscale | ⟨i', j', hi, hj, hlt⟩)
      · -- a lower float comes from a lower integer
        by_contra hge
        have hmono := hcast.mono j i (not_lt.mp hge)
        exact absurd hscale (not_lt.mpr hmono)
      · cases hi
        cases hj
        exact hlt
  · rw [ordered_float hcast ha hb hint, Option.some.injEq, compare_lt_iff_lt]
    constructor
    · exact Or.inl
    · rintro (hscale | ⟨i, j, hi, hj, -⟩)
      · exact hscale
      · exact absurd ⟨i, j, hi, hj⟩ hint

/-- Only numbers are ordered with a number. -/
theorem isNumeric_of_ordered {o : Ordering} (hb : b.isNumber = true)
    (h : a.ordered ops b = some o) : a.isNumeric = true := by
  cases a with
  | integer i => rfl
  | float x => rfl
  | text t =>
    rcases isNumber_iff.mp hb with ⟨j, rfl⟩ | ⟨y, rfl, -⟩
    · simp [ordered, isNumeric] at h
    · simp [ordered, isNumeric] at h
  | bool t =>
    rcases isNumber_iff.mp hb with ⟨j, rfl⟩ | ⟨y, rfl, -⟩
    · simp [ordered, isNumeric] at h
    · simp [ordered, isNumeric] at h

theorem scale_le_of_integersLess (hcast : MonotoneCast ops) (h : IntegersLess a b) :
    a.scale ops ≤ b.scale ops := by
  obtain ⟨i, j, rfl, rfl, hlt⟩ := h
  exact hcast.mono i j (le_of_lt hlt)

theorem ordered_lt_trans (hcast : MonotoneCast ops) (ha : a.isNumber = true)
    (hb : b.isNumber = true) (hc : c.isNumber = true)
    (hab : a.ordered ops b = some .lt) (hbc : b.ordered ops c = some .lt) :
    a.ordered ops c = some .lt := by
  rw [ordered_lt_iff hcast ha hb] at hab
  rw [ordered_lt_iff hcast hb hc] at hbc
  rw [ordered_lt_iff hcast ha hc]
  -- on the scale the order is transitive, and two integers in order are not
  -- against it
  rcases hab with hab | hab
  · left
    rcases hbc with hbc | hbc
    · exact lt_trans hab hbc
    · exact lt_of_lt_of_le hab (scale_le_of_integersLess hcast hbc)
  · rcases hbc with hbc | hbc
    · exact Or.inl (lt_of_le_of_lt (scale_le_of_integersLess hcast hab) hbc)
    · -- three integers: the exact order
      obtain ⟨i, j, rfl, rfl, hij⟩ := hab
      obtain ⟨j', k, hj, rfl, hjk⟩ := hbc
      cases hj
      exact Or.inr ⟨i, k, rfl, rfl, lt_trans hij hjk⟩

end Value

/-! ## The filters -/

section filters

variable {ops : F64Ops} {payload : Payload} {field : String} {s b c : Value}

/-- A stored scalar is not a NaN or an infinity. -/
theorem Payload.isFinite_of_scalar (h : payload.scalar field = some s) : s.isFinite = true := by
  unfold scalar at h
  split at h
  · next value hget =>
    cases h
    exact payload.finite (field, .scalar s) ((payload.fields.mem_entries_iff _ _).mpr hget)
  · cases h

theorem Filter.orderedIs_iff {expected : Ordering} :
    orderedIs ops payload field b expected = true ↔
      ∃ s, payload.scalar field = some s ∧ s.ordered ops b = some expected := by
  unfold orderedIs
  cases payload.scalar field with
  | none => simp
  | some s => simp [Option.any_eq_true]

theorem Filter.orderedIs_eq {expected o : Ordering} (hs : payload.scalar field = some s)
    (ho : s.ordered ops b = some o) : orderedIs ops payload field b expected = (o == expected) := by
  rw [orderedIs, hs, Option.bind_some, ho]
  rfl

theorem Filter.matches_lt_iff : (Filter.lt field b).compile.matches ops payload = true ↔
    ∃ s, payload.scalar field = some s ∧ s.ordered ops b = some .lt :=
  Filter.orderedIs_iff

/-- A filter for a number orders the field with it and with any greater
    number. -/
theorem Filter.matches_lt_of_lt (hcast : MonotoneCast ops) (hb : b.isNumber = true)
    (hc : c.isNumber = true) (hbc : b.ordered ops c = some .lt)
    (h : (Filter.lt field b).compile.matches ops payload = true) :
    (Filter.lt field c).compile.matches ops payload = true := by
  obtain ⟨s, hs, hsb⟩ := matches_lt_iff.mp h
  have hnumeric : s.isNumeric = true := Value.isNumeric_of_ordered hb hsb
  have hnumber : s.isNumber = true := by
    rw [Value.isNumber, hnumeric, Payload.isFinite_of_scalar hs]
    rfl
  exact matches_lt_iff.mpr ⟨s, hs, Value.ordered_lt_trans hcast hnumber hb hc hsb hbc⟩

/-- A number is below, above or both not above and not below. -/
theorem Filter.count_matches (hcast : MonotoneCast ops) (hb : b.isNumber = true)
    (hs : payload.scalar field = some s) (hnumeric : s.isNumeric = true) :
    [(Filter.lt field b).compile.matches ops payload,
      (Filter.gt field b).compile.matches ops payload,
      (Filter.lte field b).compile.matches ops payload &&
        (Filter.gte field b).compile.matches ops payload].count true = 1 := by
  have hnumber : s.isNumber = true := by
    rw [Value.isNumber, hnumeric, Payload.isFinite_of_scalar hs]
    rfl
  obtain ⟨o, ho, -⟩ := Value.ordered_swap hcast hnumber hb
  -- all four filters look at one and the same ordering
  have hcases : ∀ expected, orderedIs ops payload field b expected = (o == expected) :=
    fun expected => orderedIs_eq hs ho
  simp only [CompiledFilter.matches, compile, evaluate, hcases]
  cases o <;> decide

/-- Range filters follow a strict order of the numbers. -/
structure StrictRanges (ops : F64Ops) : Prop where
  ordered : ∀ a b : Value, a.isNumber = true → b.isNumber = true →
    ∃ o, a.ordered ops b = some o ∧ b.ordered ops a = some o.swap
  transitive : ∀ a b c : Value, a.isNumber = true → b.isNumber = true → c.isNumber = true →
    a.ordered ops b = some .lt → b.ordered ops c = some .lt → a.ordered ops c = some .lt
  widen : ∀ (payload : Payload) (field : String) (b c : Value),
    b.isNumber = true → c.isNumber = true → b.ordered ops c = some .lt →
    (Filter.lt field b).compile.matches ops payload = true →
    (Filter.lt field c).compile.matches ops payload = true
  trichotomy : ∀ (payload : Payload) (field : String) (s b : Value),
    payload.scalar field = some s → s.isNumeric = true → b.isNumber = true →
    [(Filter.lt field b).compile.matches ops payload,
      (Filter.gt field b).compile.matches ops payload,
      (Filter.lte field b).compile.matches ops payload &&
        (Filter.gte field b).compile.matches ops payload].count true = 1

/-- **Range filters over mixed numbers.** -/
theorem strictRanges (ops : F64Ops) (hcast : MonotoneCast ops) : StrictRanges ops where
  ordered _ _ ha hb := Value.ordered_swap hcast ha hb
  transitive _ _ _ ha hb hc hab hbc := Value.ordered_lt_trans hcast ha hb hc hab hbc
  widen _ _ _ _ hb hc hbc h := Filter.matches_lt_of_lt hcast hb hc hbc h
  trichotomy _ _ _ _ hs hnumeric hb := Filter.count_matches hcast hb hs hnumeric

theorem strictRanges_casting : StrictRanges .casting :=
  strictRanges .casting monotoneCast_casting

/-- Past `2 ^ 53` two integers round to one float, and are both equal to it. -/
example : (Value.integer 9007199254740992).ordered .casting (.integer 9007199254740993) =
      some .lt ∧
    (Value.integer 9007199254740993).ordered .casting (.float ⟨4845873199050653696⟩) = some .eq ∧
    (Value.float ⟨4845873199050653696⟩).ordered .casting (.integer 9007199254740992) =
      some .eq := by
  decide +kernel

end filters

end EidosDB
