import Mathlib

/-! # Bytes

    Numbers as little-endian byte lists of a fixed width, and files of
    fixed-width records: where record `i` lies and what a slice there
    reads. -/

namespace Bytes

abbrev Byte := Fin 256

/-- The literals of a byte. -/
instance byteNeZero : NeZero 256 := ⟨by decide⟩

/-! ## Little-endian numbers -/

/-- The low byte of a number. -/
def lowByte (n : Nat) : Byte := ⟨n % 256, Nat.mod_lt n (by decide)⟩

/-- `to_le_bytes` at width `w`: higher bytes are dropped. -/
def toLe : Nat → Nat → List Byte
  | 0, _ => []
  | w + 1, n => lowByte n :: toLe w (n / 256)

/-- `from_le_bytes` -/
def ofLe : List Byte → Nat
  | [] => 0
  | b :: bs => b.val + 256 * ofLe bs

@[simp] theorem length_toLe (w n : Nat) : (toLe w n).length = w := by
  induction w generalizing n with
  | zero => rfl
  | succ w ih => simp [toLe, ih]

theorem ofLe_toLe {w n : Nat} (h : n < 256 ^ w) : ofLe (toLe w n) = n := by
  induction w generalizing n with
  | zero =>
    obtain rfl : n = 0 := by simpa using h
    rfl
  | succ w ih =>
    have hdiv : n / 256 < 256 ^ w := by
      rw [pow_succ] at h
      exact Nat.div_lt_of_lt_mul (by omega)
    simp only [toLe, ofLe, ih hdiv, lowByte]
    omega

theorem ofLe_lt (bs : List Byte) : ofLe bs < 256 ^ bs.length := by
  induction bs with
  | nil => simp [ofLe]
  | cons b bs ih =>
    have hb := b.isLt
    simp only [ofLe, List.length_cons, pow_succ]
    omega

theorem toLe_ofLe (bs : List Byte) : toLe bs.length (ofLe bs) = bs := by
  induction bs with
  | nil => rfl
  | cons b bs ih =>
    have hb := b.isLt
    have hdiv : ofLe (b :: bs) / 256 = ofLe bs := by simp only [ofLe]; omega
    have hmod : lowByte (ofLe (b :: bs)) = b := by
      apply Fin.ext
      simp only [lowByte, ofLe]
      omega
    rw [List.length_cons, toLe, hdiv, hmod, ih]

/-! ## Records of one width -/

section Records

variable {α β : Type} {encode : α → List β} {width : Nat}

theorem length_flatMap_of_width {l : List α} (h : ∀ a ∈ l, (encode a).length = width) :
    (l.flatMap encode).length = l.length * width := by
  induction l with
  | nil => simp
  | cons a l ih =>
    have ha := h a List.mem_cons_self
    have hl := ih (fun b hb => h b (List.mem_cons_of_mem _ hb))
    rw [List.flatMap_cons, List.length_append, ha, hl, List.length_cons, Nat.succ_mul, Nat.add_comm]

/-- The slice of width `width` at record `i` is record `i`, whatever follows
    the records. -/
theorem slice_flatMap {l : List α} (h : ∀ a ∈ l, (encode a).length = width) {i : Nat} {a : α}
    (ha : l[i]? = some a) (rest : List β) :
    ((l.flatMap encode ++ rest).drop (i * width)).take width = encode a := by
  induction l generalizing i with
  | nil => simp at ha
  | cons b l ih =>
    have hb := h b List.mem_cons_self
    cases i with
    | zero =>
      obtain rfl : b = a := by simpa using ha
      rw [Nat.zero_mul, List.drop_zero, List.flatMap_cons, List.append_assoc]
      rw [List.take_append_of_le_length (le_of_eq hb.symm), List.take_of_length_le (le_of_eq hb)]
    | succ i =>
      have hrest := ih (fun c hc => h c (List.mem_cons_of_mem _ hc)) (by simpa using ha)
      -- the first record takes the first `width` places
      rw [List.flatMap_cons, List.append_assoc, Nat.succ_mul, Nat.add_comm, ← List.drop_drop,
        List.drop_append_of_le_length (le_of_eq hb.symm), List.drop_of_length_le (le_of_eq hb),
        List.nil_append]
      exact hrest

/-- The first `n` records are the first `n * width` places. -/
theorem take_flatMap {l : List α} (h : ∀ a ∈ l, (encode a).length = width) {n : Nat}
    (hn : n ≤ l.length) (rest : List β) :
    (l.flatMap encode ++ rest).take (n * width) = (l.take n).flatMap encode := by
  have hsplit : l.flatMap encode = (l.take n).flatMap encode ++ (l.drop n).flatMap encode := by
    rw [← List.flatMap_append, List.take_append_drop]
  have hlen : ((l.take n).flatMap encode).length = n * width := by
    rw [length_flatMap_of_width (fun a ha => h a (List.mem_of_mem_take ha)), List.length_take,
      Nat.min_eq_left hn]
  rw [hsplit, List.append_assoc, List.take_append_of_le_length (le_of_eq hlen.symm),
    List.take_of_length_le (le_of_eq hlen)]

end Records

end Bytes
