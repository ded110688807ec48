import EidosDB.Lib.Bytes

/-! # Self-Delimiting Encodings

    A wire format of a type writes a value as bytes and reads one value off
    the front of a byte list, leaving the rest.  Formats compose: pairs are
    written one after the other, lists behind their length.  Numbers are
    written seven bits to a byte, the lowest first, with the high bit set on
    all but the last byte. -/

open Bytes

/-- A wire format. -/
structure Wire (α : Type) where
  encode : α → List Byte
  parse : List Byte → Option (α × List Byte)
  parse_encode : ∀ a rest, parse (encode a ++ rest) = some (a, rest)

namespace Wire

variable {α β : Type}

/-! ## Base formats -/

/-- A byte as it is. -/
def byte : Wire Byte where
  encode b := [b]
  parse
    | [] => none
    | b :: rest => some (b, rest)
  parse_encode _ _ := rfl

/-- Seven bits, with the mark that more follow. -/
def groupByte (n : Nat) : Byte := ⟨n % 128 + 128, by omega⟩

/-- The last seven bits. -/
def lastByte (n : Nat) : Byte := ⟨n % 128, by omega⟩

/-- The groups of `n`, at most `fuel` of them after the first. -/
def toVarint : Nat → Nat → List Byte
  | 0, n => [lastByte n]
  | fuel + 1, n => if n < 128 then [lastByte n] else groupByte n :: toVarint fuel (n / 128)

def ofVarint : List Byte → Option (Nat × List Byte)
  | [] => none
  | b :: rest =>
    if b.val < 128 then some (b.val, rest)
    else (ofVarint rest).map fun r => (b.val - 128 + 128 * r.1, r.2)

theorem ofVarint_toVarint {fuel n : Nat} (h : n < 128 ^ (fuel + 1)) (rest : List Byte) :
    ofVarint (toVarint fuel n ++ rest) = some (n, rest) := by
  have hlast : ∀ n, n < 128 → ofVarint (lastByte n :: rest) = some (n, rest) := by
    intro n hn
    have hval : (lastByte n).val = n := Nat.mod_eq_of_lt hn
    rw [ofVarint, hval, if_pos hn]
  induction fuel generalizing n with
  | zero => exact hlast n (by simpa using h)
  | succ fuel ih =>
    unfold toVarint
    split
    · next hn => exact hlast n hn
    · next hn =>
      have hdiv : n / 128 < 128 ^ (fuel + 1) := by
        apply Nat.div_lt_of_lt_mul
        rwa [pow_succ, Nat.mul_comm] at h
      have hval : (groupByte n).val = n % 128 + 128 := rfl
      have hgroups : n % 128 + 128 - 128 + 128 * (n / 128) = n := by omega
      rw [List.cons_append, ofVarint, hval, if_neg (by omega), ih hdiv, Option.map_some, hgroups]

/-- A number, with as many groups as it needs. -/
def varint : Wire Nat where
  encode n := toVarint n.log2 n
  parse := ofVarint
  parse_encode n rest := by
    apply ofVarint_toVarint
    have hbits : n < 2 ^ (n.log2 + 1) := Nat.lt_log2_self
    exact lt_of_lt_of_le hbits (Nat.pow_le_pow_left (by decide) _)

/-! ## Composition -/

/-- A format along an encoding of one type in another. -/
def map (w : Wire α) (f : α → Option β) (g : β → α) (h : ∀ b, f (g b) = some b) : Wire β where
  encode b := w.encode (g b)
  parse bytes := (w.parse bytes).bind fun r => (f r.1).map fun b => (b, r.2)
  parse_encode b rest := by
    rw [w.parse_encode, Option.bind_some]
    dsimp only
    rw [h, Option.map_some]

/-- One value after another. -/
def pair (v : Wire α) (w : Wire β) : Wire (α × β) where
  encode p := v.encode p.1 ++ w.encode p.2
  parse bytes := (v.parse bytes).bind fun r => (w.parse r.2).map fun r' => ((r.1, r'.1), r'.2)
  parse_encode p rest := by
    rw [List.append_assoc, v.parse_encode, Option.bind_some]
    dsimp only
    rw [w.parse_encode, Option.map_some]

/-- `n` values. -/
def parseMany (w : Wire α) : Nat → List Byte → Option (List α × List Byte)
  | 0, bytes => some ([], bytes)
  | n + 1, bytes =>
    (w.parse bytes).bind fun r => (w.parseMany n r.2).map fun r' => (r.1 :: r'.1, r'.2)

theorem parseMany_flatMap (w : Wire α) (l : List α) (rest : List Byte) :
    w.parseMany l.length (l.flatMap w.encode ++ rest) = some (l, rest) := by
  induction l with
  | nil => rfl
  | cons a l ih =>
    rw [List.length_cons, parseMany, List.flatMap_cons, List.append_assoc, w.parse_encode,
      Option.bind_some]
    dsimp only
    rw [ih, Option.map_some]

/-- A list behind its length. -/
def list (w : Wire α) : Wire (List α) where
  encode l := varint.encode l.length ++ l.flatMap w.encode
  parse bytes := (varint.parse bytes).bind fun r => w.parseMany r.1 r.2
  parse_encode l rest := by
    rw [List.append_assoc, varint.parse_encode, Option.bind_some]
    exact w.parseMany_flatMap l rest

/-- A value that may be missing, behind a byte that says so. -/
def option (w : Wire α) : Wire (Option α) where
  encode
    | none => [0]
    | some a => 1 :: w.encode a
  parse
    | [] => none
    | tag :: rest =>
      if tag = 0 then some (none, rest)
      else if tag = 1 then (w.parse rest).map fun r => (some r.1, r.2)
      else none
  parse_encode
    | none, _ => rfl
    | some a, rest => by
      rw [List.cons_append]
      dsimp only
      rw [if_neg (by decide), if_pos rfl, w.parse_encode, Option.map_some]

/-- The bytes of a string. -/
def utf8 (s : String) : List Byte := s.toByteArray.data.toList.map UInt8.toFin

/-- A string behind the number of its bytes. -/
def string : Wire String :=
  byte.list.map (fun bytes => String.fromUTF8? ⟨(bytes.map UInt8.ofFin).toArray⟩) utf8
    (fun s => by
      have hback : (utf8 s).map UInt8.ofFin = s.toByteArray.data.toList := by
        unfold utf8
        rw [List.map_map]
        exact List.map_id _
      rw [hback, Array.toArray_toList]
      exact dif_pos s.isValidUTF8)

def bool : Wire Bool :=
  byte.map (fun b => if b = 0 then some false else if b = 1 then some true else none)
    (fun b => if b then 1 else 0) (fun b => by cases b <;> rfl)

/-- A bounded number, with as many groups as it needs. -/
def fin (bound : Nat) : Wire (Fin bound) :=
  varint.map (fun n => if h : n < bound then some ⟨n, h⟩ else none) (fun n => n.val)
    (fun n => dif_pos n.isLt)

/-- A machine word, with as many groups as it needs. -/
def word (width : Nat) : Wire (BitVec width) :=
  varint.map (fun n => some (BitVec.ofNat width n)) (fun x => x.toNat)
    (fun x => by rw [BitVec.ofNat_toNat, BitVec.setWidth_eq])

/-- A number of `width` bytes, the highest first. -/
def fixed (width : Nat) {bound : Nat} (hbound : bound = 256 ^ width) : Wire (Fin bound) where
  encode n := (toLe width n.val).reverse
  parse bytes :=
    if h : (bytes.take width).length = width then
      some (⟨ofLe (bytes.take width).reverse, by
        have hlt := ofLe_lt (bytes.take width).reverse
        rwa [List.length_reverse, h, ← hbound] at hlt⟩, bytes.drop width)
    else none
  parse_encode n rest := by
    have hlen : (toLe width n.val).reverse.length = width := by
      rw [List.length_reverse, length_toLe]
    have htake : ((toLe width n.val).reverse ++ rest).take width = (toLe width n.val).reverse :=
      List.take_left' hlen
    have hdrop : ((toLe width n.val).reverse ++ rest).drop width = rest :=
      List.drop_left' hlen
    have hlt : n.val < 256 ^ width := lt_of_lt_of_eq n.isLt hbound
    simp only [htake, hdrop, List.reverse_reverse, ofLe_toLe hlt]
    rw [dif_pos hlen]

/-- A number of `width` bytes, the lowest first. -/
def fixedLe (width : Nat) {bound : Nat} (hbound : bound = 256 ^ width) : Wire (Fin bound) where
  encode n := toLe width n.val
  parse bytes :=
    if h : (bytes.take width).length = width then
      some (⟨ofLe (bytes.take width), by
        have hlt := ofLe_lt (bytes.take width)
        rwa [h, ← hbound] at hlt⟩, bytes.drop width)
    else none
  parse_encode n rest := by
    have hlen : (toLe width n.val).length = width := length_toLe width n.val
    have htake : (toLe width n.val ++ rest).take width = toLe width n.val := List.take_left' hlen
    have hdrop : (toLe width n.val ++ rest).drop width = rest := List.drop_left' hlen
    have hlt : n.val < 256 ^ width := lt_of_lt_of_eq n.isLt hbound
    simp only [htake, hdrop, ofLe_toLe hlt]
    rw [dif_pos hlen]

/-- A signed number: the even numbers stand for those from zero on, the odd
    ones for those below. -/
def zigzag : Wire Int64 :=
  varint.map (fun n => some (.ofInt (if n % 2 = 0 then (n / 2 : Nat) else -(n / 2 : Nat) - 1)))
    (fun i => if 0 ≤ i.toInt then (2 * i.toInt).toNat else (-2 * i.toInt - 1).toNat)
    (fun i => by
      have hback : (if (if 0 ≤ i.toInt then (2 * i.toInt).toNat else (-2 * i.toInt - 1).toNat) % 2 = 0
          then (((if 0 ≤ i.toInt then (2 * i.toInt).toNat else (-2 * i.toInt - 1).toNat) / 2 : Nat)
            : Int)
          else -(((if 0 ≤ i.toInt then (2 * i.toInt).toNat else (-2 * i.toInt - 1).toNat) / 2 : Nat)
            : Int) - 1) = i.toInt := by
        split <;> split <;> omega
      rw [hback, Int64.ofInt_toInt])

end Wire
