import EidosDB.Storage.Error

/-! # The Store Manifest

    The fixed parameters of a store and its watermark, in 17 bytes. -/

namespace EidosDB

open Bytes

abbrev U32 := Fin 4294967296

abbrev U64 := Fin 18446744073709551616

/-- The value a 64-bit register holds after a computation. -/
def wrap64 (n : Nat) : U64 := ⟨n % 18446744073709551616, Nat.mod_lt n (by decide)⟩

theorem wrap64_val {n : Nat} (h : n < 18446744073709551616) : (wrap64 n).val = n :=
  Nat.mod_eq_of_lt h

/-- `MANIFEST_LEN` -/
def manifestLen : Nat := 17

/-- `FORMAT_VERSION` -/
def formatVersion : U32 := 1

/-- `metric_to_u8`.  The source's arm for a metric without a byte has no
    metric to match. -/
def metricToU8 : Metric → Byte
  | .cosine => 0
  | .dotProduct => 1
  | .euclidean => 2

/-- `metric_from_u8` -/
def metricFromU8 (value : Byte) : Except StorageError Metric :=
  if value = 0 then .ok .cosine
  else if value = 1 then .ok .dotProduct
  else if value = 2 then .ok .euclidean
  else .error (.corruption s!"unknown metric byte {value.val}")

@[simp] theorem metricFromU8_metricToU8 (metric : Metric) :
    metricFromU8 (metricToU8 metric) = .ok metric := by
  cases metric <;> rfl

/-- `u32::try_from(dimension)` -/
def tryU32 (dimension : Nat) : Except StorageError U32 :=
  if h : dimension < 4294967296 then .ok ⟨dimension, h⟩
  else .error (.formatMismatch "dimension exceeds u32")

theorem tryU32_of_lt {n : Nat} (h : n < 4294967296) : tryU32 n = .ok ⟨n, h⟩ := dif_pos h

/-- `read_u32` -/
def readU32 (bytes : List Byte) : Except StorageError U32 :=
  if h : bytes.length = 4 then .ok ⟨ofLe bytes, lt_of_lt_of_eq (ofLe_lt bytes) (by rw [h]; rfl)⟩
  else .error (.corruption "expected 4 bytes")

/-- `read_u64` -/
def readU64 (bytes : List Byte) : Except StorageError U64 :=
  if h : bytes.length = 8 then .ok ⟨ofLe bytes, lt_of_lt_of_eq (ofLe_lt bytes) (by rw [h]; rfl)⟩
  else .error (.corruption "expected 8 bytes")

theorem readU32_toLe (n : U32) : readU32 (toLe 4 n.val) = .ok n := by
  unfold readU32
  rw [dif_pos (length_toLe 4 n.val)]
  exact congrArg Except.ok (Fin.ext (ofLe_toLe n.isLt))

theorem readU64_toLe (n : U64) : readU64 (toLe 8 n.val) = .ok n := by
  unfold readU64
  rw [dif_pos (length_toLe 8 n.val)]
  exact congrArg Except.ok (Fin.ext (ofLe_toLe n.isLt))

/-- `Manifest` -/
structure Manifest where
  formatVersion : U32
  dimension : U32
  metric : Metric
  recordCount : U64
  deriving DecidableEq

namespace Manifest

/-- `Manifest::to_bytes` -/
def toBytes (self : Manifest) : List Byte :=
  toLe 4 self.formatVersion.val ++
    (toLe 4 self.dimension.val ++ (metricToU8 self.metric :: toLe 8 self.recordCount.val))

/-- `Manifest::from_bytes` -/
def fromBytes (bytes : List Byte) : Except StorageError Manifest :=
  if bytes.length ≠ manifestLen then
    .error (.corruption s!"manifest length {bytes.length} != {manifestLen}")
  else do
    let formatVersion ← readU32 (bytes.take 4)
    let dimension ← readU32 ((bytes.drop 4).take 4)
    let metric ← metricFromU8 (bytes.getD 8 0)
    let recordCount ← readU64 ((bytes.drop 9).take 8)
    .ok { formatVersion, dimension, metric, recordCount }

@[simp] theorem length_toBytes (m : Manifest) : m.toBytes.length = manifestLen := by
  simp [toBytes, manifestLen]

/-- Every manifest is read back from its bytes. -/
@[simp] theorem fromBytes_toBytes (m : Manifest) : fromBytes m.toBytes = .ok m := by
  have hversion : m.toBytes.take 4 = toLe 4 m.formatVersion.val := by
    simp [toBytes]
  have hdim : (m.toBytes.drop 4).take 4 = toLe 4 m.dimension.val := by
    simp [toBytes]
  have hmetric : m.toBytes.getD 8 0 = metricToU8 m.metric := by
    simp [toBytes]
  have hcount : (m.toBytes.drop 9).take 8 = toLe 8 m.recordCount.val := by
    simp [toBytes, List.drop_append, List.drop_of_length_le, List.take_of_length_le]
  unfold fromBytes
  rw [if_neg (by simp), hversion, hdim, hmetric, hcount, readU32_toLe, readU32_toLe, readU64_toLe,
    metricFromU8_metricToU8]
  rfl

end Manifest

end EidosDB
