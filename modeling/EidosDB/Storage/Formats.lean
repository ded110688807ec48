import EidosDB.Storage.SegmentTrace

/-! # The Fixed Formats on Disk

    The manifest and the segment header are fixed numbers of bytes with the
    fields at fixed places.  Every string of 17 bytes with the byte of a
    metric is the manifest of exactly one store, and a header is accepted for
    the parameters it was written with and for no others. -/

namespace EidosDB

open Bytes Effect

/-! ## Fields -/

/-- The bytes that stand for a metric. -/
def metricBytes : List Byte := [0, 1, 2]

theorem metricFromU8_ok_iff (b : Byte) : (∃ m, metricFromU8 b = .ok m) ↔ b ∈ metricBytes := by
  unfold metricFromU8 metricBytes
  constructor
  · rintro ⟨m, hm⟩
    split at hm
    · simp [*]
    · split at hm
      · simp [*]
      · split at hm
        · simp [*]
        · cases hm
  · intro hmem
    simp only [List.mem_cons, List.not_mem_nil, or_false] at hmem
    rcases hmem with rfl | rfl | rfl
    · exact ⟨_, rfl⟩
    · exact ⟨_, rfl⟩
    · exact ⟨_, rfl⟩

theorem metricToU8_of_ok {b : Byte} {m : Metric} (h : metricFromU8 b = .ok m) :
    metricToU8 m = b := by
  unfold metricFromU8 at h
  split at h
  · cases h
    simp [metricToU8, *]
  · split at h
    · cases h
      simp [metricToU8, *]
    · split at h
      · cases h
        simp [metricToU8, *]
      · cases h

theorem readU32_ok {bytes : List Byte} (h : bytes.length = 4) :
    ∃ n, readU32 bytes = .ok n ∧ toLe 4 n.val = bytes := by
  unfold readU32
  rw [dif_pos h]
  refine ⟨_, rfl, ?_⟩
  have hback := toLe_ofLe bytes
  rwa [h] at hback

theorem readU64_ok {bytes : List Byte} (h : bytes.length = 8) :
    ∃ n, readU64 bytes = .ok n ∧ toLe 8 n.val = bytes := by
  unfold readU64
  rw [dif_pos h]
  refine ⟨_, rfl, ?_⟩
  have hback := toLe_ofLe bytes
  rwa [h] at hback

/-! ## The manifest -/

namespace Manifest

/-- The fields of a manifest lie one behind the other. -/
theorem split_bytes {bytes : List Byte} (h : bytes.length = manifestLen) :
    bytes = bytes.take 4 ++ ((bytes.drop 4).take 4 ++
      (bytes.getD 8 0 :: (bytes.drop 9).take 8)) := by
  have hlt : 8 < bytes.length := by rw [h]; decide
  have hbyte : bytes.drop 8 = bytes.getD 8 0 :: bytes.drop 9 := by
    rw [List.drop_eq_getElem_cons hlt, List.getD_eq_getElem bytes 0 hlt]
  have htail : (bytes.drop 9).take 8 = bytes.drop 9 :=
    List.take_of_length_le (by rw [List.length_drop, h]; decide)
  rw [htail, ← hbyte]
  have hmiddle : (bytes.drop 4).take 4 ++ bytes.drop 8 = bytes.drop 4 := by
    have hdrop : bytes.drop 8 = (bytes.drop 4).drop 4 := by rw [List.drop_drop]
    rw [hdrop, List.take_append_drop]
  rw [hmiddle, List.take_append_drop]

/-- `from_bytes` of the right length fails only at the byte of the metric. -/
theorem fromBytes_of_length {bytes : List Byte} (h : bytes.length = manifestLen) :
    ∃ version dimension count,
      toLe 4 version.val = bytes.take 4 ∧ toLe 4 dimension.val = (bytes.drop 4).take 4 ∧
      toLe 8 count.val = (bytes.drop 9).take 8 ∧
      fromBytes bytes = (metricFromU8 (bytes.getD 8 0)).map
        fun metric => ⟨version, dimension, metric, count⟩ := by
  have hversion : (bytes.take 4).length = 4 := by rw [List.length_take, h]; rfl
  have hdim : ((bytes.drop 4).take 4).length = 4 := by
    rw [List.length_take, List.length_drop, h]; rfl
  have hcount : ((bytes.drop 9).take 8).length = 8 := by
    rw [List.length_take, List.length_drop, h]; rfl
  obtain ⟨version, hread₁, hback₁⟩ := readU32_ok hversion
  obtain ⟨dimension, hread₂, hback₂⟩ := readU32_ok hdim
  obtain ⟨count, hread₃, hback₃⟩ := readU64_ok hcount
  refine ⟨version, dimension, count, hback₁, hback₂, hback₃, ?_⟩
  unfold fromBytes
  rw [if_neg (not_not.mpr h), hread₁, hread₂, hread₃]
  cases metricFromU8 (bytes.getD 8 0) <;> rfl

theorem length_of_ok {bytes : List Byte} {m : Manifest} (h : fromBytes bytes = .ok m) :
    bytes.length = manifestLen := by
  by_contra hlen
  unfold fromBytes at h
  rw [if_pos hlen] at h
  cases h

/-- `from_bytes` accepts what has the length and the byte of a metric. -/
theorem fromBytes_ok_iff (bytes : List Byte) :
    (∃ m, fromBytes bytes = .ok m) ↔
      bytes.length = manifestLen ∧ bytes.getD 8 0 ∈ metricBytes := by
  rw [← metricFromU8_ok_iff]
  constructor
  · rintro ⟨m, hm⟩
    have hlen := length_of_ok hm
    obtain ⟨version, dimension, count, -, -, -, hparse⟩ := fromBytes_of_length hlen
    rw [hparse] at hm
    cases hmetric : metricFromU8 (bytes.getD 8 0) with
    | ok metric => exact ⟨hlen, metric, rfl⟩
    | error e =>
      rw [hmetric] at hm
      cases hm
  · rintro ⟨hlen, metric, hmetric⟩
    obtain ⟨version, dimension, count, -, -, -, hparse⟩ := fromBytes_of_length hlen
    rw [hparse, hmetric]
    exact ⟨_, rfl⟩

/-- What was accepted is written back byte for byte. -/
theorem toBytes_of_ok {bytes : List Byte} {m : Manifest} (h : fromBytes bytes = .ok m) :
    m.toBytes = bytes := by
  have hlen := length_of_ok h
  obtain ⟨version, dimension, count, hversion, hdim, hcount, hparse⟩ := fromBytes_of_length hlen
  rw [hparse] at h
  cases hmetric : metricFromU8 (bytes.getD 8 0) with
  | error e =>
    rw [hmetric] at h
    cases h
  | ok metric =>
    rw [hmetric] at h
    cases h
    rw [toBytes, hversion, hdim, hcount, metricToU8_of_ok hmetric]
    exact (split_bytes hlen).symm

end Manifest

/-! ## The header -/

/-- A header is accepted for the parameters it was written with only. -/
theorem checkHeader_headerBytes_iff (metric metric' : Metric) (dimension dimension' : U32) :
    checkHeader (headerBytes (metricToU8 metric) dimension) metric' dimension'.val = .ok () ↔
      metric' = metric ∧ dimension' = dimension := by
  have hmagic : (headerBytes (metricToU8 metric) dimension).take 8 = magic := by
    simp [headerBytes, magic]
  have hversion : ((headerBytes (metricToU8 metric) dimension).drop 8).take 4 =
      toLe 4 formatVersion.val := by
    simp [headerBytes, magic]
  have hdim : ((headerBytes (metricToU8 metric) dimension).drop 12).take 4 =
      toLe 4 dimension.val := by
    simp [headerBytes, magic]
  have hmetric : (headerBytes (metricToU8 metric) dimension).getD 16 0 = metricToU8 metric := by
    simp [headerBytes, magic]
  unfold checkHeader
  rw [hmagic, hversion, hdim, hmetric, readU32_toLe, readU32_toLe, metricFromU8_metricToU8,
    tryU32_of_lt dimension'.isLt]
  simp only [ne_eq, not_true_eq_false, if_false, Bind.bind, Except.bind]
  by_cases hd : dimension' = dimension
  · by_cases hm : metric' = metric
    · simp [hd, hm]
    · simp [hd, hm, Ne.symm hm]
  · have hd' : ¬ dimension = dimension' := fun h => hd h.symm
    simp [hd, hd']

namespace Segment

/-- `write_header` -/
def writeHeader (metricByte : Byte) (dimension : Nat) : Effect StorageError File Unit := do
  let dim ← liftExcept (tryU32 dimension)
  File.writeAll (headerBytes metricByte dim)

theorem exec_writeHeader (metric : Metric) (dimension : U32) :
    (writeHeader (metricToU8 metric) dimension.val).exec (some []) =
      some (.ok (), some (headerBytes (metricToU8 metric) dimension)) := by
  have hroom : ([] : List Byte).length + (headerBytes (metricToU8 metric) dimension).length ≤
      maxFileLen := by
    rw [length_headerBytes]
    decide
  have hwrite := File.traces_writeAll _ hroom
  unfold writeHeader
  rw [tryU32_of_lt dimension.isLt]
  exact hwrite.exec_ok

theorem exec_validateHeader {metric : Metric} {dimension : Nat} {bytes : List Byte}
    (hlen : headerLen ≤ bytes.length) :
    (validateHeader metric dimension).exec (some bytes) =
      some (checkHeader (bytes.take headerLen) metric dimension, some bytes) := by
  have hshort : ¬ bytes.length < headerLen := not_lt.mpr hlen
  unfold validateHeader exec
  rw [bind_apply, get_apply]
  dsimp only [World.start]
  rw [Option.getD_some, if_neg hshort]
  cases checkHeader (bytes.take headerLen) metric dimension <;> rfl

end Segment

/-- **The formats are faithful.**  Manifests and their bytes determine each
    other, the accepted strings are the ones with 17 bytes and the byte of a
    metric, and a header is accepted for the metric and the dimension it was
    written with and for no others, whatever records follow it. -/
theorem formats_faithful :
    (∀ m : Manifest, Manifest.fromBytes m.toBytes = .ok m) ∧
    (∀ bytes : List Byte, (∃ m, Manifest.fromBytes bytes = .ok m) ↔
      bytes.length = 17 ∧ bytes.getD 8 0 ∈ metricBytes) ∧
    (∀ (bytes : List Byte) (m : Manifest),
      Manifest.fromBytes bytes = .ok m → m.toBytes = bytes) ∧
    ∀ (metric metric' : Metric) (dimension dimension' : U32), ∃ header,
      (Segment.writeHeader (metricToU8 metric) dimension.val).exec (some []) =
        some (.ok (), some header) ∧
      ∀ records : List Byte, ∃ result,
        (Segment.validateHeader metric' dimension'.val).exec (some (header ++ records)) =
          some (result, some (header ++ records)) ∧
        (result = .ok () ↔ metric' = metric ∧ dimension' = dimension) := by
  refine ⟨Manifest.fromBytes_toBytes, Manifest.fromBytes_ok_iff,
    fun _ _ h => Manifest.toBytes_of_ok h, ?_⟩
  intro metric metric' dimension dimension'
  refine ⟨_, Segment.exec_writeHeader metric dimension, fun records => ?_⟩
  have hlen := length_headerBytes (metricToU8 metric) dimension
  refine ⟨_, Segment.exec_validateHeader (by rw [List.length_append, hlen]; omega), ?_⟩
  rw [List.take_append_of_le_length (le_of_eq hlen.symm), List.take_of_length_le (le_of_eq hlen)]
  exact checkHeader_headerBytes_iff metric metric' dimension dimension'

end EidosDB
