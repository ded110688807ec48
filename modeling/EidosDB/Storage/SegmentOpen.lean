import EidosDB.Storage.SegmentTrace

/-! # What a Segment Shows After It Is Opened

    `open` makes the file as long as the record count asks for before
    anything looks at its length.  A file that holds the records shows them
    as they were; a file that is too short is never found out, it is filled
    up with zeros instead. -/

namespace EidosDB

open Bytes Effect

namespace Segment

/-- The record the file holds at a slot. -/
def heldRecord (dimension : Nat) (bytes : List Byte) (slot : Nat) : List F32 :=
  floatsOf ((bytes.drop (headerLen + slot * (dimension * 4))).take (dimension * 4))

/-- The file holds so many whole records. -/
def HoldsRecords (dimension recordCount : Nat) (bytes : List Byte) : Prop :=
  headerLen + recordCount * (dimension * 4) ≤ bytes.length

/-- `open` takes nothing for a record that the file does not hold: a file
    without the records is reported and left alone, and what is shown is what
    the file held. -/
structure OpensFaithfully (metric : Metric) (dimension recordCount : Nat) (bytes : List Byte) :
    Prop where
  refused : ¬ HoldsRecords dimension recordCount bytes →
    ∃ message, (openAt metric dimension recordCount).exec (some bytes) =
      some (.error (.corruption message), some bytes)
  shown : ∀ segment file,
    (openAt metric dimension recordCount).exec (some bytes) = some (.ok segment, file) →
    ∀ slot < recordCount, record file segment slot = some (heldRecord dimension bytes slot)

variable {metric : Metric} {dimension recordCount : Nat} {bytes : List Byte}

/-- `open` of a file with a valid header, whatever else the file holds. -/
theorem exec_openAt (h : ValidHeader metric dimension bytes) :
    (openAt metric dimension recordCount).exec (some bytes) =
      if validLen dimension recordCount ≤ maxFileLen then
        some (.ok ⟨dimension, some (validLen dimension recordCount), recordCount⟩,
          some (File.resize (validLen dimension recordCount) bytes))
      else some (.error (.io .invalidInput), some bytes) := by
  by_cases hfits : validLen dimension recordCount ≤ maxFileLen
  · rw [if_pos hfits]
    exact (traces_openAt h hfits).exec_ok
  · rw [if_neg hfits]
    exact (traces_openAt_invalid h (not_le.mp hfits)).exec_err

/-- Below the length it is cut to, a file keeps its bytes. -/
theorem slice_resize {n start len : Nat} (hn : n ≤ bytes.length) (hstop : start + len ≤ n) :
    ((File.resize n bytes).drop start).take len = (bytes.drop start).take len := by
  have hzeros : n - bytes.length = 0 := by omega
  have hcut : File.resize n bytes = bytes.take n := by
    rw [File.resize, hzeros, List.replicate_zero, List.append_nil]
  rw [hcut, List.drop_take, List.take_take, Nat.min_eq_left (by omega)]

/-- A file that holds the records shows them as they were. -/
theorem record_of_holds (hmax : bytes.length ≤ maxFileLen)
    (hholds : HoldsRecords dimension recordCount bytes) {slot : Nat} (hslot : slot < recordCount) :
    record (some (File.resize (validLen dimension recordCount) bytes))
      ⟨dimension, some (validLen dimension recordCount), recordCount⟩ slot =
        some (heldRecord dimension bytes slot) := by
  unfold HoldsRecords at hholds
  have hword : maxFileLen < 18446744073709551616 := by decide
  have hvalid : validLen dimension recordCount = headerLen + recordCount * (dimension * 4) :=
    wrap64_val (by omega)
  have hstop : slot * (dimension * 4) + dimension * 4 ≤ recordCount * (dimension * 4) := by
    rw [← Nat.succ_mul]
    exact Nat.mul_le_mul_right _ hslot
  have hrecord := @record_eq ⟨dimension, some (validLen dimension recordCount), recordCount⟩
    dimension (validLen dimension recordCount) slot
    (File.resize (validLen dimension recordCount) bytes) rfl rfl hslot (by omega) (by omega)
  rw [hrecord, hvalid, slice_resize hholds (by omega)]
  rfl

/-- **What `open` takes for records.**  For every file with a valid header
    and every record count a manifest can carry, `open` invents no vector if
    and only if the file holds that many whole records. -/
theorem opensFaithfully_iff (metric : Metric) (dimension : Nat) (recordCount : U64)
    (bytes : List Byte) (hmax : bytes.length ≤ maxFileLen)
    (h : ValidHeader metric dimension bytes) :
    OpensFaithfully metric dimension recordCount.val bytes ↔
      HoldsRecords dimension recordCount.val bytes := by
  constructor
  · intro hfaithful
    by_contra hshort
    obtain ⟨message, hrefused⟩ := hfaithful.refused hshort
    rw [exec_openAt h] at hrefused
    split at hrefused <;> simp at hrefused
  · intro hholds
    refine ⟨fun hshort => absurd hholds hshort, ?_⟩
    intro segment file hopen slot hslot
    rw [exec_openAt h] at hopen
    split at hopen
    · cases hopen
      exact record_of_holds hmax hholds hslot
    · simp at hopen

/-- The file of a store of dimension 1 that was just made. -/
def headerFile : List Byte := headerBytes (metricToU8 .cosine) Dimension.one.u32

theorem validHeader_headerFile : ValidHeader .cosine 1 headerFile := by
  refine ⟨by decide, ?_⟩
  exact checkHeader_headerBytes .cosine Dimension.one.u32

/-- Two records, asked for two of them. -/
theorem opensFaithfully_iff_two :
    OpensFaithfully .cosine 1 2 (headerFile ++ [0, 0, 64, 64, 0, 0, 160, 64]) ↔
      HoldsRecords 1 2 (headerFile ++ [0, 0, 64, 64, 0, 0, 160, 64]) := by
  have hvalid : ValidHeader .cosine 1 (headerFile ++ [0, 0, 64, 64, 0, 0, 160, 64]) := by
    refine ⟨by decide, ?_⟩
    rw [List.take_append_of_le_length (by decide), List.take_of_length_le (by decide)]
    exact validHeader_headerFile.2
  exact opensFaithfully_iff .cosine 1 (wrap64 2) _ (by decide) hvalid

/-- A file without records, asked for one of them, shows the vector zero. -/
theorem not_opensFaithfully_header :
    ValidHeader .cosine 1 headerFile ∧ ¬ OpensFaithfully .cosine 1 1 headerFile := by
  refine ⟨validHeader_headerFile, fun hfaithful => ?_⟩
  obtain ⟨message, hrefused⟩ := hfaithful.refused (by unfold HoldsRecords; decide)
  rw [exec_openAt validHeader_headerFile, if_pos (by decide)] at hrefused
  simp at hrefused

end Segment

end EidosDB
