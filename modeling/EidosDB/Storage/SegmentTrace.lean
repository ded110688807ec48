import EidosDB.Lib.Trace
import EidosDB.Storage.SegmentSpec

/-! # Traces of the Segment Operations

    The durable steps of each operation on the segment file, with the bytes
    the file has before each of them.  Opening is traced for any file with a
    valid header: it resizes the file to the length that the record count
    asks for, whatever the file holds. -/

namespace EidosDB

open Bytes Effect

/-! ## Files -/

/-- A mark before a step of the file system. -/
def fileMark (bytes : List Byte) : Mark StorageError File := ⟨some bytes, .ioFailure⟩

/-- The marks of a write: one before each of its bytes. -/
def writeMarks (bytes new : List Byte) : List (Mark StorageError File) :=
  (List.range new.length).map fun i => fileMark (bytes ++ new.take i)

@[simp] theorem length_writeMarks (bytes new : List Byte) :
    (writeMarks bytes new).length = new.length := by
  rw [writeMarks, List.length_map, List.length_range]

theorem writeMarks_cons (bytes new : List Byte) (b : Byte) :
    writeMarks bytes (b :: new) = fileMark bytes :: writeMarks (bytes ++ [b]) new := by
  unfold writeMarks
  rw [List.length_cons, List.range_succ_eq_map, List.map_cons, List.map_map, List.take_zero,
    List.append_nil]
  simp [Function.comp_def]

/-- What the file holds when a write, or what follows it, is cut short. -/
theorem state_writeMarks_append (bytes new : List Byte) (rest : List (Mark StorageError File))
    (hrest : ∀ mark ∈ rest, mark.state = some (bytes ++ new)) (i : Nat) :
    ((writeMarks bytes new ++ rest)[i]?).elim (some (bytes ++ new)) Mark.state =
      some (bytes ++ new.take i) := by
  rcases Nat.lt_or_ge i new.length with hlt | hge
  · rw [List.getElem?_append_left (by rwa [length_writeMarks])]
    simp [writeMarks, hlt, fileMark]
  · rw [List.getElem?_append_right (by rwa [length_writeMarks]), List.take_of_length_le hge]
    cases hmark : rest[i - (writeMarks bytes new).length]? with
    | none => rfl
    | some mark => exact hrest mark (List.mem_of_getElem? hmark)

theorem getElem?_writeMarks (bytes new : List Byte) {i : Nat} (hi : i < new.length) :
    (writeMarks bytes new)[i]? = some (fileMark (bytes ++ new.take i)) := by
  simp [writeMarks, hi]

namespace File

theorem length_resize (n : Nat) (bytes : List Byte) : (resize n bytes).length = n := by
  simp [resize]
  omega

theorem traces_writeByte {bytes : List Byte} (b : Byte) (hroom : bytes.length < maxFileLen) :
    Traces (writeByte b) (some bytes) [fileMark bytes] (.ok ()) (some (bytes ++ [b])) := by
  unfold writeByte
  apply traces_next (traces_get _)
  rw [Option.getD_some, if_pos hroom]
  exact traces_durable _ _ _

/-- A write for which there is room. -/
theorem traces_writeAll (new : List Byte) {bytes : List Byte}
    (hroom : bytes.length + new.length ≤ maxFileLen) :
    Traces (writeAll new) (some bytes) (writeMarks bytes new) (.ok ())
      (some (bytes ++ new)) := by
  induction new generalizing bytes with
  | nil =>
    rw [List.append_nil]
    exact traces_pure () _
  | cons b new ih =>
    rw [List.length_cons] at hroom
    have hrest : (bytes ++ [b]).length + new.length ≤ maxFileLen := by
      rw [List.length_append, List.length_singleton]
      omega
    have htail := ih hrest
    rw [List.append_assoc] at htail
    rw [writeMarks_cons]
    exact traces_bind (traces_writeByte b (by omega)) htail

/-- A write for which there is no room fills the file up. -/
theorem traces_writeAll_full (new : List Byte) {bytes : List Byte}
    (hmax : bytes.length ≤ maxFileLen) (hfull : maxFileLen < bytes.length + new.length) :
    Traces (writeAll new) (some bytes)
      (writeMarks bytes (new.take (maxFileLen - bytes.length))) (.err (.io .fileTooLarge))
      (some (bytes ++ new.take (maxFileLen - bytes.length))) := by
  induction new generalizing bytes with
  | nil =>
    rw [List.length_nil] at hfull
    omega
  | cons b new ih =>
    rw [List.length_cons] at hfull
    rcases Nat.lt_or_ge bytes.length maxFileLen with hlt | hge
    · have hlen : (bytes ++ [b]).length = bytes.length + 1 := by
        rw [List.length_append, List.length_singleton]
      have htail := @ih (bytes ++ [b]) (by omega) (by omega)
      have hleft : maxFileLen - bytes.length = maxFileLen - (bytes ++ [b]).length + 1 := by omega
      rw [hleft, List.take_succ_cons, writeMarks_cons]
      rw [List.append_assoc] at htail
      exact traces_bind (traces_writeByte b hlt) htail
    · have hleft : maxFileLen - bytes.length = 0 := by omega
      rw [hleft, List.take_zero, List.append_nil]
      have hthrow : Traces (writeByte b) (some bytes) [] (.err (.io .fileTooLarge))
          (some bytes) := by
        unfold writeByte
        apply traces_next (traces_get _)
        rw [Option.getD_some, if_neg (by omega)]
        exact traces_throw _ _
      exact traces_bind_err hthrow

theorem traces_createNew :
    Traces createNew none [⟨none, .ioFailure⟩] (.ok ()) (some []) := by
  unfold createNew
  apply traces_next (traces_get _)
  exact traces_durable _ _ _

theorem traces_openExisting (bytes : List Byte) :
    Traces openExisting (some bytes) [] (.ok ()) (some bytes) := by
  unfold openExisting
  apply traces_next (traces_get _)
  exact traces_pure _ _

theorem traces_syncAll (bytes : List Byte) :
    Traces syncAll (some bytes) [fileMark bytes] (.ok ()) (some bytes) := traces_durable _ _ _

theorem traces_setLen {n : Nat} (bytes : List Byte) (hn : n ≤ maxFileLen) :
    Traces (setLen n) (some bytes) [fileMark bytes] (.ok ()) (some (resize n bytes)) := by
  unfold setLen
  rw [if_pos hn]
  exact traces_durable _ _ _

theorem traces_setLen_invalid {n : Nat} (bytes : List Byte) (hn : maxFileLen < n) :
    Traces (setLen n) (some bytes) [] (.err (.io .invalidInput)) (some bytes) := by
  unfold setLen
  rw [if_neg (by omega)]
  exact traces_throw _ _

end File

/-! ## Bytes in front of a vector -/

theorem isFinite_ofBytes (b : Byte) : (F32.ofBytes b 0 0 0).isFinite = true := by
  have hlt := b.isLt
  apply decide_eq_true
  simp only [F32.magnitude, F32.ofBytes, ofLe, Fin.val_zero]
  omega

/-- Some vector cannot be read back from behind these bytes. -/
theorem exists_unlike (dimension : Dimension) {part : List Byte} (hpart : part ≠ []) :
    ∃ e : Embedding, e.dimension = dimension.get ∧
      floatsOf ((part ++ bytesOf e.values).take (dimension.get * 4)) ≠ e.values := by
  obtain ⟨b, rest, rfl⟩ := List.exists_cons_of_ne_nil hpart
  have hpos := dimension.pos
  have hdim : (F32.ofBytes (b + 1) 0 0 0 :: List.replicate (dimension.get - 1)
      (F32.ofBytes 0 0 0 0)).length = dimension.get := by
    rw [List.length_cons, List.length_replicate]
    omega
  refine ⟨⟨F32.ofBytes (b + 1) 0 0 0 :: List.replicate (dimension.get - 1) (F32.ofBytes 0 0 0 0),
    by simp, ?_⟩, hdim, ?_⟩
  · intro x hx
    rcases List.mem_cons.mp hx with rfl | hx
    · exact isFinite_ofBytes (b + 1)
    · rw [List.eq_of_mem_replicate hx]
      exact isFinite_ofBytes 0
  · intro heq
    have hbytes := congrArg bytesOf heq
    rw [@bytesOf_floatsOf dimension.get _ (by
      rw [List.length_take, List.length_append, length_bytesOf, hdim]
      omega)] at hbytes
    -- the first bytes differ
    have hfirst := congrArg (fun bytes => bytes.headD 0) hbytes
    obtain ⟨n, hn⟩ := Nat.exists_eq_succ_of_ne_zero (Nat.pos_iff_ne_zero.mp hpos)
    rw [bytesOf, List.flatMap_cons, F32.toBytes_ofBytes, hn, Nat.succ_mul] at hfirst
    have hstep : b = b + 1 := hfirst
    have hlt := b.isLt
    have hval := congrArg Fin.val hstep
    rw [Fin.val_add] at hval
    simp at hval
    omega

/-! ## Opening -/

namespace Segment

/-- A mark of the file while a segment has it open. -/
def Shown (seg : Segment) (mark : Mark StorageError File) : Mark StorageError (File × Segment) :=
  ⟨(mark.state, seg), mark.error⟩

theorem traces_onFile {α : Type} {m : Effect StorageError File α} {file file' : File}
    {marks : List (Mark StorageError File)} {o : Outcome StorageError α} (seg : Segment)
    (h : Traces m file marks o file') :
    Traces (onFile m) (file, seg) (marks.map (Shown seg)) o (file', seg) :=
  traces_zoom Prod.fst (fun file s => (file, s.2)) (file, seg) h

theorem traces_remap {n : Nat} {bytes : List Byte} (seg : Segment)
    (hneeded : (wrap64 (headerLen + n * seg.stride)).val ≤ bytes.length) :
    Traces (remap n) (some bytes, seg)
      [⟨(some bytes, { seg with mmap := none }), .ioFailure⟩] (.ok ())
      (some bytes, { seg with mmap := some bytes.length, mappedRecords := n }) := by
  unfold remap
  apply traces_next (traces_modify _ _)
  apply traces_next (traces_get _)
  dsimp only
  rw [Option.getD_some]
  have hnot : ¬ bytes.length < (wrap64 (headerLen + n *
      ({ seg with mmap := none } : Segment).stride)).val := not_lt.mpr hneeded
  rw [if_neg hnot]
  have hstep := traces_onFile { seg with mmap := none }
    (traces_durable StorageError.ioFailure id (some bytes))
  exact traces_bind hstep (traces_modify _ _)

/-- `remap` of a file that is too short. -/
theorem traces_remap_short {n : Nat} {bytes : List Byte} (seg : Segment)
    (hshort : bytes.length < (wrap64 (headerLen + n * seg.stride)).val) :
    ∃ e, Traces (remap n) (some bytes, seg) [] (.err e) (some bytes, { seg with mmap := none }) := by
  refine ⟨.corruption
    s!"segment file len {bytes.length} < required {(wrap64 (headerLen + n * seg.stride)).val}", ?_⟩
  unfold remap
  apply traces_next (traces_modify _ _)
  apply traces_next (traces_get _)
  dsimp only
  rw [Option.getD_some]
  have hless : bytes.length < (wrap64 (headerLen + n *
      ({ seg with mmap := none } : Segment).stride)).val := hshort
  rw [if_pos hless]
  exact traces_throw _ _

/-- `append` of values that are not whole records. -/
theorem traces_append_ragged {values : List F32} {bytes : List Byte} {seg : Segment}
    (hdim : seg.dimension ≠ 0) (hvalues : values.length % seg.dimension ≠ 0) :
    Traces (append values) (some bytes, seg) []
      (.err (.corruption
        s!"append length {values.length} is not a multiple of dimension {seg.dimension}"))
      (some bytes, seg) := by
  unfold append
  apply traces_next (traces_get _)
  dsimp only
  rw [if_neg hdim, if_pos hvalues]
  exact traces_throw _ _

/-- `append` of whole records for which there is room. -/
theorem traces_append {values : List F32} {bytes : List Byte} {seg : Segment}
    (hdim : seg.dimension ≠ 0) (hvalues : values.length % seg.dimension = 0)
    (hroom : bytes.length + values.length * 4 ≤ maxFileLen) :
    Traces (append values) (some bytes, seg)
      ((writeMarks bytes (bytesOf values) ++ [fileMark (bytes ++ bytesOf values)]).map (Shown seg))
      (.ok ()) (some (bytes ++ bytesOf values), seg) := by
  rw [← length_bytesOf values] at hroom
  unfold append
  apply traces_next (traces_get _)
  dsimp only
  rw [if_neg hdim, if_neg (by simpa using hvalues), List.map_append]
  exact traces_bind (traces_onFile seg (File.traces_writeAll (bytesOf values) hroom))
    (traces_onFile seg (File.traces_syncAll _))

/-- `append` of whole records for which there is no room. -/
theorem traces_append_full {values : List F32} {bytes : List Byte} {seg : Segment}
    (hdim : seg.dimension ≠ 0) (hvalues : values.length % seg.dimension = 0)
    (hmax : bytes.length ≤ maxFileLen) (hfull : maxFileLen < bytes.length + values.length * 4) :
    Traces (append values) (some bytes, seg)
      ((writeMarks bytes ((bytesOf values).take (maxFileLen - bytes.length))).map (Shown seg))
      (.err (.io .fileTooLarge))
      (some (bytes ++ (bytesOf values).take (maxFileLen - bytes.length)), seg) := by
  rw [← length_bytesOf values] at hfull
  unfold append
  apply traces_next (traces_get _)
  dsimp only
  rw [if_neg hdim, if_neg (by simpa using hvalues)]
  exact traces_bind_err (traces_onFile seg (File.traces_writeAll_full (bytesOf values) hmax hfull))

section Append

variable {τ : Type} (read : τ → File × Segment) (write : File × Segment → τ → τ) {t : τ}
  {values : List F32} {bytes : List Byte} {seg : Segment}

/-- `append` on a part of the state: before its durable step `n` the file has
    the first `n` bytes of the values at its end. -/
theorem traces_append_zoom (hread : read t = (some bytes, seg)) (hdim : seg.dimension ≠ 0)
    (hvalues : values.length % seg.dimension = 0)
    (hroom : bytes.length + values.length * 4 ≤ maxFileLen) :
    ∃ marks, Traces (zoom read write (append values)) t marks (.ok ())
        (write (some (bytes ++ bytesOf values), seg) t) ∧
      marks.length = (bytesOf values).length + 1 ∧
      ∀ n mark, marks[n]? = some mark →
        mark.state = write (some (bytes ++ (bytesOf values).take n), seg) t := by
  have happend := traces_append hdim hvalues hroom
  rw [← hread] at happend
  refine ⟨_, traces_zoom read write t happend, by simp, ?_⟩
  intro n mark hmark
  rw [List.getElem?_map, List.getElem?_map] at hmark
  obtain ⟨shown, hshown, rfl⟩ := Option.map_eq_some_iff.mp hmark
  obtain ⟨file, hfile, rfl⟩ := Option.map_eq_some_iff.mp hshown
  have hstate := state_writeMarks_append bytes (bytesOf values)
    [fileMark (bytes ++ bytesOf values)] (by simp [fileMark]) n
  rw [hfile] at hstate
  exact congrArg (fun file => write (file, seg) t) hstate

/-- The same when there is no room. -/
theorem traces_append_full_zoom (hread : read t = (some bytes, seg)) (hdim : seg.dimension ≠ 0)
    (hvalues : values.length % seg.dimension = 0) (hmax : bytes.length ≤ maxFileLen)
    (hfull : maxFileLen < bytes.length + values.length * 4) :
    ∃ marks part, Traces (zoom read write (append values)) t marks (.err (.io .fileTooLarge))
        (write (some (bytes ++ part), seg) t) ∧
      marks.length ≤ (bytesOf values).length ∧
      ∀ n mark, marks[n]? = some mark →
        mark.state = write (some (bytes ++ (bytesOf values).take n), seg) t := by
  have happend := traces_append_full hdim hvalues hmax hfull
  rw [← hread] at happend
  refine ⟨_, _, traces_zoom read write t happend, by simp, ?_⟩
  intro n mark hmark
  rw [List.getElem?_map, List.getElem?_map] at hmark
  obtain ⟨shown, hshown, rfl⟩ := Option.map_eq_some_iff.mp hmark
  obtain ⟨file, hfile, rfl⟩ := Option.map_eq_some_iff.mp hshown
  have hlt := (List.getElem?_eq_some_iff.mp hfile).1
  rw [length_writeMarks, List.length_take] at hlt
  rw [getElem?_writeMarks _ _ (by rw [List.length_take]; omega), List.take_take,
    Nat.min_eq_left (by omega)] at hfile
  obtain rfl := Option.some.inj hfile
  rfl

/-- `append` of a length that is no whole number of records. -/
theorem traces_append_ragged_zoom (hread : read t = (some bytes, seg))
    (hwrite : write (read t) t = t) (hdim : seg.dimension ≠ 0)
    (hvalues : values.length % seg.dimension ≠ 0) :
    Traces (zoom read write (append values)) t [] (.err (.corruption
      s!"append length {values.length} is not a multiple of dimension {seg.dimension}")) t := by
  have happend := @traces_append_ragged values bytes seg hdim hvalues
  rw [← hread] at happend
  have hzoom := traces_zoom read write t happend
  rwa [hwrite] at hzoom

end Append

theorem traces_truncateToEmpty (bytes : List Byte) (seg : Segment) :
    Traces truncateToEmpty (some bytes, seg)
      ([fileMark bytes, fileMark (File.resize headerLen bytes)].map
        (Shown { seg with mmap := none, mappedRecords := 0 }))
      (.ok ())
      (some (File.resize headerLen bytes), { seg with mmap := none, mappedRecords := 0 }) := by
  unfold truncateToEmpty
  apply traces_next (traces_modify _ _)
  have hheader : headerLen ≤ maxFileLen := by decide
  exact traces_bind (traces_onFile _ (File.traces_setLen bytes hheader))
    (traces_onFile _ (File.traces_syncAll _))

/-- The file begins with the header of a store. -/
def ValidHeader (metric : Metric) (dimension : Nat) (bytes : List Byte) : Prop :=
  headerLen ≤ bytes.length ∧ checkHeader (bytes.take headerLen) metric dimension = .ok ()

/-- The length `open` gives the file. -/
def validLen (dimension recordCount : Nat) : Nat :=
  (wrap64 (headerLen + recordCount * (dimension * 4))).val

variable {metric : Metric} {dimension recordCount : Nat} {bytes : List Byte}

theorem traces_validate (h : ValidHeader metric dimension bytes) :
    Traces (validateHeader metric dimension) (some bytes) [] (.ok ()) (some bytes) := by
  obtain ⟨hlen, hcheck⟩ := h
  unfold validateHeader
  apply traces_next (traces_get _)
  rw [Option.getD_some, if_neg (by omega), hcheck]
  exact traces_pure _ _

/-- `open` of a file with a valid header, when the file system can hold the
    length asked for. -/
theorem traces_openAt (h : ValidHeader metric dimension bytes)
    (hfits : validLen dimension recordCount ≤ maxFileLen) :
    Traces (openAt metric dimension recordCount) (some bytes)
      [fileMark bytes, fileMark (File.resize (validLen dimension recordCount) bytes),
        fileMark (File.resize (validLen dimension recordCount) bytes)]
      (.ok ⟨dimension, some (validLen dimension recordCount), recordCount⟩)
      (some (File.resize (validLen dimension recordCount) bytes)) := by
  have hlen := File.length_resize (validLen dimension recordCount) bytes
  unfold openAt
  apply traces_next (File.traces_openExisting bytes)
  apply traces_next (traces_validate h)
  apply traces_bind (File.traces_setLen bytes hfits)
  apply traces_bind (File.traces_syncAll _)
  have hneeded : (wrap64 (headerLen + recordCount * (unmapped dimension).stride)).val ≤
      (File.resize (validLen dimension recordCount) bytes).length := by
    rw [hlen]
    exact le_rfl
  have hvar := traces_withVar (traces_remap (unmapped dimension) hneeded)
  rw [hlen] at hvar
  exact hvar

/-- `open` when it cannot. -/
theorem traces_openAt_invalid (h : ValidHeader metric dimension bytes)
    (hfits : maxFileLen < validLen dimension recordCount) :
    Traces (openAt metric dimension recordCount) (some bytes) [] (.err (.io .invalidInput))
      (some bytes) := by
  unfold openAt
  apply traces_next (File.traces_openExisting bytes)
  apply traces_next (traces_validate h)
  exact traces_bind_err (File.traces_setLen_invalid bytes hfits)

theorem traces_openAt_missing (metric : Metric) (dimension recordCount : Nat) :
    Traces (openAt metric dimension recordCount) none [] (.err (.io .notFound)) none := by
  unfold openAt
  apply traces_bind_err
  unfold File.openExisting
  apply traces_next (traces_get _)
  exact traces_throw _ _

/-- `open` of a file that is shorter than its header. -/
theorem traces_openAt_torn (metric : Metric) (dimension recordCount : Nat)
    (hlen : bytes.length < headerLen) :
    Traces (openAt metric dimension recordCount) (some bytes) []
      (.err (.io .unexpectedEof)) (some bytes) := by
  unfold openAt
  apply traces_next (File.traces_openExisting bytes)
  apply traces_bind_err
  unfold validateHeader
  apply traces_next (traces_get _)
  rw [Option.getD_some, if_pos hlen]
  exact traces_throw _ _

/-- `open` of a file whose header it does not accept. -/
theorem traces_openAt_refused (hnot : ¬ ValidHeader metric dimension bytes) :
    ∃ e, Traces (openAt metric dimension recordCount) (some bytes) [] (.err e) (some bytes) := by
  rcases Nat.lt_or_ge bytes.length headerLen with hshort | hlong
  · exact ⟨_, traces_openAt_torn metric dimension recordCount hshort⟩
  · cases hcheck : checkHeader (bytes.take headerLen) metric dimension with
    | ok u => exact absurd ⟨hlong, hcheck⟩ hnot
    | error e =>
      refine ⟨e, ?_⟩
      unfold openAt
      apply traces_next (File.traces_openExisting bytes)
      apply traces_bind_err
      unfold validateHeader
      apply traces_next (traces_get _)
      rw [Option.getD_some, if_neg (by omega), hcheck]
      exact traces_throw _ _

/-- A file is never longer than the file system allows. -/
def Bounded (file : File) : Prop := ∀ bytes, file = some bytes → bytes.length ≤ maxFileLen

theorem bounded_none : Bounded none := by simp [Bounded]

/-- `open` of any file: however it ends the file stays within its bound, and
    a segment shows as many records as were asked for. -/
theorem traces_openAt_any (metric : Metric) (dimension recordCount : Nat) {file : File}
    (hfile : Bounded file) :
    ∃ marks o file', Traces (openAt metric dimension recordCount) file marks o file' ∧
      (∀ mark ∈ marks, Bounded mark.state) ∧ Bounded file' ∧
      ((∃ e, o = .err e) ∨
        o = .ok ⟨dimension, some (validLen dimension recordCount), recordCount⟩ ∧
        ∃ bytes, file' = some (File.resize (validLen dimension recordCount) bytes)) := by
  cases file with
  | none =>
    exact ⟨_, _, _, traces_openAt_missing metric dimension recordCount, by simp, hfile,
      Or.inl ⟨_, rfl⟩⟩
  | some bytes =>
    by_cases hvalid : ValidHeader metric dimension bytes
    · rcases Nat.lt_or_ge maxFileLen (validLen dimension recordCount) with hlong | hfits
      · exact ⟨_, _, _, traces_openAt_invalid hvalid hlong, by simp, hfile, Or.inl ⟨_, rfl⟩⟩
      · have hbound : Bounded (some (File.resize (validLen dimension recordCount) bytes)) := by
          intro bytes' hbytes
          obtain rfl := Option.some.inj hbytes
          rw [File.length_resize]
          exact hfits
        refine ⟨_, _, _, traces_openAt hvalid hfits, ?_, hbound, Or.inr ⟨rfl, bytes, rfl⟩⟩
        intro mark hmark
        simp only [List.mem_cons, List.not_mem_nil, or_false] at hmark
        rcases hmark with rfl | rfl | rfl
        · exact hfile
        · exact hbound
        · exact hbound
    · obtain ⟨e, htrace⟩ := @traces_openAt_refused metric dimension recordCount bytes hvalid
      exact ⟨_, _, _, htrace, by simp, hfile, Or.inl ⟨e, rfl⟩⟩

end Segment



end EidosDB
