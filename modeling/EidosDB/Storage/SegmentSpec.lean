import EidosDB.Storage.Segment

/-! # What the Segment Operations Do

    The file of a store is a header, the records in slot order, and possibly
    bytes past the last record.  Each operation is specified by what it does
    to that layout, however it ends. -/

namespace EidosDB

open Bytes Effect

/-! ## Layout -/

/-- `Dimension` as the `u32` the formats store. -/
def Dimension.u32 (dimension : Dimension) : U32 := ⟨dimension.get, dimension.lt⟩

/-- Header, records, and what follows them. -/
def layout (metric : Metric) (dimension : Dimension) (recs : List (List F32)) (junk : List Byte) :
    List Byte :=
  headerBytes (metricToU8 metric) dimension.u32 ++ (recs.flatMap bytesOf ++ junk)

/-- Every record has the dimension of the store. -/
def Uniform (dimension : Dimension) (recs : List (List F32)) : Prop :=
  ∀ r ∈ recs, r.length = dimension.get

section Layout

variable {metric : Metric} {dimension : Dimension} {recs : List (List F32)} {junk : List Byte}

theorem Uniform.width (h : Uniform dimension recs) :
    ∀ r ∈ recs, (bytesOf r).length = dimension.get * 4 := by
  intro r hr
  rw [length_bytesOf, h r hr]

theorem Uniform.append (h : Uniform dimension recs) {news : List (List F32)}
    (hnews : Uniform dimension news) : Uniform dimension (recs ++ news) := by
  intro r hr
  rcases List.mem_append.mp hr with hr | hr
  · exact h r hr
  · exact hnews r hr

theorem Uniform.length_flatten (h : Uniform dimension recs) :
    recs.flatten.length = recs.length * dimension.get := by
  rw [← List.flatMap_id]
  exact length_flatMap_of_width h

theorem length_layout (metric : Metric) (junk : List Byte) (h : Uniform dimension recs) :
    (layout metric dimension recs junk).length =
      headerLen + recs.length * (dimension.get * 4) + junk.length := by
  rw [layout, List.length_append, length_headerBytes, List.length_append,
    length_flatMap_of_width h.width, Nat.add_assoc]

theorem layout_append_bytes (extra : List Byte) :
    layout metric dimension recs junk ++ extra = layout metric dimension recs (junk ++ extra) := by
  simp only [layout, List.append_assoc]

/-- Bytes of whole records after the last record are records. -/
theorem layout_append_records (news : List (List F32)) :
    layout metric dimension recs [] ++ bytesOf news.flatten =
      layout metric dimension (recs ++ news) [] := by
  simp only [layout, List.append_nil, List.append_assoc, List.flatMap_append, bytesOf_flatten]

theorem take_headerLen_layout :
    (layout metric dimension recs junk).take headerLen =
      headerBytes (metricToU8 metric) dimension.u32 := by
  have hlen := length_headerBytes (metricToU8 metric) dimension.u32
  rw [layout, List.take_append_of_le_length (le_of_eq hlen.symm),
    List.take_of_length_le (le_of_eq hlen)]

theorem take_layout (h : Uniform dimension recs) {n : Nat} (hn : n ≤ recs.length) :
    (layout metric dimension recs junk).take (headerLen + n * (dimension.get * 4)) =
      layout metric dimension (recs.take n) [] := by
  have hlen := length_headerBytes (metricToU8 metric) dimension.u32
  rw [layout, ← hlen, List.take_length_add_append, take_flatMap h.width hn, layout,
    List.append_nil]

/-- Cut to its records, a file loses exactly the bytes past them. -/
theorem resize_layout (h : Uniform dimension recs) :
    File.resize (headerLen + recs.length * (dimension.get * 4))
      (layout metric dimension recs junk) = layout metric dimension recs [] := by
  have hlen := length_layout metric junk h
  rw [File.resize, take_layout h le_rfl, List.take_length, hlen]
  rw [show headerLen + recs.length * (dimension.get * 4) -
    (headerLen + recs.length * (dimension.get * 4) + junk.length) = 0 by omega]
  rw [List.replicate_zero, List.append_nil]

theorem resize_headerLen :
    File.resize headerLen (layout metric dimension recs junk) = layout metric dimension [] [] := by
  have hlen := length_headerBytes (metricToU8 metric) dimension.u32
  rw [File.resize, take_headerLen_layout, layout, List.length_append, hlen]
  rw [show headerLen - (headerLen + (recs.flatMap bytesOf ++ junk).length) = 0 by omega]
  simp [layout]

/-- The slice of the file at slot `i` holds record `i`. -/
theorem slice_layout (h : Uniform dimension recs) {i : Nat} {r : List F32}
    (hr : recs[i]? = some r) :
    ((layout metric dimension recs junk).drop (headerLen + i * (dimension.get * 4))).take
      (dimension.get * 4) = bytesOf r := by
  have hlen := length_headerBytes (metricToU8 metric) dimension.u32
  rw [layout, ← hlen, List.drop_length_add_append]
  exact slice_flatMap h.width hr junk

end Layout

/-! ## File operations -/

namespace File

/-- A write ends with all its bytes at the end of the file, or with some of
    them. -/
theorem ends_writeAll (new : List Byte) {bytes : List Byte} {w : World File}
    (hfile : w.state = some bytes) (hmax : bytes.length ≤ maxFileLen) :
    ends (writeAll new)
      (fun _ w' => Later w w' ∧ w'.state = some (bytes ++ new) ∧
        (bytes ++ new).length ≤ maxFileLen)
      (fun r w' => Halted w r w' ∧
        (bytes.length + new.length ≤ maxFileLen → w.plan.how = some (stopOf r)) ∧
        ∃ part, w'.state = some (bytes ++ part) ∧ (bytes ++ part).length ≤ maxFileLen) w := by
  induction new generalizing bytes w with
  | nil => exact ⟨Later.refl w, by rw [List.append_nil, hfile], by simpa using hmax⟩
  | cons b new ih =>
    -- the bytes before the next one are what an interrupted write leaves
    have hkept : ∃ part, w.state = some (bytes ++ part) ∧
        (bytes ++ part).length ≤ maxFileLen := ⟨[], by simpa using hfile, by simpa using hmax⟩
    have hbytes : (w.state.getD []) = bytes := by rw [hfile, Option.getD_some]
    simp only [writeAll, writeByte, ends_bind, ends_get, hbytes]
    split
    · rename_i hroom
      apply ends_durable_storage rfl
      · intro w₁ hlater₁ hstate₁
        have hnext : (bytes ++ [b]).length ≤ maxFileLen := by
          rw [List.length_append, List.length_singleton]
          omega
        apply ends_mono (ih (by rw [hstate₁, hfile, Option.map_some]) hnext)
        · intro _ w' hend'
          obtain ⟨hlater, hstate, hlen⟩ := hend'
          rw [List.append_assoc] at hstate hlen
          exact ⟨hlater₁.trans hlater, hstate, hlen⟩
        · intro r w' hend'
          obtain ⟨hhalt, hplanned, part, hstate, hlen⟩ := hend'
          rw [List.append_assoc] at hstate hlen
          refine ⟨hhalt.after hlater₁, fun hfits => ?_, _, hstate, hlen⟩
          simp only [List.length_append, List.length_cons, List.length_nil] at hplanned hfits
          exact hlater₁.how.symm.trans (hplanned (by omega))
      · intro r w' hstop hstate
        rw [← hstate] at hkept
        exact ⟨hstop.toHalted, fun _ => hstop.planned, hkept⟩
    · refine ⟨⟨⟨rfl, fun _ => rfl⟩, rfl⟩, fun hfits => ?_, hkept⟩
      rw [List.length_cons] at hfits
      omega

theorem ends_syncAll {w : World File} :
    ends syncAll (fun _ w' => Later w w' ∧ w'.state = w.state)
      (fun r w' => Stopped w r w' ∧ w'.state = w.state) w :=
  ends_durable_storage rfl (fun _ hlater hstate => ⟨hlater, hstate⟩)
    (fun _ _ hstop hstate => ⟨hstop, hstate⟩)

theorem ends_setLen {n : Nat} {bytes : List Byte} {w : World File} (hfile : w.state = some bytes)
    (hn : n ≤ maxFileLen) :
    ends (setLen n) (fun _ w' => Later w w' ∧ w'.state = some (resize n bytes))
      (fun r w' => Stopped w r w' ∧ w'.state = some bytes) w := by
  rw [setLen, if_pos hn]
  apply ends_durable_storage rfl
  · intro w' hlater hstate
    exact ⟨hlater, by rw [hstate, hfile, Option.map_some]⟩
  · intro r w' hstop hstate
    exact ⟨hstop, by rw [hstate, hfile]⟩

end File

/-! ## Segment operations -/

namespace Segment

/-- The segment shows `n` records of the store's dimension. -/
structure Mapped (dimension : Dimension) (n : Nat) (seg : Segment) : Prop where
  dim : seg.dimension = dimension.get
  count : seg.mappedRecords = n
  map : ∃ len, seg.mmap = some len ∧ headerLen + n * (dimension.get * 4) ≤ len

theorem Mapped.stride {dimension : Dimension} {n : Nat} {seg : Segment}
    (h : Mapped dimension n seg) : seg.stride = dimension.get * 4 := by
  rw [Segment.stride, h.dim]

/-- Inside the map no offset wraps: the record is the slice at its slot. -/
theorem record_eq {seg : Segment} {width len slot : Nat} (bytes : List Byte)
    (hwidth : seg.dimension = width) (hmmap : seg.mmap = some len)
    (hslot : slot < seg.mappedRecords)
    (hfits : headerLen + slot * (width * 4) + width * 4 ≤ maxFileLen)
    (hstop : headerLen + slot * (width * 4) + width * 4 ≤ len) :
    Segment.record (some bytes) seg slot =
      some (floatsOf ((bytes.drop (headerLen + slot * (width * 4))).take (width * 4))) := by
  have hword : maxFileLen < 18446744073709551616 := by decide
  have hstride : seg.stride = width * 4 := by rw [Segment.stride, hwidth]
  have hslotWord := wrap64_val (n := slot * (width * 4)) (by omega)
  have hstartWord := wrap64_val (n := headerLen + slot * (width * 4)) (by omega)
  have hstopWord := wrap64_val (n := headerLen + slot * (width * 4) + width * 4) (by omega)
  rw [Segment.record, if_neg (by omega), hmmap]
  simp only [hstride, hslotWord, hstartWord, hstopWord]
  rw [if_pos (by omega), Option.getD_some, Nat.add_sub_cancel_left]

/-- A record below the mapped count is read as it was written. -/
theorem Mapped.record {metric : Metric} {dimension : Dimension} {n : Nat} {seg : Segment}
    (h : Mapped dimension n seg) {recs : List (List F32)} {junk : List Byte}
    (hrecs : Uniform dimension recs)
    (hmax : (layout metric dimension recs junk).length ≤ maxFileLen) {slot : Nat} {r : List F32}
    (hslot : slot < n) (hr : recs[slot]? = some r) :
    Segment.record (some (layout metric dimension recs junk)) seg slot = some r := by
  obtain ⟨len, hmmap, hlen⟩ := h.map
  have hlt : slot < recs.length := (List.getElem?_eq_some_iff.mp hr).1
  have hstop : slot * (dimension.get * 4) + dimension.get * 4 ≤
      n * (dimension.get * 4) := by
    rw [← Nat.succ_mul]
    exact Nat.mul_le_mul_right _ hslot
  have hin : slot * (dimension.get * 4) + dimension.get * 4 ≤
      recs.length * (dimension.get * 4) := by
    rw [← Nat.succ_mul]
    exact Nat.mul_le_mul_right _ hlt
  rw [length_layout _ _ hrecs] at hmax
  have hcount := h.count
  rw [record_eq _ h.dim hmmap (by omega) (by omega) (by omega), slice_layout hrecs hr,
    floatsOf_bytesOf]

theorem ends_remap {n : Nat} (bytes : List Byte) (seg : Segment) {w : World (File × Segment)}
    (hstate : w.state = (some bytes, seg)) (hneeded : headerLen + n * seg.stride ≤ bytes.length)
    (hmax : bytes.length ≤ maxFileLen) :
    ends (remap n)
      (fun _ w' => Later w w' ∧
        w'.state = (some bytes, { seg with mmap := some bytes.length, mappedRecords := n }))
      (fun r w' => Stopped w r w' ∧ w'.state = (some bytes, { seg with mmap := none })) w := by
  have hword : maxFileLen < 18446744073709551616 := by decide
  have hval := wrap64_val (n := headerLen + n * seg.stride) (by omega)
  simp only [remap, assign, onFile, ends_bind, ends_modify, ends_get, hstate, Option.getD_some]
  rw [show ({ seg with mmap := none } : Segment).stride = seg.stride from rfl, hval,
    if_neg (by omega)]
  simp only [ends_bind, ends_zoom, ends_modify]
  apply ends_durable_storage rfl
  · intro w' hlater hkept
    exact ⟨⟨hlater.commits, hlater.how⟩, by rw [hkept]; rfl⟩
  · intro r w' hstop hkept
    exact ⟨⟨⟨hstop.cause, hstop.commits⟩, hstop.planned⟩, by rw [hkept]⟩

/-- `append` puts the bytes of the values at the end of the file, or some of
    them. -/
theorem ends_append {values : List F32} {bytes : List Byte} {seg : Segment}
    {w : World (File × Segment)} (hstate : w.state = (some bytes, seg))
    (hmax : bytes.length ≤ maxFileLen) (hdim : seg.dimension ≠ 0)
    (hvalues : values.length % seg.dimension = 0) :
    ends (append values)
      (fun _ w' => Later w w' ∧ w'.state = (some (bytes ++ bytesOf values), seg) ∧
        (bytes ++ bytesOf values).length ≤ maxFileLen)
      (fun r w' => Halted w r w' ∧
        (bytes.length + values.length * 4 ≤ maxFileLen → w.plan.how = some (stopOf r)) ∧
        ∃ part, w'.state = (some (bytes ++ part), seg) ∧
          (bytes ++ part).length ≤ maxFileLen) w := by
  simp only [append, onFile, ends_bind, ends_get, hstate]
  rw [if_neg hdim, if_neg (by simpa using hvalues)]
  simp only [ends_bind, ends_zoom, hstate]
  have hfile : (⟨some bytes, w.plan, w.commits⟩ : World File).state = some bytes := rfl
  apply ends_mono (File.ends_writeAll (bytesOf values) hfile hmax)
  · intro _ w₁ hend₁
    obtain ⟨hlater₁, hwritten, hlen⟩ := hend₁
    apply ends_mono File.ends_syncAll
    · intro _ w₂ hend₂
      obtain ⟨hlater₂, hkept⟩ := hend₂
      have hlater := hlater₁.trans hlater₂
      exact ⟨⟨hlater.commits, hlater.how⟩, by rw [hkept, hwritten], hlen⟩
    · intro r w₂ hend₂
      obtain ⟨hstop, hkept⟩ := hend₂
      have hstop' := Stopped.after hlater₁ hstop
      exact ⟨⟨hstop'.cause, hstop'.commits⟩, fun _ => hstop'.planned, bytesOf values,
        by rw [hkept, hwritten], hlen⟩
  · intro r w₁ hend₁
    obtain ⟨hhalt, hplanned, part, hpart, hlen⟩ := hend₁
    rw [length_bytesOf] at hplanned
    exact ⟨⟨hhalt.cause, hhalt.commits⟩, hplanned, part, by rw [hpart], hlen⟩

theorem ends_truncateToEmpty {bytes : List Byte} {seg : Segment} {w : World (File × Segment)}
    (hstate : w.state = (some bytes, seg)) :
    ends truncateToEmpty
      (fun _ w' => Later w w' ∧ w'.state =
        (some (File.resize headerLen bytes), { seg with mmap := none, mappedRecords := 0 }))
      (fun r w' => Stopped w r w' ∧
        (w'.state.1 = some bytes ∨ w'.state.1 = some (File.resize headerLen bytes))) w := by
  have hheader : headerLen ≤ maxFileLen := by decide
  simp only [truncateToEmpty, assign, onFile, ends_bind, ends_modify, ends_zoom, hstate]
  have hfile : (⟨some bytes, w.plan, w.commits⟩ : World File).state = some bytes := rfl
  apply ends_mono (File.ends_setLen hfile hheader)
  · intro _ w₁ hend₁
    obtain ⟨hlater₁, hcut⟩ := hend₁
    apply ends_mono File.ends_syncAll
    · intro _ w₂ hend₂
      obtain ⟨hlater₂, hkept⟩ := hend₂
      have hlater := hlater₁.trans hlater₂
      exact ⟨⟨hlater.commits, hlater.how⟩, by rw [hkept, hcut]⟩
    · intro r w₂ hend₂
      obtain ⟨hstop, hkept⟩ := hend₂
      have hstop' := Stopped.after hlater₁ hstop
      exact ⟨⟨⟨hstop'.cause, hstop'.commits⟩, hstop'.planned⟩, Or.inr (by rw [hkept, hcut])⟩
  · intro r w₁ hend₁
    obtain ⟨hstop, hkept⟩ := hend₁
    exact ⟨⟨⟨hstop.cause, hstop.commits⟩, hstop.planned⟩, Or.inl hkept⟩

/-- A new segment is a header and shows no records. -/
theorem ends_create {metric : Metric} {dimension : Dimension} {w : World File}
    (hstate : w.state = none) :
    ends (create metric dimension.get)
      (fun seg w' => Later w w' ∧ w'.state = some (layout metric dimension [] []) ∧
        Mapped dimension 0 seg)
      (fun r w' => Stopped w r w') w := by
  have hheader := length_headerBytes (metricToU8 metric) dimension.u32
  have hempty : layout metric dimension [] [] =
      headerBytes (metricToU8 metric) dimension.u32 := by simp [layout]
  have hsmall : headerLen ≤ maxFileLen := by decide
  simp only [create, File.createNew, ends_bind, ends_get, hstate, Option.isSome_none,
    Bool.false_eq_true, if_false, tryU32_of_lt dimension.lt, liftExcept_ok, ends_pure]
  apply ends_durable_storage rfl
  · intro w₁ hlater₁ hnew
    apply ends_mono (File.ends_writeAll (headerBytes (metricToU8 metric) dimension.u32) hnew
      (Nat.zero_le _))
    · intro _ w₂ hend₂
      obtain ⟨hlater₂, hwritten, hmax⟩ := hend₂
      rw [List.nil_append] at hwritten hmax
      have hlater := hlater₁.trans hlater₂
      apply ends_mono File.ends_syncAll
      · intro _ w₃ hend₃
        obtain ⟨hlater₃, hkept⟩ := hend₃
        rw [ends_withVar]
        apply ends_mono (ends_remap (n := 0) (layout metric dimension [] [])
          (unmapped dimension.get) (by rw [hkept, hwritten, hempty])
          (by rw [hempty, hheader]; omega) (by rw [hempty]; exact hmax))
        · intro _ w₄ hend₄
          obtain ⟨hlater₄, hmapped⟩ := hend₄
          have hlater' := (hlater.trans hlater₃).trans ⟨hlater₄.commits, hlater₄.how⟩
          rw [hmapped]
          refine ⟨⟨hlater'.commits, hlater'.how⟩, rfl, ⟨rfl, rfl, _, rfl, ?_⟩⟩
          rw [hempty, hheader]
          omega
        · intro r w₄ hend₄
          obtain ⟨hstop, _⟩ := hend₄
          exact Stopped.after (hlater.trans hlater₃) ⟨⟨hstop.cause, hstop.commits⟩, hstop.planned⟩
      · intro r w₃ hend₃
        obtain ⟨hstop, _⟩ := hend₃
        exact hstop.after hlater
    · intro r w₂ hend₂
      obtain ⟨hhalt, hplanned, _⟩ := hend₂
      have hroom : ([] : List Byte).length +
          (headerBytes (metricToU8 metric) dimension.u32).length ≤ maxFileLen := by
        rw [hheader, List.length_nil, Nat.zero_add]
        exact hsmall
      exact Stopped.after hlater₁ ⟨hhalt, hplanned hroom⟩
  · intro r w₁ hstop _
    exact hstop

/-- `open` cuts the file to the watermark's records and shows them all. -/
theorem ends_openAt {metric : Metric} {dimension : Dimension} {recs : List (List F32)}
    {junk : List Byte} {w : World File}
    (hstate : w.state = some (layout metric dimension recs junk)) (hrecs : Uniform dimension recs)
    (hmax : (layout metric dimension recs junk).length ≤ maxFileLen) :
    ends (openAt metric dimension.get recs.length)
      (fun seg w' => Later w w' ∧ w'.state = some (layout metric dimension recs []) ∧
        Mapped dimension recs.length seg)
      (fun r w' => Stopped w r w' ∧ ∃ junk', w'.state = some (layout metric dimension recs junk') ∧
        (layout metric dimension recs junk').length ≤ maxFileLen) w := by
  have hlen := length_layout metric junk hrecs
  have hlen' := length_layout metric [] hrecs
  have hword : maxFileLen < 18446744073709551616 := by decide
  have hfits : headerLen + recs.length * (dimension.get * 4) ≤ maxFileLen := by omega
  have hcut : (layout metric dimension recs []).length ≤ maxFileLen := by
    rw [hlen', List.length_nil]
    exact hfits
  have hvalid : (wrap64 (headerLen + recs.length * (unmapped dimension.get).stride)).val =
      headerLen + recs.length * (dimension.get * 4) := wrap64_val (by simp only [stride, unmapped]; omega)
  have hcheck := checkHeader_headerBytes metric dimension.u32
  simp only [openAt, File.openExisting, validateHeader, ends_bind, ends_get, hstate,
    Option.isSome_some, if_true, ends_pure, Option.getD_some, hvalid]
  rw [if_neg (by omega), take_headerLen_layout, show dimension.get = dimension.u32.val from rfl,
    hcheck, liftExcept_ok, ends_pure]
  apply ends_mono (File.ends_setLen hstate hfits)
  · intro _ w₁ hend₁
    obtain ⟨hlater₁, hresized⟩ := hend₁
    rw [resize_layout hrecs] at hresized
    apply ends_mono File.ends_syncAll
    · intro _ w₂ hend₂
      obtain ⟨hlater₂, hkept⟩ := hend₂
      have hlater := hlater₁.trans hlater₂
      rw [ends_withVar]
      apply ends_mono (ends_remap (n := recs.length) (layout metric dimension recs [])
        (unmapped dimension.get) (by rw [hkept, hresized]; rfl)
        (by rw [hlen']; simp [stride, unmapped]) hcut)
      · intro _ w₃ hend₃
        obtain ⟨hlater₃, hmapped⟩ := hend₃
        have hlater' := hlater.trans ⟨hlater₃.commits, hlater₃.how⟩
        rw [hmapped]
        refine ⟨⟨hlater'.commits, hlater'.how⟩, rfl, ⟨rfl, rfl, _, rfl, ?_⟩⟩
        rw [hlen', List.length_nil, Nat.add_zero]
      · intro r w₃ hend₃
        obtain ⟨hstop, hkept'⟩ := hend₃
        have hstop' := Stopped.after hlater ⟨⟨hstop.cause, hstop.commits⟩, hstop.planned⟩
        exact ⟨⟨⟨hstop'.cause, hstop'.commits⟩, hstop'.planned⟩, [], by rw [hkept'], hcut⟩
    · intro r w₂ hend₂
      obtain ⟨hstop, hkept⟩ := hend₂
      exact ⟨hstop.after hlater₁, [], by rw [hkept, hresized], hcut⟩
  · intro r w₁ hend₁
    obtain ⟨hstop, hkept⟩ := hend₁
    exact ⟨hstop, junk, hkept, hmax⟩

end Segment

end EidosDB
