import EidosDB.Storage.FlatTrace

/-! # The First Opening of a Flat Store

    A store is made in several durable steps: the directory, the catalog
    file, the manifest, the segment file, and the bytes of its header.  The
    next opening looks at the catalog file alone to tell a store that is
    there from one to be made.  So an opening that was cut short can be made
    good if the catalog file was not there yet, or the header was complete;
    in between, the directory cannot be opened any more. -/

namespace EidosDB

open Bytes Effect

namespace FlatDisk

variable {metric : Metric} {dimension : Dimension}

/-- The catalog of an empty store. -/
def emptyCatalog (metric : Metric) (dimension : Dimension) : CatalogDb :=
  .stored (manifestOf metric dimension 0) .empty

/-- The index over a store just made. -/
def createdIndex (metric : Metric) (dimension : Dimension) : PersistentFlatIndex :=
  { segment := ⟨dimension.get, some headerLen, 0⟩
    metric := metric
    dimension := dimension
    recordCount := 0
    liveCount := 0
    tail := [] }

/-- The files before the durable step `n` of the first opening. -/
def creationDisk (metric : Metric) (dimension : Dimension) (n : Nat) : FlatDisk :=
  if n < 2 then empty
  else if n = 2 then { catalog := some .fresh, segment := none }
  else if n = 3 then { catalog := some (emptyCatalog metric dimension), segment := none }
  else
    { catalog := some (emptyCatalog metric dimension)
      segment := some ((Segment.headerOf metric dimension).take (n - 4)) }

/-- The marks of the first opening. -/
def creationMarks (metric : Metric) (dimension : Dimension) : List (Mark StorageError FlatDisk) :=
  [⟨empty, .ioFailure⟩, ⟨empty, .commitFailure⟩,
    ⟨{ catalog := some .fresh, segment := none }, .commitFailure⟩,
    ⟨{ catalog := some (emptyCatalog metric dimension), segment := none }, .ioFailure⟩] ++
  (writeMarks [] (Segment.headerOf metric dimension) ++
    [fileMark (Segment.headerOf metric dimension),
      fileMark (Segment.headerOf metric dimension)]).map
    (segmentMark { catalog := some (emptyCatalog metric dimension), segment := none })

theorem traces_openAt_empty (metric : Metric) (dimension : Dimension) :
    Traces (openAt metric dimension) empty (creationMarks metric dimension)
      (.ok (createdIndex metric dimension))
      { catalog := some (emptyCatalog metric dimension)
        segment := some (Segment.headerOf metric dimension) } := by
  have hcatalog := traces_onCatalogFile empty
    (Catalog.traces_create (manifestOf metric dimension 0))
  have hsegment := traces_onSegmentFile
    { catalog := some (emptyCatalog metric dimension), segment := none }
    (Segment.traces_create metric dimension)
  unfold openAt
  apply traces_bind (traces_durable _ _ _)
  apply traces_next (traces_get _)
  show Traces (openNew metric dimension) empty _ _ _
  unfold openNew
  rw [tryU32_of_lt dimension.lt]
  apply traces_next (traces_pure _ _)
  apply traces_bind hcatalog
  apply traces_bind hsegment
  exact traces_pure _ _

/-- The files that the first opening leaves, wherever it is cut short. -/
theorem state_creation (metric : Metric) (dimension : Dimension) (n : Nat) (how : Stop) :
    (openAt metric dimension (World.start empty (.stop n how))).2.state =
      creationDisk metric dimension n := by
  rw [(traces_openAt_empty metric dimension).state_stop n how]
  rcases n with _ | _ | _ | _ | n
  · rfl
  · rfl
  · rfl
  · rfl
  · have hbytes := state_writeMarks_append [] (Segment.headerOf metric dimension)
      [fileMark (Segment.headerOf metric dimension), fileMark (Segment.headerOf metric dimension)]
      (by simp [fileMark]) n
    rw [List.nil_append, List.nil_append] at hbytes
    have hmark : (creationMarks metric dimension)[n + 4]? =
        ((writeMarks [] (Segment.headerOf metric dimension) ++
          [fileMark (Segment.headerOf metric dimension),
            fileMark (Segment.headerOf metric dimension)])[n]?).map
          (segmentMark { catalog := some (emptyCatalog metric dimension), segment := none }) := by
      rw [← List.getElem?_map]
      rfl
    have hback : n + 1 + 1 + 1 + 1 - 4 = n := by omega
    rw [hmark, creationDisk, if_neg (by omega), if_neg (by omega), if_neg (by omega), hback,
      ← hbytes]
    cases (writeMarks [] (Segment.headerOf metric dimension) ++
      [fileMark (Segment.headerOf metric dimension),
        fileMark (Segment.headerOf metric dimension)])[n]? <;> rfl

/-! ## The next opening -/

/-- The directory opens as an empty store that works: it holds nothing, and
    answers every run of calls for which the file system has room as a new
    index in memory does. -/
def OpensEmpty (metric : Metric) (dimension : Dimension) (disk : FlatDisk) : Prop :=
  ∃ index w, openAt metric dimension (World.start disk .none) = (.ok index, w) ∧
    Holds metric dimension ⟨w.state, index⟩ (fun _ => none) ∧
    ∀ calls as s, FlatStore.answers calls ⟨w.state, index⟩ = some (as, s) →
      as = (FlatIndex.answers calls (.new metric dimension)).1.map asOutcome

theorem opensEmpty_of_rep {disk : FlatDisk} {index : PersistentFlatIndex} {w : World FlatDisk}
    (hopen : openAt metric dimension (World.start disk .none) = (.ok index, w))
    (hrep : Rep metric dimension .empty ⟨w.state, index⟩) : OpensEmpty metric dimension disk := by
  refine ⟨index, w, hopen, hrep.holds, ?_⟩
  intro calls as s hanswers
  exact (answers_spec hrep (inStep_new metric dimension) hanswers).1

theorem opensEmpty_empty : OpensEmpty metric dimension empty := by
  obtain ⟨index, w, hopen, hrep⟩ := openAt_empty metric dimension
  exact opensEmpty_of_rep hopen hrep

/-- A directory with a whole header is a store without records. -/
theorem onDisk_header (metric : Metric) (dimension : Dimension) :
    OnDisk metric dimension .empty []
      { catalog := some (emptyCatalog metric dimension)
        segment := some (Segment.headerOf metric dimension) } where
  catalog := rfl
  segment := by simp [layout, Segment.headerOf]
  dims e he := by simp at he
  fits := by
    rw [length_layout _ _ (by intro r hr; simp at hr), Ledger.empty, List.map_nil,
      List.length_nil, List.length_nil, Nat.zero_mul]
    decide

theorem opensEmpty_header : OpensEmpty metric dimension
    { catalog := some (emptyCatalog metric dimension)
      segment := some (Segment.headerOf metric dimension) } := by
  obtain ⟨index, w, hopen, hrep⟩ := openAt_onDisk (onDisk_header metric dimension)
  exact opensEmpty_of_rep hopen hrep

/-- An opening that ends in an error. -/
theorem not_opensEmpty {disk disk' : FlatDisk} {e : StorageError}
    {marks : List (Mark StorageError FlatDisk)}
    (h : Traces (openAt metric dimension) disk marks (.err e) disk') :
    ¬ OpensEmpty metric dimension disk := by
  rintro ⟨index, w, hopen, -⟩
  have herr := h.undisturbed.1
  rw [hopen] at herr
  simp at herr

/-- A catalog file without its manifest cannot be opened. -/
theorem not_opensEmpty_fresh :
    ¬ OpensEmpty metric dimension { catalog := some .fresh, segment := none } :=
  not_opensEmpty (traces_openAt_fresh metric dimension none)

/-- Without a whole segment header the directory cannot be opened either. -/
theorem not_opensEmpty_segment {segment : File} {e : StorageError}
    (h : Traces (Segment.openAt metric dimension.get 0) segment [] (.err e) segment) :
    ¬ OpensEmpty metric dimension
      { catalog := some (emptyCatalog metric dimension), segment := segment } :=
  not_opensEmpty (traces_openAt_stored_err (n := 0) rfl h)

/-- **When a first opening can be made good.**  Wherever the first opening
    is stopped, by a crash or by an error, the next one gives an empty store
    that works if and only if the catalog file had not been made, or the
    whole header of the segment file had been written. -/
theorem creation_retried (metric : Metric) (dimension : Dimension) (n : Nat) (how : Stop) :
    OpensEmpty metric dimension
        (openAt metric dimension (World.start empty (.stop n how))).2.state ↔
      n < 2 ∨ 4 + headerLen ≤ n := by
  have hlen := Segment.length_headerOf metric dimension
  have hheader : headerLen = 32 := rfl
  rw [state_creation, creationDisk]
  by_cases hearly : n < 2
  · rw [if_pos hearly]
    exact iff_of_true opensEmpty_empty (Or.inl hearly)
  · rw [if_neg hearly]
    by_cases hfresh : n = 2
    · rw [if_pos hfresh]
      exact iff_of_false not_opensEmpty_fresh (by omega)
    · rw [if_neg hfresh]
      by_cases hmissing : n = 3
      · rw [if_pos hmissing]
        exact iff_of_false (not_opensEmpty_segment (Segment.traces_openAt_missing _ _ _)) (by omega)
      · rw [if_neg hmissing]
        rcases Nat.lt_or_ge n (4 + headerLen) with htorn | hwhole
        · have hshort : ((Segment.headerOf metric dimension).take (n - 4)).length < headerLen := by
            rw [List.length_take]
            omega
          exact iff_of_false (not_opensEmpty_segment (Segment.traces_openAt_torn _ _ _ hshort)) (by omega)
        · rw [List.take_of_length_le (by omega)]
          exact iff_of_true opensEmpty_header (Or.inr hwhole)

/-- A crash right after the manifest is committed. -/
theorem not_creation_retried : ¬ OpensEmpty .cosine .one
    (openAt .cosine .one (World.start empty (.stop 3 .crash))).2.state := by
  rw [state_creation]
  exact not_opensEmpty_segment (Segment.traces_openAt_missing _ _ _)

end FlatDisk

end EidosDB
