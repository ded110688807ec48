import EidosDB.Server.Reload
import EidosDB.Server.Races

/-! # Creations that Fail

    A `create` that is refused by its checks, or that cannot make its
    directory, changes nothing.  Once it has begun to write the metadata it
    leaves what it has written, and a registry that is opened later takes the
    directory for a collection. -/

namespace EidosDB

open Bytes Effect Registry

/-! ## Writing a file -/

section writing

variable {σ τ : Type} {m : Effect ServerError σ Unit} {s : σ} {bytes : List Byte}
  {put : List Byte → σ}

/-- The program makes or empties a file and writes the bytes; `put` is the
    state in which the file holds so many of them. -/
def WritesOut (m : Effect ServerError σ Unit) (s : σ) (bytes : List Byte)
    (put : List Byte → σ) : Prop :=
  ∃ first marks, first.state = s ∧ marks.length = bytes.length ∧
    (∀ (n : Nat) mark, marks[n]? = some mark → mark.state = put (bytes.take n)) ∧
    Traces m s (first :: marks) (.ok ()) (put bytes)

theorem writesOut_zoom {read : τ → σ} {write : σ → τ → τ} {t : τ}
    (h : WritesOut m (read t) bytes put) (hsame : write (read t) t = t) :
    WritesOut (zoom read write m) t bytes fun written => write (put written) t := by
  obtain ⟨first, marks, hfirst, hlen, hmarks, htrace⟩ := h
  refine ⟨_, _, ?_, ?_, ?_, traces_zoom read write t htrace⟩
  · rw [Mark.zoom_state, hfirst, hsame]
  · exact (List.length_map _).trans hlen
  · intro n mark hmark
    rw [List.getElem?_map] at hmark
    obtain ⟨inner, hinner, rfl⟩ := Option.map_eq_some_iff.mp hmark
    rw [Mark.zoom_state, hmarks n inner hinner]

theorem writesOut_get {f : σ → Effect ServerError σ Unit} (h : WritesOut (f s) s bytes put) :
    WritesOut (get >>= f) s bytes put := by
  obtain ⟨first, marks, hfirst, hlen, hmarks, htrace⟩ := h
  exact ⟨first, marks, hfirst, hlen, hmarks, traces_next (traces_get s) htrace⟩

/-- Wherever the writing is stopped, the file is a beginning of the text. -/
theorem traces_writeBytes (bytes : List Byte) : ∀ written : List Byte,
    ∃ marks, marks.length = bytes.length ∧
      (∀ (n : Nat) mark, marks[n]? = some mark → mark.state = some (written ++ bytes.take n)) ∧
      Traces (CollectionDir.writeBytes bytes) (some written) marks (.ok ())
        (some (written ++ bytes)) := by
  induction bytes with
  | nil =>
    intro written
    refine ⟨[], rfl, fun n mark hmark => ?_, ?_⟩
    · cases hmark
    · rw [List.append_nil]
      exact traces_pure () _
  | cons b bytes ih =>
    intro written
    obtain ⟨marks, hlen, hmarks, htrace⟩ := ih (written ++ [b])
    refine ⟨⟨some written, IoError.other.toServerError⟩ :: marks, congrArg (· + 1) hlen, ?_, ?_⟩
    · intro n mark hmark
      cases n with
      | zero =>
        cases hmark
        rw [List.take_zero, List.append_nil]
      | succ n =>
        rw [hmarks n mark hmark, List.take_succ_cons, List.append_assoc]
        rfl
    · rw [List.append_cons written b bytes]
      exact traces_bind (traces_durable _ _ _) htrace

theorem writesOut_writeMeta (codecs : ServerCodecs) (metadata : CollectionMeta)
    (dir : CollectionDir) :
    WritesOut (CollectionDir.writeMeta codecs metadata) dir (codecs.metadata.encode metadata)
      fun written => { dir with metaFile := some written } := by
  obtain ⟨marks, hlen, hmarks, htrace⟩ := traces_writeBytes (codecs.metadata.encode metadata) []
  -- one step makes or empties the file, and one writes each byte
  unfold CollectionDir.writeMeta CollectionDir.onMetaFile
  have hfile : WritesOut (do
      durable IoError.other.toServerError (fun _ => some [])
      CollectionDir.writeBytes (codecs.metadata.encode metadata))
      dir.metaFile (codecs.metadata.encode metadata) some :=
    ⟨⟨dir.metaFile, IoError.other.toServerError⟩, marks, rfl, hlen, hmarks,
      traces_bind (traces_durable _ _ _) htrace⟩
  exact writesOut_zoom hfile rfl

end writing

namespace FileSystem

variable {path : Path} {dir : CollectionDir} {self : FileSystem}

theorem putDir_of_get (h : self.dirs.get path = some dir) : self.putDir path dir = self := by
  have hdirs : (self.putDir path dir).dirs = self.dirs := by
    apply OrderedTable.ext_get
    intro other
    rw [get_putDir]
    split
    · next heq => rw [heq, h]
    · rfl
  exact congrArg FileSystem.mk hdirs

theorem writesOut_writeMeta (codecs : ServerCodecs) (metadata : CollectionMeta)
    (h : self.dirs.get path = some dir) :
    WritesOut (writeMeta codecs path metadata) self (codecs.metadata.encode metadata)
      fun written => self.putDir path { dir with metaFile := some written } := by
  have hat := dirAt_of_get h
  unfold writeMeta
  apply writesOut_get
  rw [h, if_neg (by simp)]
  apply writesOut_zoom
  · rw [hat]
    exact EidosDB.writesOut_writeMeta codecs metadata dir
  · rw [hat, putDir_of_get h]

end FileSystem

/-! ## The first steps -/

namespace Registry

variable {codecs : ServerCodecs} {metadata : CollectionMeta} {s : OpenRegistry}

/-- The steps of `create` before the stores are opened. -/
def prepare (codecs : ServerCodecs) (metadata : CollectionMeta) :
    Effect ServerError OpenRegistry Unit := do
  checkNew metadata
  makeDir metadata
  persistMeta codecs metadata

/-- The steps from there on. -/
def finish (codecs : ServerCodecs) (metadata : CollectionMeta) :
    Effect ServerError OpenRegistry Unit := do
  let kind ← instantiate codecs metadata
  register metadata kind

theorem create_eq (codecs : ServerCodecs) (metadata : CollectionMeta) :
    create codecs metadata = prepare codecs metadata >>= fun _ => finish codecs metadata := by
  unfold create prepare finish
  simp only [bind_bind]

/-- What is there when `n` durable steps have happened: the directory is made,
    the file is made or emptied, and then its bytes are written. -/
def begun (codecs : ServerCodecs) (metadata : CollectionMeta) (s : OpenRegistry) :
    Nat → OpenRegistry
  | 0 => s
  | 1 => s.mkdirs (s.dirOf metadata.name)
  | n + 2 => (s.mkdirs (s.dirOf metadata.name)).putDir (s.dirOf metadata.name)
      { s.disk.dirAt (s.dirOf metadata.name) with
        metaFile := some ((codecs.metadata.encode metadata).take n) }

theorem begun_all : begun codecs metadata s ((codecs.metadata.encode metadata).length + 2) =
    (s.mkdirs (s.dirOf metadata.name)).putDir (s.dirOf metadata.name)
      { s.disk.dirAt (s.dirOf metadata.name) with
        metaFile := some (codecs.metadata.encode metadata) } := by
  rw [begun, List.take_length]

theorem traces_checkNew (hnew : ¬ Refused s metadata) :
    Traces (checkNew metadata) s [] (.ok ()) s := by
  apply traces_of_eq
  intro plan c
  have hends := ends_checkNew metadata ⟨s, plan, c⟩
  unfold ends at hends
  cases hrun : checkNew metadata ⟨s, plan, c⟩ with
  | mk o w =>
    rw [hrun] at hends
    cases o with
    | ok a => rw [hends.1]
    | err e => exact absurd hends.2.1 hnew
    | crashed => exact absurd hends.2.1 hnew
    | panicked => exact absurd hends.2.1 hnew

theorem traces_makeDir (metadata : CollectionMeta) (s : OpenRegistry) :
    Traces (makeDir metadata) s [⟨s, IoError.other.toServerError⟩] (.ok ())
      (s.mkdirs (s.dirOf metadata.name)) := by
  unfold makeDir onDisk FileSystem.createDirAll
  exact traces_next (traces_get s) (traces_zoom OpenRegistry.disk _ s (traces_durable _ _ _))

theorem writesOut_persistMeta (codecs : ServerCodecs) (metadata : CollectionMeta)
    {dir : CollectionDir} (h : s.disk.dirs.get (s.dirOf metadata.name) = some dir) :
    WritesOut (persistMeta codecs metadata) s (codecs.metadata.encode metadata)
      fun written => s.putDir (s.dirOf metadata.name) { dir with metaFile := some written } := by
  unfold persistMeta onDisk
  apply writesOut_get
  exact writesOut_zoom (FileSystem.writesOut_writeMeta codecs metadata h) rfl

/-- Wherever a call that is not refused is stopped before it opens the stores,
    it leaves what it has begun. -/
theorem traces_prepare (hnew : ¬ Refused s metadata) : ∃ marks,
    marks.length = (codecs.metadata.encode metadata).length + 2 ∧
    (∀ (n : Nat) mark, marks[n]? = some mark → mark.state = begun codecs metadata s n) ∧
    Traces (prepare codecs metadata) s marks (.ok ())
      (begun codecs metadata s ((codecs.metadata.encode metadata).length + 2)) := by
  obtain ⟨first, marks, hfirst, hlen, hmarks, htrace⟩ := writesOut_persistMeta codecs metadata
    (s := s.mkdirs (s.dirOf metadata.name)) FileSystem.get_mkdirs_self
  refine ⟨⟨s, IoError.other.toServerError⟩ :: first :: marks, ?_, ?_, ?_⟩
  · rw [List.length_cons, List.length_cons, hlen]
  · intro n mark hmark
    rcases n with _ | _ | n
    · cases hmark
      rfl
    · cases hmark
      exact hfirst
    · exact hmarks n mark hmark
  · rw [begun_all]
    exact traces_next (traces_checkNew hnew) (traces_bind (traces_makeDir metadata s) htrace)

/-- The later steps leave the metadata alone. -/
theorem ends_finish (codecs : ServerCodecs) (metadata : CollectionMeta)
    (w : World OpenRegistry) :
    ends (finish codecs metadata) (fun _ _ => True)
      (fun _ w' => (w'.state.disk.dirAt (w.state.dirOf metadata.name)).metaFile =
        (w.state.disk.dirAt (w.state.dirOf metadata.name)).metaFile) w := by
  unfold finish
  rw [ends_bind]
  apply ends_mono (ends_instantiate codecs metadata w rfl)
  · -- the handle of a poisoned map is dropped, which changes no file
    rintro kind w' ⟨dir, hw', hholds, -⟩
    have hdir : w'.state.dirOf metadata.name = w.state.dirOf metadata.name := by
      rw [hw']
      rfl
    have hfile : (w'.state.disk.dirAt (w.state.dirOf metadata.name)).metaFile =
        (w.state.disk.dirAt (w.state.dirOf metadata.name)).metaFile := by
      rw [hw']
      exact (congrArg CollectionDir.metaFile FileSystem.dirAt_putDir).trans hholds.2.2.1
    apply ends_mono (ends_register metadata kind w')
    · exact fun _ _ _ => trivial
    · rintro _ w'' ⟨-, hdisk⟩
      rw [hdisk, hdir, FileSystem.dirAt_letGo]
      exact hfile
  · rintro _ w' (hw' | ⟨dir, hw', hframe⟩)
    · rw [hw']
    · rw [hw']
      exact (congrArg CollectionDir.metaFile FileSystem.dirAt_putDir).trans hframe.1

/-! ## Failures -/

/-- The state in which a call that is not refused is stopped early. -/
theorem create_stopped (hnew : ¬ Refused s metadata) {n : Nat}
    (hn : n < (codecs.metadata.encode metadata).length + 2) : ∃ e w,
    create codecs metadata (.start s (.stop n .fail)) = (.err e, w) ∧
      w.state = begun codecs metadata s n := by
  obtain ⟨marks, hlen, hmarks, htrace⟩ := @traces_prepare codecs metadata s hnew
  obtain ⟨mark, hmark⟩ : ∃ mark, marks[n]? = some mark :=
    ⟨_, List.getElem?_eq_getElem (hlen ▸ hn)⟩
  obtain ⟨hend, hstate⟩ := htrace.bind_stopped (fun _ => finish codecs metadata) hmark .fail
  rw [← create_eq] at hend hstate
  exact ⟨_, _, Prod.ext hend rfl, hstate.trans (hmarks n mark hmark)⟩

/-- A call that fails was stopped early, or its metadata is on disk. -/
theorem create_failed (hnew : ¬ Refused s metadata) {plan : Plan} {e : ServerError}
    {w : World OpenRegistry} (herr : create codecs metadata (.start s plan) = (.err e, w)) :
    (∃ n, n < (codecs.metadata.encode metadata).length + 2 ∧ plan = .stop n .fail ∧
      w.state = begun codecs metadata s n) ∨
    (w.state.disk.dirAt (s.dirOf metadata.name)).metaFile =
      some (codecs.metadata.encode metadata) := by
  obtain ⟨marks, hlen, hmarks, htrace⟩ := @traces_prepare codecs metadata s hnew
  rw [create_eq] at herr
  rcases htrace.bind_failed herr with ⟨n, mark, hplan, hmark, hstate⟩ | ⟨w₁, hw₁, hrun⟩
  · -- the plan has stopped the call at one of its first steps
    have hn := (List.getElem?_eq_some_iff.mp hmark).1
    exact Or.inl ⟨n, hlen ▸ hn, hplan, hstate.trans (hmarks n mark hmark)⟩
  · have hends := ends_finish codecs metadata w₁
    unfold ends at hends
    rw [hrun] at hends
    rw [hw₁, begun_all] at hends
    exact Or.inr (hends.trans (congrArg CollectionDir.metaFile FileSystem.dirAt_putDir))

/-- A refused call changes nothing. -/
theorem create_refused (hrefused : Refused s metadata) {plan : Plan} {e : ServerError}
    {w : World OpenRegistry} (herr : create codecs metadata (.start s plan) = (.err e, w)) :
    w.state = s := by
  have hends : ends (create codecs metadata) (fun _ _ => True) (fun _ w' => w'.state = s)
      (.start s plan) := by
    unfold create
    rw [ends_bind]
    apply ends_mono (ends_checkNew metadata (.start s plan))
    · exact fun _ _ h => absurd hrefused h.2
    · rintro _ w' ⟨rfl, -⟩
      rfl
  unfold ends at hends
  rw [herr] at hends
  exact hends

/-- The directory of the name is there, and what is above it. -/
def DirThere (s : OpenRegistry) (name : String) : Prop :=
  ∀ path, path <+: s.dirOf name → (s.disk.dirs.get path).isSome = true

/-- What has been there before the `n`-th durable step of the call fails is
    what is there afterwards. -/
def Untouched (codecs : ServerCodecs) (metadata : CollectionMeta) (s : OpenRegistry) : Nat → Prop
  | 0 => True
  | 1 => DirThere s metadata.name
  | n + 2 => n < (codecs.metadata.encode metadata).length ∧ DirThere s metadata.name ∧
      (s.disk.dirAt (s.dirOf metadata.name)).metaFile =
        some ((codecs.metadata.encode metadata).take n)

section same

/-- Making the directory changes nothing if it is there. -/
theorem same_mkdirs_iff (s : OpenRegistry) (name : String) :
    (∀ path, (s.mkdirs (s.dirOf name)).disk.dirs.get path = s.disk.dirs.get path) ↔
      DirThere s name := by
  constructor
  · intro hsame path hpath
    have hget : (s.mkdirs (s.dirOf name)).disk.dirs.get path = some (s.disk.dirAt path) :=
      FileSystem.get_mkdirs.trans (if_pos hpath)
    rw [← hsame path, hget]
    rfl
  · intro hthere path
    apply FileSystem.get_mkdirs.trans
    split
    · next hpath =>
      obtain ⟨dir, hdir⟩ := Option.isSome_iff_exists.mp (hthere path hpath)
      rw [hdir, FileSystem.dirAt_of_get hdir]
    · rfl

/-- Writing a file changes nothing if it has these bytes. -/
theorem same_putDir_iff (s : OpenRegistry) (name : String) (file : File) :
    (∀ path, ((s.mkdirs (s.dirOf name)).putDir (s.dirOf name)
      { s.disk.dirAt (s.dirOf name) with metaFile := file }).disk.dirs.get path =
        s.disk.dirs.get path) ↔
      DirThere s name ∧ (s.disk.dirAt (s.dirOf name)).metaFile = file := by
  -- one directory is put, the others are those of `mkdirs`
  have hget : ∀ path, ((s.mkdirs (s.dirOf name)).putDir (s.dirOf name)
      { s.disk.dirAt (s.dirOf name) with metaFile := file }).disk.dirs.get path =
        if path = s.dirOf name then some { s.disk.dirAt (s.dirOf name) with metaFile := file }
        else (s.mkdirs (s.dirOf name)).disk.dirs.get path := fun _ => FileSystem.get_putDir
  constructor
  · intro hsame
    have hhere := (hget (s.dirOf name)).symm.trans (hsame (s.dirOf name))
    rw [if_pos rfl] at hhere
    refine ⟨?_, ?_⟩
    · rw [← same_mkdirs_iff]
      intro path
      have hpath := (hget path).symm.trans (hsame path)
      split at hpath
      · next heq =>
        have hself : (s.mkdirs (s.dirOf name)).disk.dirs.get (s.dirOf name) = some _ :=
          FileSystem.get_mkdirs_self
        rw [heq, hself, ← hhere, FileSystem.dirAt_of_get hhere.symm]
      · exact hpath
    · rw [FileSystem.dirAt_of_get hhere.symm]
  · rintro ⟨hthere, rfl⟩ path
    rw [hget]
    split
    · next heq =>
      rw [heq, ← (same_mkdirs_iff s name).mpr hthere]
      exact FileSystem.get_mkdirs_self.symm
    · exact (same_mkdirs_iff s name).mpr hthere path

theorem same_begun_iff {n : Nat} (hn : n < (codecs.metadata.encode metadata).length + 2) :
    (∀ path, (begun codecs metadata s n).disk.dirs.get path = s.disk.dirs.get path) ↔
      Untouched codecs metadata s n := by
  rcases n with _ | _ | n
  · exact iff_of_true (fun _ => rfl) trivial
  · exact same_mkdirs_iff s metadata.name
  · apply (same_putDir_iff s metadata.name _).trans
    have hlt : n < (codecs.metadata.encode metadata).length := by omega
    exact (and_iff_right hlt).symm

end same

/-- The call is refused by its checks, or stopped where nothing has changed. -/
def Spotless (codecs : ServerCodecs) (metadata : CollectionMeta) (s : OpenRegistry)
    (plan : Plan) : Prop :=
  Refused s metadata ∨ ∃ n, plan = .stop n .fail ∧ Untouched codecs metadata s n

theorem lt_of_untouched {n : Nat} (h : Untouched codecs metadata s n) :
    n < (codecs.metadata.encode metadata).length + 2 := by
  rcases n with _ | _ | n
  · omega
  · omega
  · exact Nat.add_lt_add_right h.1 2

end Registry

/-- A `create` that fails leaves the files as they were if it is refused or
    stopped before it changes anything, and, where its metadata was not on
    disk before, only then. -/
theorem failed_create (codecs : ServerCodecs) (metadata : CollectionMeta) (s : OpenRegistry)
    (plan : Plan) (e : ServerError) (w : World OpenRegistry)
    (herr : Registry.create codecs metadata (.start s plan) = (.err e, w)) :
    (Spotless codecs metadata s plan →
      ∀ path, w.state.disk.dirs.get path = s.disk.dirs.get path) ∧
    ((s.disk.dirAt (s.dirOf metadata.name)).metaFile ≠ some (codecs.metadata.encode metadata) →
      (∀ path, w.state.disk.dirs.get path = s.disk.dirs.get path) →
        Spotless codecs metadata s plan) := by
  by_cases hrefused : Refused s metadata
  · rw [create_refused hrefused herr]
    exact ⟨fun _ _ => rfl, fun _ _ => Or.inl hrefused⟩
  · constructor
    · rintro (hrefused' | ⟨n, rfl, huntouched⟩)
      · exact absurd hrefused' hrefused
      · have hn := lt_of_untouched huntouched
        obtain ⟨e', w', hrun, hstate⟩ := create_stopped hrefused hn
        obtain ⟨-, rfl⟩ := Prod.mk.inj (hrun.symm.trans herr)
        rw [hstate]
        exact (same_begun_iff hn).mpr huntouched
    · intro hmeta hsame
      rcases create_failed hrefused herr with ⟨n, hn, hplan, hstate⟩ | hwritten
      · rw [hstate] at hsame
        exact Or.inr ⟨n, hplan, (same_begun_iff hn).mp hsame⟩
      · -- what the call has written is still there
        unfold FileSystem.dirAt at hwritten hmeta
        rw [hsame] at hwritten
        exact absurd hwritten hmeta

/-- The directory cannot be made. -/
theorem failed_create_notes : ∃ e w,
    Registry.create .notes (notesMeta .cosine)
      (.start (OpenRegistry.fresh ["data"]) (.stop 0 .fail)) = (.err e, w) ∧
    ∀ path, w.state.disk.dirs.get path = (OpenRegistry.fresh ["data"]).disk.dirs.get path := by
  obtain ⟨e, w, hrun, -⟩ := @create_stopped .notes (notesMeta .cosine)
    (OpenRegistry.fresh ["data"]) (not_refused_notes .cosine) 0 (Nat.succ_pos _)
  have hboth := failed_create .notes (notesMeta .cosine) (OpenRegistry.fresh ["data"])
    (.stop 0 .fail) e w hrun
  exact ⟨e, w, hrun, hboth.1 (Or.inr ⟨0, rfl, trivial⟩)⟩

/-! ## What is found afterwards -/

section found

variable {codecs : ServerCodecs} {metadata : CollectionMeta}

/-- The directory of the index cannot be made. -/
theorem finish_stopped {w : World OpenRegistry} (h : w.plan = .stop 0 .fail) :
    ∃ e w', finish codecs metadata w = (.err e, w') ∧ w'.state = w.state := by
  obtain ⟨s, plan, c⟩ := w
  cases h
  exact ⟨_, _, rfl, rfl⟩

/-- The first failure after the metadata has been written. -/
theorem create_stopped_late {s : OpenRegistry} (hnew : ¬ Refused s metadata) : ∃ e w,
    Registry.create codecs metadata
      (.start s (.stop ((codecs.metadata.encode metadata).length + 2) .fail)) = (.err e, w) ∧
    w.state = begun codecs metadata s ((codecs.metadata.encode metadata).length + 2) := by
  obtain ⟨marks, hlen, -, htrace⟩ := @traces_prepare codecs metadata s hnew
  obtain ⟨w₁, hw₁, hplan, hrun⟩ :=
    htrace.bind_past (fun _ => finish codecs metadata) (le_of_eq hlen) .fail
  rw [hlen, Nat.sub_self] at hplan
  obtain ⟨e, w, hfinish, hw⟩ := @finish_stopped codecs metadata w₁ hplan
  refine ⟨e, w, ?_, hw.trans hw₁⟩
  rw [create_eq, hrun, hfinish]

/-- A collection is opened from the metadata and nothing else. -/
theorem finishes_openAt_bare {disk : FileSystem} {root : Path} {dir : CollectionDir}
    (hflat : metadata.indexType = .flat) (hroot : (disk.dirs.get root).isSome = true)
    (hdir : disk.dirs.get (root ++ [metadata.name]) = some dir)
    (honly : ∀ name, name ≠ metadata.name → disk.dirs.get (root ++ [name]) = none)
    (hbare : dir.Bare) (hfile : dir.metaFile = some (codecs.metadata.encode metadata))
    (order : HashOrder) : Finishes (openAt codecs root order) disk fun registry _ =>
      (registry.map.get metadata.name).map Handle.summary = some (metadata, .flat) := by
  have hreopen : Finishes (CollectionDir.reopen codecs metadata) dir
      fun kind _ => kind.indexType = metadata.indexType := by
    -- a flat index is opened as it is created
    have hsame : CollectionDir.reopen codecs metadata = CollectionDir.instantiate codecs metadata := by
      unfold CollectionDir.reopen CollectionDir.instantiate
      rw [hflat]
    rw [hsame]
    exact finishes_mono (CollectionDir.finishes_instantiate hbare) fun _ _ h => h.indexType
  have hmem : root ++ [metadata.name] ∈ children order root disk := by
    rw [mem_children, hdir]
    exact ⟨⟨_, rfl⟩, rfl⟩
  apply finishes_mono (finishes_openAt (fun _ => some (metadata, metadata.indexType)) hroot ?_)
  · intro registry _ hmap
    rw [hmap, if_pos hmem, hflat]
  · intro path hpath
    obtain ⟨⟨name, rfl⟩, hthere⟩ := mem_children.mp hpath
    have hname : name = metadata.name := by
      by_contra hne
      rw [honly name hne] at hthere
      cases hthere
    exact ⟨metadata, ⟨by rw [hname], dir, hname ▸ hdir, hfile, hreopen⟩, rfl⟩

/-- The directory is new. -/
theorem get_begun_ne (hvalid : isValidName metadata.name = true) (root : Path) :
    (begun codecs metadata (OpenRegistry.fresh root)
      ((codecs.metadata.encode metadata).length + 2)).disk.dirs.get (root ++ [metadata.name]) ≠
    (OpenRegistry.fresh root).disk.dirs.get (root ++ [metadata.name]) := by
  have hdir : (OpenRegistry.fresh root).dirOf metadata.name = root ++ [metadata.name] :=
    Path.join_of_isValidName root hvalid
  have hmissing : (OpenRegistry.fresh root).disk.dirs.get (root ++ [metadata.name]) = none :=
    (emptyRoot_fresh root).empty _ (List.prefix_append _ _) (by simp)
  rw [begun_all, hdir, hmissing]
  unfold OpenRegistry.putDir
  rw [FileSystem.get_putDir, if_pos rfl]
  exact Option.some_ne_none _

/-- What a call leaves that has written its metadata on an empty root, and has
    not opened the stores. -/
theorem finishes_openAt_begun (hflat : metadata.indexType = .flat)
    (hvalid : isValidName metadata.name = true) (root : Path) (order : HashOrder) :
    Finishes (openAt codecs root order)
      (begun codecs metadata (OpenRegistry.fresh root)
        ((codecs.metadata.encode metadata).length + 2)).disk.closed
      fun registry _ => (registry.map.get metadata.name).map Handle.summary =
        some (metadata, .flat) := by
  have hempty := emptyRoot_fresh root
  have hdir : (OpenRegistry.fresh root).dirOf metadata.name = root ++ [metadata.name] :=
    Path.join_of_isValidName root hvalid
  have hbelow : ∀ name, root ++ [name] ≠ root := fun name h => by simp at h
  have hroot : root ≠ root ++ [metadata.name] := (hbelow _).symm
  have hprefix : root <+: root ++ [metadata.name] := List.prefix_append _ _
  rw [begun_all, hdir, OpenRegistry.dirAt_fresh]
  unfold OpenRegistry.putDir OpenRegistry.mkdirs
  apply finishes_openAt_bare hflat
  · rw [FileSystem.get_closed, FileSystem.get_putDir, if_neg hroot, FileSystem.get_mkdirs,
      if_pos hprefix]
    rfl
  · rw [FileSystem.get_closed, FileSystem.get_putDir, if_pos rfl]
    rfl
  · intro name hne
    have hother : root ++ [name] ≠ root ++ [metadata.name] := fun h => hne (by simpa using h)
    have hnot : ¬ root ++ [name] <+: root ++ [metadata.name] :=
      fun h => hne (Path.child_prefix_child h)
    rw [FileSystem.get_closed, FileSystem.get_putDir, if_neg hother, FileSystem.get_mkdirs,
      if_neg hnot, hempty.empty _ (List.prefix_append _ _) (hbelow name)]
    rfl
  · exact ⟨rfl, rfl, rfl, rfl⟩
  · rfl

end found

/-- The call fails, its directory is there afterwards, and the registry that is
    opened next has the collection. -/
theorem failed_create_found : ∃ e w,
    Registry.create .notes (notesMeta .cosine)
      (.start (OpenRegistry.fresh ["data"])
        (.stop ((ServerCodecs.notes.metadata.encode (notesMeta .cosine)).length + 2) .fail)) =
      (.err e, w) ∧
    w.state.disk.dirs.get ["data", "notes"] ≠
      (OpenRegistry.fresh ["data"]).disk.dirs.get ["data", "notes"] ∧
    ∀ order, ∃ registry disk',
      (openAt .notes ["data"] order).exec w.state.disk.closed = some (.ok registry, disk') ∧
      (registry.map.get "notes").map Handle.summary = some (notesMeta .cosine, .flat) := by
  obtain ⟨e, w, hrun, hstate⟩ := @create_stopped_late .notes (notesMeta .cosine)
    (OpenRegistry.fresh ["data"]) (not_refused_notes .cosine)
  refine ⟨e, w, hrun, ?_, fun order => ?_⟩
  · rw [hstate]
    exact get_begun_ne (isValidName_notes .cosine) ["data"]
  · rw [hstate]
    exact (finishes_openAt_begun rfl (isValidName_notes .cosine) ["data"] order).exec_ok

end EidosDB
