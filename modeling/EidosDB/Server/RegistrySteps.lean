import EidosDB.Server.Registry
import EidosDB.Server.Opening

/-! # The Steps of the Registry

    What each step of a call can do, however it ends, and what it does when
    nothing interrupts it.  A call works in the directory of its name and
    nowhere else; its last step changes the map. -/

namespace EidosDB

open Bytes Effect

/-! ## Directories -/

namespace FileSystem

variable {path other : Path} {self : FileSystem} {dir : CollectionDir}

@[simp] theorem get_putDir : (self.putDir path dir).dirs.get other =
    if other = path then some dir else self.dirs.get other := by
  unfold putDir
  split
  · next heq => rw [heq, OrderedTable.get_insert_self]
  · next hne => rw [OrderedTable.get_insert_ne _ _ hne]

theorem dirAt_of_get (h : self.dirs.get path = some dir) : self.dirAt path = dir := by
  unfold dirAt
  rw [h]
  rfl

@[simp] theorem dirAt_putDir : (self.putDir path dir).dirAt path = dir :=
  dirAt_of_get (by rw [get_putDir, if_pos rfl])

theorem dirAt_putDir_ne (h : other ≠ path) :
    (self.putDir path dir).dirAt other = self.dirAt other := by
  unfold dirAt
  rw [get_putDir, if_neg h]

theorem dirAt_of_none (h : self.dirs.get path = none) : self.dirAt path = .empty := by
  unfold dirAt
  rw [h]
  rfl

/-- What was missing is there, and has no files. -/
theorem get_foldl_addMissing (paths : List Path) (self : FileSystem) :
    (paths.foldl addMissing self).dirs.get other =
      if other ∈ paths then some (self.dirAt other) else self.dirs.get other := by
  have hadd : ∀ (self : FileSystem) path, (self.addMissing path).dirs.get other =
      if other = path then some (self.dirAt other) else self.dirs.get other := by
    intro self path
    unfold addMissing
    split
    · next hthere =>
      split
      · next heq =>
        obtain ⟨dir, hdir⟩ := Option.isSome_iff_exists.mp (heq ▸ hthere)
        rw [hdir, dirAt_of_get hdir]
      · rfl
    · next hmissing =>
      rw [get_putDir]
      split
      · next heq =>
        rw [dirAt_of_none (by simpa [heq] using hmissing)]
      · rfl
  induction paths generalizing self with
  | nil => rw [List.foldl_nil, if_neg List.not_mem_nil]
  | cons path paths ih =>
    have hsame : (self.addMissing path).dirAt other = self.dirAt other := by
      unfold dirAt
      rw [hadd]
      split
      · rw [dirAt, Option.getD_some]
      · rfl
    rw [List.foldl_cons, ih, hsame, hadd]
    -- a path that was added has the files it had, which may be none
    by_cases hhead : other = path <;> by_cases htail : other ∈ paths <;> simp [hhead, htail]

theorem get_mkdirs : (self.mkdirs path).dirs.get other =
    if other <+: path then some (self.dirAt other) else self.dirs.get other := by
  unfold mkdirs
  rw [get_foldl_addMissing]
  simp only [List.mem_inits]

@[simp] theorem dirAt_mkdirs : (self.mkdirs path).dirAt other = self.dirAt other := by
  unfold dirAt
  rw [get_mkdirs]
  split
  · rw [dirAt, Option.getD_some]
  · rfl

theorem get_mkdirs_self : (self.mkdirs path).dirs.get path = some (self.dirAt path) := by
  rw [get_mkdirs, if_pos (List.prefix_refl path)]

/-- Making a path again and putting directories there changes nothing else. -/
theorem get_filled {first dir : CollectionDir} (h : other ≠ path) :
    ((((self.mkdirs path).putDir path first).mkdirs path).putDir path dir).dirs.get other =
      (self.mkdirs path).dirs.get other := by
  rw [get_putDir, if_neg h, get_mkdirs]
  split
  · next hprefix => rw [dirAt_putDir_ne h, dirAt_mkdirs, get_mkdirs, if_pos hprefix]
  · rw [get_putDir, if_neg h]

theorem get_without : (self.without path).dirs.get other =
    if path <+: other then none else self.dirs.get other := by
  unfold without
  rw [OrderedTable.get_filter]
  by_cases hprefix : path <+: other
  · have hp : path.isPrefixOf other = true := List.isPrefixOf_iff_prefix.mpr hprefix
    rw [if_pos hprefix]
    cases self.dirs.get other <;> simp [hp]
  · have hp : path.isPrefixOf other = false :=
      Bool.eq_false_iff.mpr fun h => hprefix (List.isPrefixOf_iff_prefix.mp h)
    rw [if_neg hprefix]
    cases self.dirs.get other <;> simp [hp]

theorem get_letGo : (self.letGo path).dirs.get other =
    if other = path then (self.dirs.get other).map (.heldBy none) else self.dirs.get other := by
  unfold letGo
  split
  · next hmissing =>
    split
    · next heq => rw [heq, hmissing, Option.map_none]
    · rfl
  · next dir hdir =>
    rw [get_putDir]
    split
    · next heq => rw [heq, hdir, Option.map_some]
    · rfl

theorem dirAt_letGo : (self.letGo path).dirAt path = (self.dirAt path).heldBy none := by
  unfold dirAt
  rw [get_letGo, if_pos rfl]
  cases self.dirs.get path <;> rfl

theorem dirAt_letGo_ne (h : other ≠ path) :
    (self.letGo path).dirAt other = self.dirAt other := by
  unfold dirAt
  rw [get_letGo, if_neg h]

/-- Nothing is let go of in a directory that is missing. -/
theorem letGo_of_none (h : self.dirs.get path = none) : self.letGo path = self := by
  unfold letGo
  rw [h]

theorem get_closed : self.closed.dirs.get path = (self.dirs.get path).map (.heldBy none) :=
  self.dirs.get_mapValues _ path

end FileSystem

/-! ## Metadata -/

namespace CollectionDir

variable {codecs : ServerCodecs} {metadata : CollectionMeta}

theorem leads_writeBytes (bytes : List Byte) : ∀ written : List Byte,
    Leads (fun file => file = some written) (writeBytes bytes)
      fun _ file => file = some (written ++ bytes) := by
  induction bytes with
  | nil =>
    intro written
    rw [List.append_nil]
    exact leads_pure fun _ h => h
  | cons b bytes ih =>
    intro written
    refine leads_bind (fun _ file => file = some (written ++ [b])) (leads_durable ?_) fun _ => ?_
    · rintro _ rfl
      rfl
    · rw [List.append_cons written b bytes]
      exact ih _

theorem finishes_writeBytes (bytes : List Byte) : ∀ written : List Byte,
    Finishes (writeBytes bytes) (some written) fun _ file => file = some (written ++ bytes) := by
  induction bytes with
  | nil =>
    intro written
    rw [List.append_nil]
    exact finishes_pure rfl
  | cons b bytes ih =>
    intro written
    refine finishes_bind (fun _ file => file = some (written ++ [b])) (finishes_durable rfl) ?_
    rintro _ _ rfl
    rw [List.append_cons written b bytes]
    exact ih _

/-- Writing the metadata changes one file, in part if it is interrupted. -/
theorem ends_writeMeta (codecs : ServerCodecs) (metadata : CollectionMeta)
    (w : World CollectionDir) :
    ends (writeMeta codecs metadata)
      (fun _ w' => w'.state =
        { w.state with metaFile := some (codecs.metadata.encode metadata) })
      (fun _ w' => ∃ file, w'.state = { w.state with metaFile := file }) w := by
  unfold writeMeta onMetaFile
  rw [ends_zoom]
  have hwrite : Leads (fun _ => True) (do
      durable IoError.other.toServerError (fun _ => some [])
      writeBytes (codecs.metadata.encode metadata) : Effect ServerError File Unit)
      fun _ file => file = some (codecs.metadata.encode metadata) :=
    leads_bind (fun _ file => file = some []) (leads_durable fun _ _ => rfl) fun _ =>
      leads_writeBytes _ []
  apply ends_mono (hwrite ⟨w.state.metaFile, w.plan, w.commits⟩ trivial)
  · rintro _ w' hfile
    rw [hfile]
  · exact fun _ w' _ => ⟨w'.state, rfl⟩

theorem finishes_writeMeta (codecs : ServerCodecs) (metadata : CollectionMeta)
    (dir : CollectionDir) : Finishes (writeMeta codecs metadata) dir fun _ dir' =>
      dir' = { dir with metaFile := some (codecs.metadata.encode metadata) } := by
  unfold writeMeta onMetaFile
  apply finishes_zoom
  refine finishes_bind (fun _ file => file = some []) (finishes_durable rfl) ?_
  rintro _ _ rfl
  exact finishes_mono (finishes_writeBytes _ []) fun _ file hfile => by rw [hfile]; rfl

/-- What was written is read. -/
theorem readMeta_of_encode {dir : CollectionDir}
    (h : dir.metaFile = some (codecs.metadata.encode metadata)) :
    dir.readMeta codecs = .ok metadata := by
  unfold readMeta
  rw [h]
  dsimp only
  rw [codecs.metadata.decode_encode]
  rfl

theorem readMeta_of_none {dir : CollectionDir} (h : dir.metaFile = none) :
    dir.readMeta codecs ≠ .ok metadata := by
  intro hread
  unfold readMeta at hread
  rw [h] at hread
  cases hread

theorem readMeta_congr {dir dir' : CollectionDir} (h : dir'.metaFile = dir.metaFile) :
    dir'.readMeta codecs = dir.readMeta codecs := by
  unfold readMeta
  rw [h]

end CollectionDir

/-! ## Steps -/

namespace OpenRegistry

/-- A new registry on an empty root. -/
def fresh (root : Path) : OpenRegistry :=
  { disk := ({ dirs := .empty } : FileSystem).mkdirs root, registry := .new root }

/-- The directory of a name. -/
def dirOf (self : OpenRegistry) (name : String) : Path := self.registry.dirOf name

def mkdirs (path : Path) (self : OpenRegistry) : OpenRegistry :=
  { self with disk := self.disk.mkdirs path }

def putDir (path : Path) (dir : CollectionDir) (self : OpenRegistry) : OpenRegistry :=
  { self with disk := self.disk.putDir path dir }

theorem dirAt_fresh (root path : Path) : (fresh root).disk.dirAt path = .empty :=
  FileSystem.dirAt_mkdirs

/-- There is nothing in the directories of an empty root. -/
theorem bare_fresh (root path : Path) : ((fresh root).disk.dirAt path).Bare := by
  rw [dirAt_fresh]
  exact ⟨rfl, rfl, rfl, rfl⟩

end OpenRegistry

namespace Registry

variable {codecs : ServerCodecs} {metadata : CollectionMeta}

/-- What `create` refuses before it touches the disk. -/
def Refused (self : OpenRegistry) (metadata : CollectionMeta) : Prop :=
  isValidName metadata.name = false ∨ self.registry.poisoned = true ∨
    (self.registry.map.get metadata.name).isSome = true

theorem not_refused {s : OpenRegistry} (h : ¬ Refused s metadata) :
    s.registry.poisoned = false ∧ s.registry.map.get metadata.name = none := by
  constructor
  · exact Bool.eq_false_iff.mpr fun hpoisoned => h (Or.inr (Or.inl hpoisoned))
  · rw [← Option.not_isSome_iff_eq_none]
    exact fun hthere => h (Or.inr (Or.inr hthere))

/-- A new registry takes every valid name. -/
theorem not_refused_fresh {root : Path} (h : isValidName metadata.name = true) :
    ¬ Refused (OpenRegistry.fresh root) metadata := by
  rintro (hinvalid | hpoisoned | hthere)
  · rw [h] at hinvalid
    cases hinvalid
  · cases hpoisoned
  · cases hthere

theorem ends_checkNew (metadata : CollectionMeta) (w : World OpenRegistry) :
    ends (checkNew metadata) (fun _ w' => w' = w ∧ ¬ Refused w.state metadata)
      (fun r w' => w' = w ∧ Refused w.state metadata ∧ ∃ e, r = .err e) w := by
  unfold checkNew locked Refused
  split
  · next hvalid =>
    simp only [ends_bind, ends_get]
    split
    · next hpoisoned => exact ⟨rfl, Or.inr (Or.inl hpoisoned), _, rfl⟩
    · next hclean =>
      rw [ends_pure]
      split
      · next hthere => exact ⟨rfl, Or.inr (Or.inr hthere), _, rfl⟩
      · next hmissing =>
        refine ⟨rfl, ?_⟩
        rintro (hinvalid | hpoisoned | hthere)
        · rw [hvalid] at hinvalid
          cases hinvalid
        · exact hclean hpoisoned
        · exact hmissing hthere
  · next hinvalid => exact ⟨rfl, Or.inl (Bool.eq_false_iff.mpr hinvalid), _, rfl⟩

theorem ends_makeDir (metadata : CollectionMeta) (w : World OpenRegistry) :
    ends (makeDir metadata)
      (fun _ w' => w'.state = w.state.mkdirs (w.state.dirOf metadata.name))
      (fun _ w' => w'.state = w.state) w := by
  unfold makeDir onDisk FileSystem.createDirAll
  rw [ends_bind, ends_get, ends_zoom]
  apply ends_durable
  · exact fun _ _ => rfl
  · exact fun _ _ => rfl
  · exact fun _ _ => rfl

theorem ends_persistMeta (codecs : ServerCodecs) (metadata : CollectionMeta)
    (w : World OpenRegistry) :
    ends (persistMeta codecs metadata)
      (fun _ w' => ∃ dir, w.state.disk.dirs.get (w.state.dirOf metadata.name) = some dir ∧
        w'.state = w.state.putDir (w.state.dirOf metadata.name)
          { dir with metaFile := some (codecs.metadata.encode metadata) })
      (fun _ w' => w'.state = w.state ∨
        ∃ dir file, w.state.disk.dirs.get (w.state.dirOf metadata.name) = some dir ∧
          w'.state = w.state.putDir (w.state.dirOf metadata.name) { dir with metaFile := file })
      w := by
  unfold persistMeta onDisk FileSystem.writeMeta
  rw [ends_bind, ends_get, ends_zoom, ends_bind, ends_get]
  split
  · exact Or.inl rfl
  · next hthere =>
    -- the writing may stop anywhere, but it stays in the file
    obtain ⟨dir, hdir⟩ := Option.ne_none_iff_exists'.mp fun hnone =>
      hthere (Option.isNone_iff_eq_none.mpr hnone)
    have hat : w.state.disk.dirAt (w.state.dirOf metadata.name) = dir :=
      FileSystem.dirAt_of_get hdir
    unfold FileSystem.inDir
    rw [ends_zoom]
    apply ends_mono (CollectionDir.ends_writeMeta codecs metadata _)
    · intro _ w' hw'
      refine ⟨dir, hdir, ?_⟩
      rw [hw', ← hat]
      rfl
    · rintro _ w' ⟨file, hw'⟩
      refine Or.inr ⟨dir, file, hdir, ?_⟩
      rw [hw', ← hat]
      rfl

theorem ends_instantiate (codecs : ServerCodecs) (metadata : CollectionMeta)
    (w : World OpenRegistry) {D : Path} (hD : w.state.dirOf metadata.name = D) :
    ends (instantiate codecs metadata)
      (fun live w' => ∃ dir, w'.state = (w.state.mkdirs D).putDir D dir ∧
        CollectionDir.Holds (w.state.disk.dirAt D) metadata.indexType live dir ∧
        dir.There metadata.indexType)
      (fun _ w' => w'.state = w.state ∨ ∃ dir, w'.state = (w.state.mkdirs D).putDir D dir ∧
        CollectionDir.Frame (w.state.disk.dirAt D).metaFile (w.state.disk.dirAt D).holder dir)
      w := by
  subst hD
  unfold instantiate onDisk FileSystem.instantiate FileSystem.createDirAll
  rw [ends_bind, ends_get, ends_zoom, ends_bind]
  apply ends_durable
  · intro plan _
    unfold FileSystem.inDir
    rw [ends_zoom]
    have hends := ends_and (CollectionDir.ends_instantiate codecs metadata _)
      (CollectionDir.leads_instantiate codecs metadata
        ⟨(w.state.disk.mkdirs (w.state.dirOf metadata.name)).dirAt (w.state.dirOf metadata.name),
          plan, w.commits⟩ trivial)
    apply ends_mono hends
    · rintro live w' ⟨hholds, hthere⟩
      rw [FileSystem.dirAt_mkdirs] at hholds
      exact ⟨w'.state, rfl, hholds, hthere⟩
    · rintro _ w' ⟨hframe, -⟩
      rw [FileSystem.dirAt_mkdirs] at hframe
      exact Or.inr ⟨w'.state, rfl, hframe⟩
  · exact fun _ _ => Or.inl rfl
  · exact fun _ _ => Or.inl rfl

/-- The handle that `register` puts into the map. -/
def newHandle (self : OpenRegistry) (metadata : CollectionMeta) (kind : LiveKind) : Handle :=
  { kind := kind, metadata := metadata, dir := self.dirOf metadata.name }

/-- The map with the new handle in it. -/
def registered (self : OpenRegistry) (metadata : CollectionMeta) (kind : LiveKind) : Registry :=
  { self.registry with
    map := self.registry.map.insert metadata.name (newHandle self metadata kind) }

@[simp] theorem dropHandle_some (handle : Handle) (disk : FileSystem) :
    dropHandle (some handle) none disk = disk.letGo handle.dir := by
  unfold dropHandle
  exact if_neg (Option.some_ne_none _)

/-- The directory of the handle that is kept is left alone. -/
theorem get_dropHandle_kept (handle : Option Handle) (path : Path) (disk : FileSystem) :
    (dropHandle handle (some path) disk).dirs.get path = disk.dirs.get path := by
  unfold dropHandle
  split
  · rfl
  · split
    · rfl
    · next hother =>
      rw [FileSystem.get_letGo, if_neg fun h => hother (congrArg some h.symm)]

theorem ends_register (metadata : CollectionMeta) (kind : LiveKind) (w : World OpenRegistry) :
    ends (register metadata kind)
      (fun _ w' => w.state.registry.poisoned = false ∧
        w'.state.registry = registered w.state metadata kind ∧
        w'.state.disk.dirs.get (w.state.dirOf metadata.name) =
          w.state.disk.dirs.get (w.state.dirOf metadata.name))
      (fun _ w' => w'.state.registry = w.state.registry ∧
        w'.state.disk = w.state.disk.letGo (w.state.dirOf metadata.name)) w := by
  unfold register onDisk setMap
  rw [ends_bind, ends_get]
  dsimp only
  split
  · rw [ends_bind, ends_zoom, ends_modify, ends_throw]
    exact ⟨rfl, dropHandle_some _ _⟩
  · next hclean =>
    rw [ends_bind, ends_modify, ends_zoom, ends_modify]
    exact ⟨Bool.eq_false_iff.mpr hclean, rfl, get_dropHandle_kept _ _ _⟩

theorem ends_unregister (name : String) (w : World OpenRegistry) :
    ends (unregister name)
      (fun handle w' => handle = w.state.registry.map.get name ∧ w'.state =
        { w.state with registry :=
            { w.state.registry with map := w.state.registry.map.erase name } })
      (fun _ w' => w'.state = w.state) w := by
  unfold unregister locked setMap
  rw [ends_bind, ends_bind, ends_get]
  split
  · rw [ends_throw]
  · exact ⟨rfl, rfl⟩

/-- What is not below the path is as it was. -/
def Spares (path : Path) (before disk : FileSystem) : Prop :=
  ∀ other, ¬ path <+: other → disk.dirAt other = before.dirAt other

theorem keeps_removeDirAll {path : Path} {before : FileSystem} :
    Keeps (Spares path before) (FileSystem.removeDirAll path) := by
  unfold FileSystem.removeDirAll
  apply keeps_get
  intro disk _
  split
  · exact keeps_throw _
  · apply keeps_durable
    intro disk hspared other hother
    have hdir := hspared other hother
    unfold FileSystem.dirAt at hdir ⊢
    rwa [FileSystem.get_without, if_neg hother]

/-- What works on the disk leaves the map alone. -/
theorem keeps_onDisk {α : Type} {registry : Registry} {P : FileSystem → Prop}
    {m : Effect ServerError FileSystem α} (h : Keeps P m) :
    Keeps (fun s : OpenRegistry => s.registry = registry ∧ P s.disk) (onDisk m) := by
  apply keeps_zoom
  · rintro s ⟨hregistry, -⟩ w ⟨-, hw⟩
    exact ⟨hregistry, h w hw⟩
  · exact fun s hs => hs

/-- Removing a directory leaves the map and the directories that are not below
    it. -/
theorem keeps_removeDir {handle : Handle} {registry : Registry} {before : FileSystem} :
    Keeps (fun s : OpenRegistry => s.registry = registry ∧ Spares handle.dir before s.disk)
      (removeDir handle) := by
  have hdrop : Keeps (Spares handle.dir before)
      (modify (dropHandle (some handle) none) : Effect ServerError FileSystem Unit) := by
    apply keeps_modify
    intro disk hspared other hother
    -- what is not below the directory is not the directory itself
    have hne : other ≠ handle.dir := by
      rintro rfl
      exact hother (List.prefix_refl _)
    rw [dropHandle_some, FileSystem.dirAt_letGo_ne hne]
    exact hspared other hother
  unfold removeDir
  refine keeps_bind (keeps_attempt (keeps_onDisk keeps_removeDirAll)) fun removed => ?_
  exact keeps_bind (keeps_onDisk hdrop) fun _ => keeps_liftExcept _

/-! ## Undisturbed steps -/

section undisturbed

variable {s : OpenRegistry}

theorem finishes_checkNew (h : ¬ Refused s metadata) :
    Finishes (checkNew metadata) s fun _ s' => s' = s := by
  intro c
  have hends := ends_checkNew metadata ⟨s, .none, c⟩
  unfold ends at hends
  cases hrun : checkNew metadata ⟨s, .none, c⟩ with
  | mk o w' =>
    rw [hrun] at hends
    cases o with
    | ok a => exact ⟨a, s, c, by rw [hends.1], rfl⟩
    | err e => exact absurd hends.2.1 h
    | crashed => exact absurd hends.2.1 h
    | panicked => exact absurd hends.2.1 h

theorem fails_checkNew (h : Refused s metadata) :
    Fails (checkNew metadata) s fun s' => s' = s := by
  intro c
  have hends := ends_checkNew metadata ⟨s, .none, c⟩
  unfold ends at hends
  cases hrun : checkNew metadata ⟨s, .none, c⟩ with
  | mk o w' =>
    rw [hrun] at hends
    cases o with
    | ok a => exact absurd h hends.2
    | err e => exact ⟨e, s, c, by rw [hends.1], rfl⟩
    | crashed =>
      obtain ⟨-, -, e, he⟩ := hends
      cases he
    | panicked =>
      obtain ⟨-, -, e, he⟩ := hends
      cases he

theorem finishes_makeDir (metadata : CollectionMeta) (s : OpenRegistry) :
    Finishes (makeDir metadata) s fun _ s' => s' = s.mkdirs (s.dirOf metadata.name) := by
  unfold makeDir onDisk
  apply finishes_get
  apply finishes_zoom
  exact finishes_durable rfl

theorem finishes_persistMeta {dir : CollectionDir}
    (h : s.disk.dirs.get (s.dirOf metadata.name) = some dir) :
    Finishes (persistMeta codecs metadata) s fun _ s' => s' =
      s.putDir (s.dirOf metadata.name)
        { dir with metaFile := some (codecs.metadata.encode metadata) } := by
  unfold persistMeta onDisk FileSystem.writeMeta
  apply finishes_get
  apply finishes_zoom
  apply finishes_get
  have hget : s.disk.dirs.get (s.registry.dirOf metadata.name) = some dir := h
  rw [hget, if_neg (by simp)]
  apply finishes_zoom
  rw [FileSystem.dirAt_of_get hget]
  exact finishes_mono (CollectionDir.finishes_writeMeta codecs metadata dir)
    fun _ dir' hdir => by rw [hdir]; rfl

/-- Opening the stores in the directory of a name. -/
theorem finishes_instantiate_of {R : LiveKind → CollectionDir → Prop}
    (h : Finishes (CollectionDir.instantiate codecs metadata)
      (s.disk.dirAt (s.dirOf metadata.name)) R) :
    Finishes (instantiate codecs metadata) s fun live s' => ∃ dir,
      s' = (s.mkdirs (s.dirOf metadata.name)).putDir (s.dirOf metadata.name) dir ∧ R live dir := by
  unfold instantiate onDisk FileSystem.instantiate FileSystem.createDirAll
  apply finishes_get
  apply finishes_zoom
  refine finishes_bind (fun _ disk => disk = s.disk.mkdirs (s.dirOf metadata.name))
    (finishes_durable rfl) ?_
  rintro _ _ rfl
  apply finishes_zoom
  rw [FileSystem.dirAt_mkdirs]
  exact finishes_mono h fun live dir hdir => ⟨dir, rfl, hdir⟩

theorem finishes_instantiate (h : (s.disk.dirAt (s.dirOf metadata.name)).Bare) :
    Finishes (instantiate codecs metadata) s fun live s' => ∃ dir,
      s' = (s.mkdirs (s.dirOf metadata.name)).putDir (s.dirOf metadata.name) dir ∧
      dir.Serves codecs metadata live ∧
      dir.metaFile = (s.disk.dirAt (s.dirOf metadata.name)).metaFile := by
  apply finishes_instantiate_of
  apply finishes_mono ((CollectionDir.finishes_instantiate h).leads
    (CollectionDir.leads_instantiate_holds codecs metadata _))
  exact fun live dir hdir => ⟨hdir.1, hdir.2.2.2.1⟩

/-- A flat index that is open is not opened again. -/
theorem fails_instantiate (hflat : metadata.indexType = .flat)
    (hheld : (s.disk.dirAt (s.dirOf metadata.name)).holder = some .flat) :
    Fails (instantiate codecs metadata) s fun s' => s' =
      (s.mkdirs (s.dirOf metadata.name)).putDir (s.dirOf metadata.name)
        (s.disk.dirAt (s.dirOf metadata.name)) := by
  unfold instantiate onDisk FileSystem.instantiate FileSystem.createDirAll
  apply fails_get
  apply fails_zoom
  refine fails_then (fun _ disk => disk = s.disk.mkdirs (s.dirOf metadata.name))
    (finishes_durable rfl) ?_
  rintro _ _ rfl
  apply fails_zoom
  rw [FileSystem.dirAt_mkdirs]
  unfold CollectionDir.instantiate
  rw [hflat]
  apply fails_mono
    (CollectionDir.fails_openFlat codecs metadata.metric metadata.dimension hheld)
  rintro _ rfl
  rfl

theorem finishes_register (hclean : s.registry.poisoned = false)
    (hnew : s.registry.map.get metadata.name = none) (kind : LiveKind) :
    Finishes (register metadata kind) s fun _ s' =>
      s' = { s with registry := registered s metadata kind } := by
  unfold register onDisk setMap
  apply finishes_get
  dsimp only
  rw [if_neg (by rw [hclean]; decide), hnew]
  refine finishes_bind _ (finishes_modify (Q := fun _ s' => s' = _) rfl) ?_
  rintro _ _ rfl
  apply finishes_zoom
  exact finishes_modify rfl

/-- What a call leaves that has made a collection, of which `R` holds. -/
structure Made (R : LiveKind → CollectionDir → Prop) (metadata : CollectionMeta)
    (s : OpenRegistry) (kind : LiveKind) (dir : CollectionDir) (s' : OpenRegistry) : Prop where
  registry : s'.registry = registered s metadata kind
  here : s'.disk.dirs.get (s.dirOf metadata.name) = some dir
  elsewhere : ∀ path, path ≠ s.dirOf metadata.name →
    s'.disk.dirs.get path = (s.disk.mkdirs (s.dirOf metadata.name)).dirs.get path
  made : R kind dir

/-- The call makes what the stores make of a directory with the metadata. -/
theorem finishes_create_of {R : LiveKind → CollectionDir → Prop} (hnew : ¬ Refused s metadata)
    (h : Finishes (CollectionDir.instantiate codecs metadata)
      { s.disk.dirAt (s.dirOf metadata.name) with
        metaFile := some (codecs.metadata.encode metadata) } R) :
    Finishes (create codecs metadata) s fun _ s' =>
      ∃ kind dir, Made R metadata s kind dir s' := by
  obtain ⟨hclean, hmissing⟩ := not_refused hnew
  -- the five steps one after the other, each from what the last one left
  unfold create
  refine finishes_bind _ (finishes_checkNew hnew) ?_
  intro _ t ht
  rw [ht]
  refine finishes_bind _ (finishes_makeDir metadata s) ?_
  rintro _ _ rfl
  refine finishes_bind _ (@finishes_persistMeta codecs metadata
    (s.mkdirs (s.dirOf metadata.name)) _ FileSystem.get_mkdirs_self) ?_
  rintro _ _ rfl
  have hwritten : FileSystem.dirAt (s.dirOf metadata.name)
      ((s.mkdirs (s.dirOf metadata.name)).putDir (s.dirOf metadata.name)
        { s.disk.dirAt (s.dirOf metadata.name) with
          metaFile := some (codecs.metadata.encode metadata) }).disk =
      { s.disk.dirAt (s.dirOf metadata.name) with
        metaFile := some (codecs.metadata.encode metadata) } := FileSystem.dirAt_putDir
  refine finishes_bind (fun kind t => t.registry = s.registry ∧ ∃ dir,
    t.disk.dirs.get (s.dirOf metadata.name) = some dir ∧
    (∀ path, path ≠ s.dirOf metadata.name →
      t.disk.dirs.get path = (s.disk.mkdirs (s.dirOf metadata.name)).dirs.get path) ∧
    R kind dir) ?_ ?_
  · rw [← hwritten] at h
    apply finishes_mono (finishes_instantiate_of h)
    rintro kind _ ⟨dir, rfl, hmade⟩
    refine ⟨rfl, dir, ?_, ?_, hmade⟩
    · exact FileSystem.get_putDir.trans (if_pos rfl)
    · intro path hpath
      exact FileSystem.get_filled hpath
  · rintro kind t ⟨hregistry, dir, hhere, helse, hmade⟩
    apply finishes_mono (finishes_register (by rw [hregistry, hclean])
      (by rw [hregistry, hmissing]) kind)
    rintro _ _ rfl
    refine ⟨kind, dir, ⟨?_, hhere, helse, hmade⟩⟩
    unfold registered newHandle OpenRegistry.dirOf
    dsimp only
    rw [hregistry]

/-- What a call leaves that has made a collection. -/
structure Created (codecs : ServerCodecs) (metadata : CollectionMeta) (s : OpenRegistry)
    (kind : LiveKind) (dir : CollectionDir) (s' : OpenRegistry) : Prop where
  registry : s'.registry = registered s metadata kind
  here : s'.disk.dirs.get (s.dirOf metadata.name) = some dir
  elsewhere : ∀ path, path ≠ s.dirOf metadata.name →
    s'.disk.dirs.get path = (s.disk.mkdirs (s.dirOf metadata.name)).dirs.get path
  serves : dir.Serves codecs metadata kind
  metaFile : dir.metaFile = some (codecs.metadata.encode metadata)

/-- A collection can be made in a directory without stores. -/
theorem finishes_create (hnew : ¬ Refused s metadata)
    (hbare : (s.disk.dirAt (s.dirOf metadata.name)).Bare) :
    Finishes (create codecs metadata) s fun _ s' =>
      ∃ kind dir, Created codecs metadata s kind dir s' := by
  have hinstantiate := (@CollectionDir.finishes_instantiate codecs metadata
    { s.disk.dirAt (s.dirOf metadata.name) with
      metaFile := some (codecs.metadata.encode metadata) }
    ⟨hbare.flatDisk, hbare.hnswDisk, hbare.lexical, hbare.holder⟩).leads
    (CollectionDir.leads_instantiate_holds codecs metadata _)
  apply finishes_mono (finishes_create_of hnew hinstantiate)
  rintro _ s' ⟨kind, dir, hmade⟩
  exact ⟨kind, dir, hmade.registry, hmade.here, hmade.elsewhere, hmade.made.1, hmade.made.2.2.2.1⟩

theorem finishes_unregister (hclean : s.registry.poisoned = false) (name : String) :
    Finishes (unregister name) s fun handle s' => handle = s.registry.map.get name ∧ s' =
      { s with registry := { s.registry with map := s.registry.map.erase name } } := by
  unfold unregister locked setMap
  refine finishes_bind (fun registry s' => registry = s.registry ∧ s' = s) ?_ ?_
  · apply finishes_get
    rw [if_neg (by rw [hclean]; decide)]
    exact finishes_pure ⟨rfl, rfl⟩
  · rintro _ _ ⟨rfl, rfl⟩
    refine finishes_bind _ (finishes_modify (Q := fun _ s' => s' = _) rfl) ?_
    rintro _ _ rfl
    exact finishes_pure ⟨rfl, rfl⟩

theorem finishes_removeDir {handle : Handle}
    (h : (s.disk.dirs.get handle.dir).isSome = true) :
    Finishes (removeDir handle) s fun removed s' => removed = true ∧
      s' = { s with disk := s.disk.without handle.dir } := by
  unfold removeDir onDisk
  refine finishes_bind (fun removed s' => removed = .ok () ∧
    s' = { s with disk := s.disk.without handle.dir }) ?_ ?_
  · apply finishes_attempt
    apply finishes_zoom
    unfold FileSystem.removeDirAll
    apply finishes_get
    have hthere : ¬ (s.disk.dirs.get handle.dir).isNone = true := by
      rw [Option.isNone_iff_eq_none]
      exact Option.isSome_iff_ne_none.mp h
    rw [if_neg hthere]
    exact finishes_durable ⟨rfl, rfl⟩
  · rintro _ _ ⟨rfl, rfl⟩
    refine finishes_bind (fun _ s' => s' = { s with disk := s.disk.without handle.dir }) ?_ ?_
    · apply finishes_zoom
      apply finishes_modify
      -- nothing is left to let go of
      have hgone : (s.disk.without handle.dir).dirs.get handle.dir = none := by
        rw [FileSystem.get_without, if_pos (List.prefix_refl _)]
      rw [dropHandle_some, FileSystem.letGo_of_none hgone]
    · rintro _ _ rfl
      exact finishes_liftExcept rfl ⟨rfl, rfl⟩

end undisturbed

end Registry

end EidosDB
