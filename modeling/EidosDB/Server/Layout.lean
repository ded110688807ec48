import EidosDB.Server.RegistrySteps

/-! # The Layout of the Root

    The registry keeps a directory for each of its names.  In every state that
    calls without failures leave, the directories in the root are those of the
    registered names, and each is related to its handle; how, is a parameter
    here.  Opening the registry makes a handle of every directory in the
    root. -/

namespace EidosDB

open Effect Registry

/-! ## Names and paths -/

namespace Path

theorem ne_of_isValidName {name : String} (h : isValidName name = true) :
    name ≠ "" ∧ ∀ c ∈ name.toList, c ≠ '/' ∧ c ≠ '.' := by
  unfold isValidName at h
  rw [Bool.and_eq_true, Bool.and_eq_true, List.all_eq_true] at h
  obtain ⟨⟨hne, -⟩, hall⟩ := h
  refine ⟨?_, fun c hc => ?_⟩
  · rintro rfl
    exact absurd hne (by decide)
  · have hok := hall c hc
    constructor
    · rintro rfl
      exact absurd hok (by decide)
    · rintro rfl
      exact absurd hok (by decide)

/-- A valid name is that of a directory in the root. -/
theorem join_of_isValidName (root : Path) {name : String} (h : isValidName name = true) :
    root.join name = root ++ [name] := by
  obtain ⟨hne, hchars⟩ := ne_of_isValidName h
  have hsplit : name.toList.splitOn '/' = [name.toList] := by
    apply List.splitOnP_eq_singleton
    intro c hc
    simpa using (hchars c hc).1
  have hhead : name.toList.head? ≠ some '/' := by
    intro hhead
    exact (hchars '/' (List.mem_of_mem_head? hhead)).1 rfl
  have hdot : ∀ s : String, '.' ∈ s.toList → name ≠ s := by
    rintro s hs rfl
    exact (hchars '.' hs).2 rfl
  unfold join enter
  rw [hsplit, if_neg hhead]
  simp [hne, hdot "." (by decide), hdot ".." (by decide)]

/-- A path in the root is not above another one there. -/
theorem eq_of_prefix_child {root : Path} {name : String} {path : Path}
    (h : path <+: root ++ [name]) : path = root ++ [name] ∨ path <+: root := by
  rcases List.prefix_concat_iff.mp h with heq | hprefix
  · exact Or.inl heq
  · exact Or.inr hprefix

theorem child_prefix_child {root : Path} {name name' : String}
    (h : root ++ [name] <+: root ++ [name']) : name = name' := by
  rw [List.prefix_append_right_inj] at h
  simpa using h

end Path

/-! ## The invariant -/

/-- The root is there, and there is nothing in it. -/
structure EmptyRoot (root : Path) (disk : FileSystem) : Prop where
  there : ∀ path, path <+: root → (disk.dirs.get path).isSome = true
  empty : ∀ path, root <+: path → path ≠ root → disk.dirs.get path = none

/-- The path of a directory in the root that has a valid name. -/
def IsChild (root path : Path) : Prop := ∃ name, isValidName name = true ∧ path = root ++ [name]

theorem not_isChild_above {root path : Path} (h : path <+: root) : ¬ IsChild root path := by
  rintro ⟨name, -, rfl⟩
  have hlen := h.length_le
  rw [List.length_append, List.length_singleton] at hlen
  omega

/-- The directory of a registered handle, which `T` relates to it. -/
structure Housed (T : Handle → CollectionDir → Prop) (root : Path) (disk : FileSystem)
    (name : String) (handle : Handle) : Prop where
  valid : isValidName name = true
  named : handle.metadata.name = name
  placed : handle.dir = root ++ [name]
  here : ∃ dir, disk.dirs.get (root ++ [name]) = some dir ∧ T handle dir

/-- The directories in the root are those of the registered names, and nothing
    else has changed since `base`. -/
structure Laid (T : Handle → CollectionDir → Prop) (root : Path) (base : FileSystem)
    (s : OpenRegistry) : Prop where
  rooted : s.registry.root = root
  clean : s.registry.poisoned = false
  elsewhere : ∀ path, ¬ IsChild root path → s.disk.dirs.get path = base.dirs.get path
  missing : ∀ name, isValidName name = true → s.registry.map.get name = none →
    s.disk.dirs.get (root ++ [name]) = none
  stored : ∀ name handle, s.registry.map.get name = some handle →
    Housed T root s.disk name handle

section laid

variable {T T' : Handle → CollectionDir → Prop} {root : Path} {base : FileSystem}
  {s s' : OpenRegistry}

theorem laid_init (hroot : EmptyRoot root base) : Laid T root base ⟨base, .new root⟩ where
  rooted := rfl
  clean := rfl
  elsewhere _ _ := rfl
  missing name _ _ := hroot.empty _ (List.prefix_append _ _) (by simp)
  stored _ _ hget := nomatch hget

/-- A handle whose directory is not touched. -/
theorem Housed.congr {disk disk' : FileSystem} {name : String} {handle : Handle}
    (h : Housed T root disk name handle)
    (hget : disk'.dirs.get (root ++ [name]) = disk.dirs.get (root ++ [name]))
    (hT : ∀ dir, T handle dir → T' handle dir) : Housed T' root disk' name handle := by
  obtain ⟨dir, hdir, hhere⟩ := h.here
  exact ⟨h.valid, h.named, h.placed, dir, hget.trans hdir, hT dir hhere⟩

/-! ### Creating -/

/-- The directory of a name. -/
theorem Laid.dirOf (h : Laid T root base s) {name : String} (hvalid : isValidName name = true) :
    s.dirOf name = root ++ [name] := by
  unfold OpenRegistry.dirOf Registry.dirOf
  rw [h.rooted, Path.join_of_isValidName root hvalid]

/-- The directory of a free name is missing. -/
theorem Laid.dirAt_of_new (h : Laid T root base s) {name : String}
    (hvalid : isValidName name = true) (hnew : s.registry.map.get name = none) :
    s.disk.dirAt (s.dirOf name) = .empty :=
  FileSystem.dirAt_of_none (h.dirOf hvalid ▸ h.missing name hvalid hnew)

section made

variable {R : LiveKind → CollectionDir → Prop} {metadata : CollectionMeta} {kind : LiveKind}
  {dir : CollectionDir}

/-- A path other than that of the new collection. -/
theorem Laid.get_made (hroot : EmptyRoot root base) (h : Laid T root base s)
    (hvalid : isValidName metadata.name = true) (hmade : Made R metadata s kind dir s')
    {path : Path} (hpath : path ≠ root ++ [metadata.name]) :
    s'.disk.dirs.get path = s.disk.dirs.get path := by
  have hdir := h.dirOf hvalid
  rw [hmade.elsewhere path (hdir ▸ hpath), FileSystem.get_mkdirs, hdir]
  split
  · next hprefix =>
    -- what is above the directory is there
    have habove := (Path.eq_of_prefix_child hprefix).resolve_left hpath
    have hget := h.elsewhere path (not_isChild_above habove)
    obtain ⟨old, hold⟩ := Option.isSome_iff_exists.mp (hroot.there path habove)
    rw [hget, hold, FileSystem.dirAt_of_get (hget.trans hold)]
  · rfl

theorem Laid.made (hroot : EmptyRoot root base) (h : Laid T root base s)
    (hvalid : isValidName metadata.name = true) (hmade : Made R metadata s kind dir s')
    (hold : ∀ handle dir, handle.metadata.name ≠ metadata.name → T handle dir → T' handle dir)
    (hnew : R kind dir → T' (newHandle s metadata kind) dir) : Laid T' root base s' := by
  have hget : ∀ path, path ≠ root ++ [metadata.name] →
      s'.disk.dirs.get path = s.disk.dirs.get path :=
    fun path hpath => h.get_made hroot hvalid hmade hpath
  have hne : ∀ name, name ≠ metadata.name → root ++ [name] ≠ root ++ [metadata.name] :=
    fun name hname heq => hname (by simpa using heq)
  have hmap : ∀ name, name ≠ metadata.name →
      s'.registry.map.get name = s.registry.map.get name := by
    intro name hname
    rw [hmade.registry]
    exact OrderedTable.get_insert_ne _ _ hname
  refine
    { rooted := ?_
      clean := ?_
      elsewhere := ?_
      missing := ?_
      stored := ?_ }
  · rw [hmade.registry]
    exact h.rooted
  · rw [hmade.registry]
    exact h.clean
  · intro path hpath
    rw [hget path fun heq => hpath ⟨_, hvalid, heq⟩]
    exact h.elsewhere path hpath
  · intro name hname hnone
    by_cases heq : name = metadata.name
    · rw [heq, hmade.registry] at hnone
      exact absurd ((OrderedTable.get_insert_self _ _ _).symm.trans hnone) (by simp)
    · rw [hmap name heq] at hnone
      rw [hget _ (hne name heq)]
      exact h.missing name hname hnone
  · intro name handle hhandle
    by_cases heq : name = metadata.name
    · rw [heq, hmade.registry] at hhandle
      have hsame := Option.some.inj ((OrderedTable.get_insert_self _ _ _).symm.trans hhandle)
      rw [heq, ← hsame]
      refine ⟨hvalid, rfl, h.dirOf hvalid, dir, ?_, hnew hmade.made⟩
      rw [← h.dirOf hvalid]
      exact hmade.here
    · rw [hmap name heq] at hhandle
      have hstored := h.stored name handle hhandle
      exact hstored.congr (hget _ (hne name heq))
        fun dir => hold handle dir fun hname => heq (hstored.named.symm.trans hname)

end made

/-! ### Dropping -/

/-- The directory of a dropped collection is gone, with what is below it. -/
theorem Laid.removed (hroot : EmptyRoot root base) (h : Laid T root base s) {name : String}
    {handle : Handle} (hhandle : s.registry.map.get name = some handle)
    (hold : ∀ handle dir, handle.metadata.name ≠ name → T handle dir → T' handle dir) :
    Laid T' root base
      { disk := s.disk.without handle.dir
        registry := { s.registry with map := s.registry.map.erase name } } := by
  have hstored := h.stored name handle hhandle
  have hget : ∀ other, other ≠ name →
      (s.disk.without handle.dir).dirs.get (root ++ [other]) = s.disk.dirs.get (root ++ [other]) := by
    intro other hother
    rw [FileSystem.get_without, hstored.placed, if_neg]
    exact fun hbelow => hother (Path.child_prefix_child hbelow).symm
  refine
    { rooted := h.rooted
      clean := h.clean
      elsewhere := ?_
      missing := ?_
      stored := ?_ }
  · intro path hpath
    dsimp only
    rw [FileSystem.get_without, hstored.placed]
    split
    · next hbelow =>
      -- nothing has ever been below a directory in the root
      have hne : path ≠ root := by
        rintro rfl
        have hlen := hbelow.length_le
        rw [List.length_append, List.length_singleton] at hlen
        omega
      exact (hroot.empty path ((List.prefix_append _ _).trans hbelow) hne).symm
    · exact h.elsewhere path hpath
  · intro other hother hnone
    dsimp only at hnone ⊢
    by_cases heq : other = name
    · rw [heq, FileSystem.get_without, hstored.placed, if_pos (List.prefix_refl _)]
    · rw [OrderedTable.get_erase, if_neg heq] at hnone
      rw [hget other heq]
      exact h.missing other hother hnone
  · intro other old hget'
    dsimp only at hget'
    by_cases heq : other = name
    · rw [OrderedTable.get_erase, if_pos heq] at hget'
      cases hget'
    · rw [OrderedTable.get_erase, if_neg heq] at hget'
      have hother := h.stored other old hget'
      exact hother.congr (hget other heq)
        fun dir => hold old dir fun hname => heq (hother.named.symm.trans hname)

theorem Laid.drop (hroot : EmptyRoot root base) (h : Laid T root base s) (name : String)
    (hold : ∀ handle dir, handle.metadata.name ≠ name → T handle dir → T' handle dir) :
    Finishes (Registry.dropCollection name) s fun existed s' =>
      existed = (s.registry.map.get name).isSome ∧
      s'.registry.map = s.registry.map.erase name ∧ Laid T' root base s' := by
  refine finishes_bind _ (finishes_unregister h.clean name) ?_
  rintro _ _ ⟨rfl, rfl⟩
  cases hget : s.registry.map.get name with
  | none =>
    apply finishes_pure
    rw [OrderedTable.erase_of_none _ hget]
    refine ⟨rfl, rfl, { h with stored := fun other old hother => ?_ }⟩
    have hstored := h.stored other old hother
    refine hstored.congr rfl fun dir => hold old dir ?_
    rintro hname
    rw [← hstored.named, hname, hget] at hother
    cases hother
  | some handle =>
    have hstored := h.stored name handle hget
    obtain ⟨dir, hdir, -⟩ := hstored.here
    apply finishes_mono (finishes_removeDir ?_)
    · rintro _ _ ⟨rfl, rfl⟩
      exact ⟨rfl, rfl, h.removed hroot hget hold⟩
    · rw [hstored.placed]
      exact Option.isSome_iff_exists.mpr ⟨dir, hdir⟩

end laid

/-! ## Opening -/

section opening

variable {codecs : ServerCodecs} {root path : Path} {disk : FileSystem}
  {metadata : CollectionMeta}

/-- Opening the directory at `path` makes a collection with the metadata, of
    which `R` holds. -/
def LoadsAs (codecs : ServerCodecs) (disk : FileSystem) (path : Path) (metadata : CollectionMeta)
    (R : LiveKind → CollectionDir → Prop) : Prop :=
  ∃ dir, disk.dirs.get path = some dir ∧
    dir.metaFile = some (codecs.metadata.encode metadata) ∧
    Finishes (CollectionDir.reopen codecs metadata) dir R

theorem finishes_loadDir {R : LiveKind → CollectionDir → Prop}
    (h : LoadsAs codecs disk path metadata R) :
    Finishes (loadDir codecs path) disk fun loaded disk' => ∃ kind dir,
      loaded = some { kind := kind, metadata := metadata, dir := path } ∧
      R kind dir ∧ disk' = disk.putDir path dir := by
  obtain ⟨dir, hget, hfile, hreopen⟩ := h
  unfold loadDir
  apply finishes_zoom
  rw [FileSystem.dirAt_of_get hget]
  apply finishes_get
  rw [hfile, if_neg (by simp)]
  refine finishes_bind (fun found dir' => found = metadata ∧ dir' = dir)
    (finishes_liftExcept (CollectionDir.readMeta_of_encode hfile) ⟨rfl, rfl⟩) ?_
  rintro _ _ ⟨rfl, rfl⟩
  refine finishes_bind _ hreopen ?_
  intro kind dir' hkind
  exact finishes_pure ⟨kind, dir', rfl, hkind, rfl⟩

/-- What the loop over some directories of the root makes of the map and of the
    disk, if a collection can be opened in each. -/
structure Scanned (root : Path) (R : CollectionMeta → LiveKind → CollectionDir → Prop)
    (paths : List Path) (disk : FileSystem) (map : OrderedTable String Handle)
    (map' : OrderedTable String Handle) (disk' : FileSystem) : Prop where
  kept : ∀ name, root ++ [name] ∉ paths → map'.get name = map.get name
  spared : ∀ path, path ∉ paths → disk'.dirs.get path = disk.dirs.get path
  found : ∀ path ∈ paths, ∃ metadata kind dir, path = root ++ [metadata.name] ∧
    map'.get metadata.name = some { kind := kind, metadata := metadata, dir := path } ∧
    disk'.dirs.get path = some dir ∧ R metadata kind dir

/-- The loop finds a collection in every directory. -/
theorem finishes_scan {R : CollectionMeta → LiveKind → CollectionDir → Prop}
    (paths : List Path) : ∀ (disk : FileSystem) (map : OrderedTable String Handle),
    paths.Nodup →
    (∀ path ∈ paths, ∃ metadata : CollectionMeta, path = root ++ [metadata.name] ∧
      LoadsAs codecs disk path metadata (R metadata)) →
    (∀ name, root ++ [name] ∈ paths → map.get name = none) →
    Finishes (scan codecs paths map) disk (Scanned root R paths disk map) := by
  induction paths with
  | nil =>
    intro disk map _ _ _
    exact finishes_pure ⟨fun _ _ => rfl, fun _ _ => rfl, fun _ hpath => nomatch hpath⟩
  | cons path rest ih =>
    intro disk map hnodup hload hnew
    obtain ⟨hnot, hrest⟩ := List.nodup_cons.mp hnodup
    obtain ⟨metadata, hplaced, hloads⟩ := hload path List.mem_cons_self
    have hnone : map.get metadata.name = none := hnew _ (hplaced ▸ List.mem_cons_self)
    unfold scan
    refine finishes_bind (fun loaded disk' => ∃ kind dir,
      loaded = .ok (some { kind := kind, metadata := metadata, dir := path }) ∧
      R metadata kind dir ∧ disk' = disk.putDir path dir) ?_ ?_
    · apply finishes_attempt
      apply finishes_mono (finishes_loadDir hloads)
      rintro _ _ ⟨kind, dir, rfl, hkind, hdisk⟩
      exact ⟨kind, dir, rfl, hkind, hdisk⟩
    · rintro _ _ ⟨kind, dir, rfl, hkind, rfl⟩
      dsimp only
      -- the name is new, so no handle is replaced
      rw [hnone]
      refine finishes_bind (fun _ disk' => disk' = disk.putDir path dir) (finishes_modify rfl) ?_
      rintro _ _ rfl
      have hother : ∀ {other}, other ≠ path →
          (disk.putDir path dir).dirs.get other = disk.dirs.get other := by
        intro other hne
        rw [FileSystem.get_putDir, if_neg hne]
      have hname : ∀ {name}, root ++ [name] ≠ path → name ≠ metadata.name := by
        rintro name hne rfl
        exact hne hplaced.symm
      apply finishes_mono (ih _ _ hrest ?_ ?_)
      · intro map' disk' hscanned
        refine ⟨?_, ?_, ?_⟩
        · intro name hmem
          obtain ⟨hne, hmem⟩ := List.ne_and_not_mem_of_not_mem_cons hmem
          rw [hscanned.kept name hmem, OrderedTable.get_insert_ne _ _ (hname hne)]
        · intro other hmem
          obtain ⟨hne, hmem⟩ := List.ne_and_not_mem_of_not_mem_cons hmem
          rw [hscanned.spared other hmem, hother hne]
        · intro other hmem
          rcases List.mem_cons.mp hmem with rfl | hmem
          · -- the rest of the loop does not come to this directory again
            refine ⟨metadata, kind, dir, hplaced, ?_, ?_, hkind⟩
            · rw [hscanned.kept _ (hplaced ▸ hnot), OrderedTable.get_insert_self]
            · rw [hscanned.spared other hnot, FileSystem.get_putDir, if_pos rfl]
          · exact hscanned.found other hmem
      · intro other hmem
        obtain ⟨metadata', hplaced', dir', hget, hloads'⟩ := hload other (List.mem_cons_of_mem _ hmem)
        refine ⟨metadata', hplaced', dir', ?_, hloads'⟩
        rw [hother fun heq => hnot (heq ▸ hmem), hget]
      · intro name hmem
        rw [OrderedTable.get_insert_ne _ _ (hname fun heq => hnot (heq ▸ hmem))]
        exact hnew name (List.mem_cons_of_mem _ hmem)

/-- The directories in the root. -/
theorem mem_children {order : HashOrder} :
    path ∈ children order root disk ↔
      (∃ name, path = root ++ [name]) ∧ (disk.dirs.get path).isSome = true := by
  unfold children
  rw [List.mem_filter, HashOrder.mem_keys_iff, decide_eq_true_eq]
  constructor
  · rintro ⟨hthere, hne, hroot⟩
    refine ⟨⟨path.getLast hne, ?_⟩, hthere⟩
    rw [← hroot, List.dropLast_append_getLast]
  · rintro ⟨⟨name, rfl⟩, hthere⟩
    exact ⟨hthere, by simp, by simp⟩

theorem nodup_children {order : HashOrder} : (children order root disk).Nodup :=
  (order.nodup_keys disk.dirs).filter _

/-- Opening makes a collection of every directory in the root, if all can be
    opened. -/
theorem finishes_openAt_of {order : HashOrder}
    {R : CollectionMeta → LiveKind → CollectionDir → Prop}
    (hthere : (disk.dirs.get root).isSome = true)
    (hload : ∀ path ∈ children order root disk, ∃ metadata : CollectionMeta,
      path = root ++ [metadata.name] ∧ LoadsAs codecs disk path metadata (R metadata)) :
    Finishes (openAt codecs root order) disk fun registry disk' =>
      registry.root = root ∧ registry.poisoned = false ∧
      Scanned root R (children order root disk) disk .empty registry.map disk' := by
  have hroot : ¬ (disk.dirs.get root).isNone = true := by
    rw [Option.isNone_iff_eq_none]
    exact Option.isSome_iff_ne_none.mp hthere
  unfold openAt
  apply finishes_get
  rw [if_neg hroot]
  refine finishes_bind _ (finishes_scan _ _ _ nodup_children hload fun _ _ => rfl) ?_
  exact fun map _ hmap => finishes_pure ⟨rfl, rfl, hmap⟩

end opening

/-- The directories in the root are those of the registered names. -/
theorem Laid.mem_children_iff {T : Handle → CollectionDir → Prop} {root : Path}
    {base : FileSystem} {s : OpenRegistry} (hroot : EmptyRoot root base) (h : Laid T root base s)
    {order : HashOrder} {name : String} :
    root ++ [name] ∈ children order root s.disk.closed ↔
      (s.registry.map.get name).isSome = true := by
  rw [mem_children, FileSystem.get_closed, Option.isSome_map]
  constructor
  · rintro ⟨-, hthere⟩
    by_contra hnot
    have hnone := Option.not_isSome_iff_eq_none.mp hnot
    by_cases hvalid : isValidName name = true
    · -- a valid name that is not registered has no directory
      rw [h.missing name hvalid hnone] at hthere
      cases hthere
    · -- no call touches a path of another name
      have hother : ¬ IsChild root (root ++ [name]) := by
        rintro ⟨name', hvalid', heq⟩
        have hsame : name = name' := by simpa using heq
        exact hvalid (hsame ▸ hvalid')
      rw [h.elsewhere _ hother, hroot.empty _ (List.prefix_append _ _) (by simp)] at hthere
      cases hthere
  · intro hsome
    obtain ⟨handle, hhandle⟩ := Option.isSome_iff_exists.mp hsome
    obtain ⟨dir, hdir, -⟩ := (h.stored name handle hhandle).here
    exact ⟨⟨name, rfl⟩, Option.isSome_iff_exists.mpr ⟨dir, hdir⟩⟩

/-- The root is there when the process has ended. -/
theorem Laid.root_closed {T : Handle → CollectionDir → Prop} {root : Path}
    {base : FileSystem} {s : OpenRegistry} (hroot : EmptyRoot root base)
    (h : Laid T root base s) : (s.disk.closed.dirs.get root).isSome = true := by
  have hother := not_isChild_above (List.prefix_refl root)
  rw [FileSystem.get_closed, Option.isSome_map, h.elsewhere root hother]
  exact hroot.there root (List.prefix_refl root)

end EidosDB
