import EidosDB.Server.Encodings
import EidosDB.Server.Layout

/-! # Reloading the Registry

    A run of the registry is a sequence of calls without failures of the disk.
    In every state of a run on an empty root, the registered names are those
    of the directories in the root, and each directory holds the metadata and
    the files of its collection.  When the process has ended, opening the
    registry finds the same collections. -/

namespace EidosDB

open Effect Registry

/-! ## Runs -/

inductive RegistryCall where
  | create (metadata : CollectionMeta)
  | drop (name : String)

namespace RegistryCall

variable (codecs : ServerCodecs)

def run : RegistryCall → Effect ServerError OpenRegistry Unit
  | .create metadata => Registry.create codecs metadata
  | .drop name => do
    let _ ← Registry.dropCollection name
    pure ()

/-- The calls one after the other, whatever they answer; none if one of them
    panics. -/
def runAll : List RegistryCall → OpenRegistry → Option OpenRegistry
  | [], s => some s
  | call :: rest, s => ((call.run codecs).exec s).bind fun r => runAll rest r.2

end RegistryCall

/-! ## The invariant -/

/-- The directory of a registered handle. -/
structure Stored (codecs : ServerCodecs) (root : Path) (disk : FileSystem) (name : String)
    (handle : Handle) : Prop where
  valid : isValidName name = true
  named : handle.metadata.name = name
  placed : handle.dir = root ++ [name]
  here : ∃ dir, disk.dirs.get (root ++ [name]) = some dir ∧
    dir.Serves codecs handle.metadata handle.kind ∧
    dir.metaFile = some (codecs.metadata.encode handle.metadata)

/-- The directories in the root are those of the registered names, and nothing
    else has changed since `base`. -/
structure Consistent (codecs : ServerCodecs) (root : Path) (base : FileSystem)
    (s : OpenRegistry) : Prop where
  rooted : s.registry.root = root
  clean : s.registry.poisoned = false
  elsewhere : ∀ path, ¬ IsChild root path → s.disk.dirs.get path = base.dirs.get path
  missing : ∀ name, isValidName name = true → s.registry.map.get name = none →
    s.disk.dirs.get (root ++ [name]) = none
  stored : ∀ name handle, s.registry.map.get name = some handle →
    Stored codecs root s.disk name handle

section consistent

variable {codecs : ServerCodecs} {root : Path} {base : FileSystem} {s s' : OpenRegistry}

/-- What a registered handle has in its directory. -/
def Serving (codecs : ServerCodecs) (handle : Handle) (dir : CollectionDir) : Prop :=
  dir.Serves codecs handle.metadata handle.kind ∧
    dir.metaFile = some (codecs.metadata.encode handle.metadata)

theorem consistent_iff_laid : Consistent codecs root base s ↔ Laid (Serving codecs) root base s := by
  constructor
  · intro h
    refine ⟨h.rooted, h.clean, h.elsewhere, h.missing, fun name handle hhandle => ?_⟩
    have hstored := h.stored name handle hhandle
    exact ⟨hstored.valid, hstored.named, hstored.placed, hstored.here⟩
  · intro h
    refine ⟨h.rooted, h.clean, h.elsewhere, h.missing, fun name handle hhandle => ?_⟩
    have hstored := h.stored name handle hhandle
    exact ⟨hstored.valid, hstored.named, hstored.placed, hstored.here⟩

theorem consistent_init (hroot : EmptyRoot root base) :
    Consistent codecs root base ⟨base, .new root⟩ :=
  consistent_iff_laid.mpr (laid_init hroot)

theorem Consistent.created (hroot : EmptyRoot root base) (h : Consistent codecs root base s)
    {metadata : CollectionMeta} {kind : LiveKind} {dir : CollectionDir}
    (hvalid : isValidName metadata.name = true)
    (hcreated : Created codecs metadata s kind dir s') : Consistent codecs root base s' := by
  have hmade : Made (fun kind dir => dir.Serves codecs metadata kind ∧
      dir.metaFile = some (codecs.metadata.encode metadata)) metadata s kind dir s' :=
    ⟨hcreated.registry, hcreated.here, hcreated.elsewhere, hcreated.serves, hcreated.metaFile⟩
  exact consistent_iff_laid.mpr ((consistent_iff_laid.mp h).made hroot hvalid hmade
    (fun _ _ _ hold => hold) fun hnew => hnew)

/-- A refused call changes nothing, and another one makes a collection. -/
theorem Consistent.create (hroot : EmptyRoot root base) (h : Consistent codecs root base s)
    (metadata : CollectionMeta) : ∃ r s', (Registry.create codecs metadata).exec s = some (r, s') ∧
      Consistent codecs root base s' := by
  by_cases hrefused : Refused s metadata
  · have hfails : Fails (Registry.create codecs metadata) s fun s' => s' = s :=
      fails_bind (fails_checkNew hrefused)
    obtain ⟨e, _, hexec, rfl⟩ := hfails.exec_error
    exact ⟨_, _, hexec, h⟩
  · -- the name is free, so there is nothing in its directory
    obtain ⟨hclean, hnew⟩ := not_refused hrefused
    have hvalid : isValidName metadata.name = true := by
      rw [← Bool.not_eq_false]
      exact fun hinvalid => hrefused (Or.inl hinvalid)
    have hbare : (s.disk.dirAt (s.dirOf metadata.name)).Bare := by
      rw [(consistent_iff_laid.mp h).dirAt_of_new hvalid hnew]
      exact ⟨rfl, rfl, rfl, rfl⟩
    obtain ⟨_, s', hexec, kind, dir, hcreated⟩ := (finishes_create hrefused hbare).exec_ok
    exact ⟨_, s', hexec, h.created hroot hvalid hcreated⟩

theorem Consistent.drop (hroot : EmptyRoot root base) (h : Consistent codecs root base s)
    (name : String) : Finishes (Registry.dropCollection name) s
      fun _ s' => Consistent codecs root base s' := by
  apply finishes_mono ((consistent_iff_laid.mp h).drop hroot name fun _ _ _ hold => hold)
  rintro _ s' ⟨-, -, h'⟩
  exact consistent_iff_laid.mpr h'

/-- A call comes to an end and keeps the invariant. -/
theorem Consistent.call (hroot : EmptyRoot root base) (h : Consistent codecs root base s)
    (call : RegistryCall) : ∃ r s', (call.run codecs).exec s = some (r, s') ∧
      Consistent codecs root base s' := by
  cases call with
  | create metadata => exact h.create hroot metadata
  | drop name =>
    have hfinishes : Finishes ((RegistryCall.drop name).run codecs) s
        fun _ s' => Consistent codecs root base s' :=
      finishes_bind _ (h.drop hroot name) fun _ _ h' => finishes_pure h'
    obtain ⟨_, s', hexec, h'⟩ := hfinishes.exec_ok
    exact ⟨_, s', hexec, h'⟩

theorem Consistent.runAll (hroot : EmptyRoot root base) (h : Consistent codecs root base s)
    (calls : List RegistryCall) : ∃ s', RegistryCall.runAll codecs calls s = some s' ∧
      Consistent codecs root base s' := by
  induction calls generalizing s with
  | nil => exact ⟨s, rfl, h⟩
  | cons call rest ih =>
    obtain ⟨r, s₁, hexec, h₁⟩ := h.call hroot call
    obtain ⟨s', hrun, h'⟩ := ih h₁
    refine ⟨s', ?_, h'⟩
    unfold RegistryCall.runAll
    rw [hexec]
    exact hrun

end consistent

/-! ## Opening -/

/-- A directory in the root from which a collection can be opened. -/
structure Loadable (codecs : ServerCodecs) (root : Path) (disk : FileSystem) (path : Path)
    (metadata : CollectionMeta) : Prop where
  placed : path = root ++ [metadata.name]
  here : ∃ dir, disk.dirs.get path = some dir ∧
    dir.metaFile = some (codecs.metadata.encode metadata) ∧
    Finishes (CollectionDir.reopen codecs metadata) dir
      fun kind _ => kind.indexType = metadata.indexType

section opening

variable {codecs : ServerCodecs} {root path : Path} {disk : FileSystem}
  {metadata : CollectionMeta}

/-- Opening registers a collection for every directory in the root, if all can
    be opened. -/
theorem finishes_openAt {order : HashOrder}
    (found : String → Option (CollectionMeta × IndexTypeChoice))
    (hthere : (disk.dirs.get root).isSome = true)
    (hload : ∀ path ∈ children order root disk, ∃ metadata, Loadable codecs root disk path metadata ∧
      found metadata.name = some (metadata, metadata.indexType)) :
    Finishes (openAt codecs root order) disk fun registry _ => ∀ name,
      (registry.map.get name).map Handle.summary =
        if root ++ [name] ∈ children order root disk then found name else none := by
  apply finishes_mono (@finishes_openAt_of codecs root disk order
    (fun metadata kind _ => kind.indexType = metadata.indexType ∧
      found metadata.name = some (metadata, metadata.indexType)) hthere ?_)
  · rintro registry disk' ⟨-, -, hscanned⟩ name
    split
    · next hmem =>
      obtain ⟨metadata, kind, dir, hplaced, hget, -, hkind, hfound⟩ := hscanned.found _ hmem
      obtain rfl : name = metadata.name := by simpa using hplaced
      rw [hget, hfound, ← hkind]
      rfl
    · next hmem =>
      rw [hscanned.kept name hmem]
      rfl
  · intro path hpath
    obtain ⟨metadata, ⟨hplaced, dir, hget, hfile, hreopen⟩, hfound⟩ := hload path hpath
    exact ⟨metadata, hplaced, dir, hget, hfile,
      finishes_mono hreopen fun _ _ hkind => ⟨hkind, hfound⟩⟩

end opening

section reload

variable {codecs : ServerCodecs} {root : Path} {base : FileSystem} {s : OpenRegistry}

/-- When nothing is held, every collection can be opened again. -/
theorem Consistent.loadable (hroot : EmptyRoot root base) (h : Consistent codecs root base s)
    {order : HashOrder} {path : Path} (hpath : path ∈ children order root s.disk.closed) :
    ∃ metadata, Loadable codecs root s.disk.closed path metadata ∧
      (s.registry.map.get metadata.name).map Handle.summary =
        some (metadata, metadata.indexType) := by
  obtain ⟨name, rfl⟩ := (mem_children.mp hpath).1
  obtain ⟨handle, hhandle⟩ :=
    Option.isSome_iff_exists.mp (((consistent_iff_laid.mp h).mem_children_iff hroot).mp hpath)
  obtain ⟨-, rfl, -, dir, hdir, hserves, hfile⟩ := h.stored name handle hhandle
  refine ⟨handle.metadata, ⟨rfl, dir.heldBy none, ?_, hfile, ?_⟩, ?_⟩
  · rw [FileSystem.get_closed, hdir, Option.map_some]
  · have hready : (dir.heldBy none).Ready codecs handle.metadata :=
      ⟨hserves.ready.flat, hserves.ready.hnsw, hserves.ready.lexical⟩
    exact finishes_mono (CollectionDir.finishes_reopen hready rfl) fun _ _ h' => h'.indexType
  · rw [hhandle, ← hserves.indexType]
    rfl

/-- Opening the registry after the process has ended. -/
theorem Consistent.reopen (hroot : EmptyRoot root base) (h : Consistent codecs root base s)
    (order : HashOrder) : Finishes (openAt codecs root order) s.disk.closed fun registry _ =>
      ∀ name, (registry.map.get name).map Handle.summary =
        (s.registry.map.get name).map Handle.summary := by
  -- what is found is what the map had
  apply finishes_mono (finishes_openAt
    (fun name => (s.registry.map.get name).map Handle.summary)
    ((consistent_iff_laid.mp h).root_closed hroot) fun path hpath => h.loadable hroot hpath)
  intro registry _ hmap name
  rw [hmap name]
  split
  · rfl
  · next hnot =>
    rw [(consistent_iff_laid.mp h).mem_children_iff hroot] at hnot
    rw [Option.not_isSome_iff_eq_none.mp hnot]
    rfl

/-- After every run of calls on an empty root, whatever their names, only
    directories in the root with valid names differ from the beginning, no two
    registered names share one, and opening the registry after the process has
    ended registers the same names with the same metadata and index kinds. -/
theorem reload_same (codecs : ServerCodecs) (root : Path) (disk : FileSystem)
    (hroot : EmptyRoot root disk) (calls : List RegistryCall) :
    ∃ s, RegistryCall.runAll codecs calls ⟨disk, .new root⟩ = some s ∧
      (∀ path, s.disk.dirs.get path ≠ disk.dirs.get path →
        ∃ name, isValidName name = true ∧ path = root ++ [name]) ∧
      (∀ name name' handle handle', s.registry.map.get name = some handle →
        s.registry.map.get name' = some handle' → name ≠ name' → handle.dir ≠ handle'.dir) ∧
      ∀ order, ∃ registry disk',
        (openAt codecs root order).exec s.disk.closed = some (.ok registry, disk') ∧
        ∀ name, (registry.map.get name).map Handle.summary =
          (s.registry.map.get name).map Handle.summary := by
  obtain ⟨s, hrun, h⟩ := (@consistent_init codecs root disk hroot).runAll hroot calls
  refine ⟨s, hrun, ?_, ?_, ?_⟩
  · intro path hpath
    by_contra hnot
    exact hpath (h.elsewhere path hnot)
  · intro name name' handle handle' hget hget' hne hdir
    rw [(h.stored name handle hget).placed, (h.stored name' handle' hget').placed] at hdir
    exact hne (by simpa using hdir)
  · exact fun order => (h.reopen hroot order).exec_ok

theorem emptyRoot_fresh (root : Path) : EmptyRoot root (OpenRegistry.fresh root).disk := by
  refine ⟨?_, ?_⟩
  · intro path hpath
    unfold OpenRegistry.fresh
    rw [FileSystem.get_mkdirs, if_pos hpath]
    rfl
  · intro path hbelow hne
    unfold OpenRegistry.fresh
    rw [FileSystem.get_mkdirs, if_neg]
    · rfl
    · exact fun habove => hne (habove.eq_of_length_le hbelow.length_le)

/-- A name that climbs out of the root, a collection made twice, and one made
    anew. -/
theorem reload_same_notes : ∃ s, RegistryCall.runAll .notes
      [.create { notesMeta .cosine with name := "../notes" }, .create (notesMeta .cosine),
        .create (notesMeta .euclidean), .drop "notes", .create (notesMeta .euclidean)]
      ⟨(OpenRegistry.fresh ["data"]).disk, .new ["data"]⟩ = some s ∧
    ∀ order, ∃ registry disk',
      (openAt .notes ["data"] order).exec s.disk.closed = some (.ok registry, disk') ∧
      ∀ name, (registry.map.get name).map Handle.summary =
        (s.registry.map.get name).map Handle.summary := by
  obtain ⟨s, hrun, -, -, hreload⟩ := reload_same .notes ["data"]
    (OpenRegistry.fresh ["data"]).disk (emptyRoot_fresh ["data"])
    [.create { notesMeta .cosine with name := "../notes" }, .create (notesMeta .cosine),
      .create (notesMeta .euclidean), .drop "notes", .create (notesMeta .euclidean)]
  exact ⟨s, hrun, hreload⟩

end reload

end EidosDB
