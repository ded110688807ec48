import EidosDB.Server.Encodings
import EidosDB.Server.Holdings
import EidosDB.Server.Reload

/-! # The Server Refines the Database

    The state of the server and the state of the database in memory are
    related: they list the same collections with the same metadata, and the
    directory and the handle of each name stand for its collection in memory.
    Every request and every restart keeps the relation, or nothing more is
    promised of the run. -/

namespace EidosDB

open Effect Registry

variable {codecs : ServerCodecs} {payload : Codec Payload} {root : Path} {base : FileSystem}
  {db : Database} {d : Daemon}

/-- The directory of a registered handle and the handle stand for the
    collection of the database. -/
structure Carried (codecs : ServerCodecs) (payload : Codec Payload) (db : Database)
    (handle : Handle) (dir : CollectionDir) : Prop where
  metaFile : dir.metaFile = some (codecs.metadata.encode handle.metadata)
  listed : db.metas.get handle.metadata.name = some handle.metadata
  here : ∃ h, db.handles.get handle.metadata.name = some h ∧ h.poisoned = false ∧
    h.dimension = handle.metadata.dimension ∧
    handle.metadata.StandsFor codecs payload (dir.mount handle.kind) h.inner

theorem Carried.congr {db' : Database} {handle : Handle} {dir : CollectionDir}
    (h : Carried codecs payload db handle dir)
    (hmetas : db'.metas.get handle.metadata.name = db.metas.get handle.metadata.name)
    (hhandles : db'.handles.get handle.metadata.name = db.handles.get handle.metadata.name) :
    Carried codecs payload db' handle dir := by
  obtain ⟨h', hget, hrest⟩ := h.here
  exact ⟨h.metaFile, hmetas.trans h.listed, h', hhandles.trans hget, hrest⟩

/-- The server stands for the database. -/
structure Represents (codecs : ServerCodecs) (payload : Codec Payload) (root : Path)
    (base : FileSystem) (d : Daemon) (db : Database) : Prop where
  laid : Laid (Carried codecs payload db) root base d.opened
  absent : ∀ name, d.opened.registry.map.get name = none →
    db.metas.get name = none ∧ db.handles.get name = none
  clean : ∀ name, d.poisoned.get name = none

theorem represents_init (hroot : EmptyRoot root base) :
    Represents codecs payload root base ⟨⟨base, .new root⟩, .empty⟩ .empty where
  laid := laid_init hroot
  absent _ _ := ⟨rfl, rfl⟩
  clean _ := rfl

/-! ## What calls see -/

section views

/-- What a name leads to on both sides. -/
theorem Represents.cases (h : Represents codecs payload root base d db) (name : String) :
    (d.opened.registry.map.get name = none ∧ db.metas.get name = none ∧
      db.handles.get name = none) ∨
    ∃ handle dir h', d.opened.registry.map.get name = some handle ∧
      Housed (Carried codecs payload db) root d.opened.disk name handle ∧
      d.opened.disk.dirs.get handle.dir = some dir ∧
      dir.metaFile = some (codecs.metadata.encode handle.metadata) ∧
      db.metas.get name = some handle.metadata ∧ db.handles.get name = some h' ∧
      h'.poisoned = false ∧ h'.dimension = handle.metadata.dimension ∧
      handle.metadata.StandsFor codecs payload (dir.mount handle.kind) h'.inner := by
  cases hget : d.opened.registry.map.get name with
  | none => exact Or.inl ⟨rfl, h.absent name hget⟩
  | some handle =>
    have hstored := h.laid.stored name handle hget
    obtain ⟨dir, hdir, hfile, hlisted, h', hget', hrest⟩ := hstored.here
    rw [hstored.named] at hlisted hget'
    rw [← hstored.placed] at hdir
    exact Or.inr ⟨handle, dir, h', rfl, hstored, hdir, hfile, hlisted, hget', hrest⟩

theorem Represents.metas_eq (h : Represents codecs payload root base d db) :
    d.metas = db.metas := by
  unfold Daemon.metas
  rw [h.laid.clean, if_neg (by decide)]
  apply OrderedTable.ext_get
  intro name
  rw [OrderedTable.get_mapValues]
  rcases h.cases name with ⟨hnone, hmeta, -⟩ | ⟨handle, dir, h', hget, -, -, -, hmeta, -⟩
  · rw [hnone, hmeta, Option.map_none]
  · rw [hget, hmeta, Option.map_some]

theorem Represents.handlesStandFor (h : Represents codecs payload root base d db) :
    HandlesStandFor (CollectionMeta.StandsFor codecs payload) d.metas d.handles db.handles := by
  intro name
  rw [h.metas_eq]
  unfold Daemon.handles
  rw [h.laid.clean, if_neg (by decide), OrderedTable.get_mapValues]
  rcases h.cases name with ⟨hnone, hmeta, hhandle⟩ |
    ⟨handle, dir, h', hget, hhoused, hdir, hfile, hmeta, hhandle, hclean, hdim, hstands⟩
  · rw [hnone, hmeta]
    exact ⟨rfl, hhandle⟩
  · rw [hget, hmeta]
    refine ⟨_, h', rfl, hhandle, ?_, hclean, rfl, hdim, ?_⟩
    · show (d.poisoned.get handle.metadata.name).isSome = false
      rw [h.clean]
      rfl
    · show handle.metadata.StandsFor codecs payload
        ((d.opened.disk.dirAt handle.dir).mount handle.kind) h'.inner
      rw [FileSystem.dirAt_of_get hdir]
      exact hstands

end views

/-! ## What calls leave -/

namespace Daemon

variable {handles : Handles FlatStore HnswStore LexicalStore StoredPayloads} {disk : FileSystem}
  {path : Path}

theorem get_putFiles_ne {handle : Handle} (h : path ≠ handle.dir) :
    (putFiles handles disk handle).dirs.get path = disk.dirs.get path := by
  unfold putFiles
  split
  · rfl
  · rw [FileSystem.get_putDir, if_neg h]

theorem get_foldl_putFiles_of_ne (list : List Handle) :
    ∀ disk : FileSystem, (∀ handle ∈ list, path ≠ handle.dir) →
      (list.foldl (putFiles handles) disk).dirs.get path = disk.dirs.get path := by
  induction list with
  | nil => exact fun _ _ => rfl
  | cons handle rest ih =>
    intro disk hne
    rw [List.foldl_cons, ih _ fun other hother => hne other (List.mem_cons_of_mem _ hother),
      get_putFiles_ne (hne handle List.mem_cons_self)]

/-- The files of a collection are put into its directory, and no other handle
    has the same one. -/
theorem get_foldl_putFiles (list : List Handle) : ∀ (disk : FileSystem) {handle : Handle}
    {after : CollectionHandle FlatStore HnswStore LexicalStore StoredPayloads},
    (list.map Handle.dir).Nodup → handle ∈ list →
    handles.get handle.metadata.name = some after →
    (list.foldl (putFiles handles) disk).dirs.get handle.dir =
      some ((disk.dirAt handle.dir).withFiles after.inner) := by
  induction list with
  | nil => exact fun _ _ _ _ hmem => nomatch hmem
  | cons first rest ih =>
    intro disk handle after hnodup hmem hafter
    rw [List.map_cons, List.nodup_cons] at hnodup
    obtain ⟨hnot, hrest⟩ := hnodup
    rw [List.foldl_cons]
    rcases List.mem_cons.mp hmem with rfl | hmem
    · have hothers : ∀ other ∈ rest, handle.dir ≠ other.dir :=
        fun other hother heq => hnot (heq ▸ List.mem_map_of_mem hother)
      rw [get_foldl_putFiles_of_ne rest _ hothers]
      unfold putFiles
      rw [hafter, FileSystem.get_putDir, if_pos rfl]
    · have hne : handle.dir ≠ first.dir :=
        fun heq => hnot (heq ▸ List.mem_map_of_mem hmem)
      rw [ih _ hrest hmem hafter]
      unfold FileSystem.dirAt
      rw [get_putFiles_ne hne]

end Daemon

/-- The directories of the registered handles are different. -/
theorem Laid.nodup_dirs {T : Handle → CollectionDir → Prop} {s : OpenRegistry}
    (h : Laid T root base s) : ((s.registry.map.entries.map Prod.snd).map Handle.dir).Nodup := by
  have hdirs : (s.registry.map.entries.map Prod.snd).map Handle.dir =
      (s.registry.map.entries.map Prod.fst).map fun name => root ++ [name] := by
    rw [List.map_map, List.map_map]
    apply List.map_congr_left
    rintro ⟨name, handle⟩ hmem
    exact (h.stored name handle ((OrderedTable.mem_entries_iff _ _ _).mp hmem)).placed
  rw [hdirs]
  exact s.registry.map.nodup_keys.map fun name name' heq => by simpa using heq

/-- A path that no handle has is as it was. -/
theorem Represents.get_spared (h : Represents codecs payload root base d db)
    (handles : Handles FlatStore HnswStore LexicalStore StoredPayloads) {path : Path}
    (hpath : ∀ name handle, d.opened.registry.map.get name = some handle →
      path ≠ root ++ [name]) :
    ((d.opened.registry.map.entries.map Prod.snd).foldl (Daemon.putFiles handles)
      d.opened.disk).dirs.get path = d.opened.disk.dirs.get path := by
  apply Daemon.get_foldl_putFiles_of_ne
  intro handle hhandle
  obtain ⟨⟨name, handle⟩, hentry, rfl⟩ := List.mem_map.mp hhandle
  have hget := (OrderedTable.mem_entries_iff _ _ _).mp hentry
  rw [(h.laid.stored name handle hget).placed]
  exact hpath name handle hget

/-- The server after a call on its collections. -/
theorem Represents.update (h : Represents codecs payload root base d db)
    {handles : Handles FlatStore HnswStore LexicalStore StoredPayloads}
    {handles' : Handles FlatIndex PlacedGraph InMemoryLexicalIndex InMemoryPayloadStore}
    (hstand : HandlesStandFor (CollectionMeta.StandsFor codecs payload) d.metas handles handles') :
    Represents codecs payload root base (d.update handles) { db with handles := handles' } := by
  rw [h.metas_eq] at hstand
  have hmem : ∀ {name handle}, d.opened.registry.map.get name = some handle →
      handle ∈ d.opened.registry.map.entries.map Prod.snd := fun {name handle} hget =>
    List.mem_map.mpr ⟨(name, handle), (OrderedTable.mem_entries_iff _ _ _).mpr hget, rfl⟩
  unfold Daemon.update
  rw [h.laid.clean, if_neg (by decide)]
  refine
    { laid :=
        { rooted := h.laid.rooted
          clean := h.laid.clean
          elsewhere := ?_
          missing := ?_
          stored := ?_ }
      absent := ?_
      clean := ?_ }
  · intro path hpath
    refine (h.get_spared handles ?_).trans (h.laid.elsewhere path hpath)
    rintro name handle hget rfl
    exact hpath ⟨name, (h.laid.stored name handle hget).valid, rfl⟩
  · intro name hvalid hnone
    have hnone' : d.opened.registry.map.get name = none := by
      rw [OrderedTable.get_mapValues, Option.map_eq_none_iff] at hnone
      exact hnone
    refine (h.get_spared handles ?_).trans (h.laid.missing name hvalid hnone')
    rintro other handle hget heq
    obtain rfl : name = other := by simpa using heq
    rw [hnone'] at hget
    cases hget
  · intro name handle₁ hget₁
    rw [OrderedTable.get_mapValues] at hget₁
    rcases h.cases name with ⟨hnone, -⟩ |
      ⟨handle, dir, h', hget, hhoused, hdir, hfile, hmeta, -⟩
    · rw [hnone] at hget₁
      cases hget₁
    · rw [hget] at hget₁
      obtain rfl : Daemon.putLive handles handle = handle₁ := by simpa using hget₁
      rcases hstand.cases name with ⟨hmeta', -⟩ |
        ⟨metadata, after, after', hmeta', hafter, hafter', hstands⟩
      · rw [hmeta] at hmeta'
        cases hmeta'
      · obtain rfl : handle.metadata = metadata := by
          rw [hmeta] at hmeta'
          exact Option.some.inj hmeta'
        rw [← hhoused.named] at hafter
        have hlive : Daemon.putLive handles handle =
            { handle with kind := CollectionDir.live after.inner } := by
          unfold Daemon.putLive
          rw [hafter]
        rw [hlive]
        refine ⟨hhoused.valid, hhoused.named, hhoused.placed, dir.withFiles after.inner, ?_, ?_⟩
        · rw [← hhoused.placed, Daemon.get_foldl_putFiles _ _ h.laid.nodup_dirs (hmem hget) hafter,
            FileSystem.dirAt_of_get hdir]
        · refine ⟨?_, ?_, after', ?_, hstands.clean', hstands.dimension', ?_⟩
          · rw [CollectionDir.metaFile_withFiles]
            exact hfile
          · exact (congrArg db.metas.get hhoused.named).trans hmeta
          · exact (congrArg handles'.get hhoused.named).trans hafter'
          · dsimp only
            rw [CollectionDir.mount_withFiles]
            exact hstands.inner
  · intro name hnone
    have hnone' : d.opened.registry.map.get name = none := by
      rw [OrderedTable.get_mapValues, Option.map_eq_none_iff] at hnone
      exact hnone
    have hmeta := (h.absent name hnone').1
    rcases hstand.cases name with ⟨-, -, hafter'⟩ | ⟨metadata, after, after', hmeta', -⟩
    · exact ⟨hmeta, hafter'⟩
    · rw [hmeta] at hmeta'
      cases hmeta'
  · intro name
    rw [OrderedTable.get_mapValues, OrderedTable.get_filter]
    rcases hstand.cases name with ⟨-, hafter, -⟩ | ⟨metadata, after, after', -, hafter, -, hstands⟩
    · rw [hafter]
      rfl
    · rw [hafter, Option.filter_some, hstands.clean]
      rfl

/-! ## Managing collections -/

section manage

variable {metadata : CollectionMeta}

theorem exec_create_badName {s : OpenRegistry} (h : isValidName metadata.name = false) :
    (Registry.create codecs metadata).exec s = some (.error (.badName metadata.name), s) := by
  apply exec_error_of_ends
  unfold Registry.create checkNew
  rw [h, if_neg (by decide), ends_bind, ends_throw]
  exact ⟨rfl, rfl⟩

theorem exec_create_alreadyExists {s : OpenRegistry} (hvalid : isValidName metadata.name = true)
    (hclean : s.registry.poisoned = false)
    (hthere : (s.registry.map.get metadata.name).isSome = true) :
    (Registry.create codecs metadata).exec s =
      some (.error (.alreadyExists metadata.name), s) := by
  apply exec_error_of_ends
  unfold Registry.create checkNew locked
  rw [if_pos hvalid]
  simp only [ends_bind, ends_get]
  unfold World.start
  rw [if_neg (by rw [hclean]; decide), ends_pure, if_pos hthere, ends_throw]
  exact ⟨rfl, rfl⟩

/-- The database after a new collection. -/
theorem Represents.create (hroot : EmptyRoot root base)
    (h : Represents codecs payload root base d db) (metadata : CollectionMeta) :
    ∃ s', (Registry.create codecs metadata).exec d.opened = some ((db.create metadata).1, s') ∧
      Represents codecs payload root base { d with opened := s' } (db.create metadata).2 := by
  unfold Database.create
  by_cases hvalid : isValidName metadata.name = true
  · rw [if_pos hvalid]
    rcases h.cases metadata.name with ⟨hnew, hmeta, hhandle⟩ |
      ⟨handle, dir, h', hget, -, -, -, hmeta, -⟩
    · rw [hmeta, if_neg (by decide)]
      have hrefused : ¬ Refused d.opened metadata := by
        rintro (hinvalid | hpoisoned | hthere)
        · rw [hvalid] at hinvalid
          cases hinvalid
        · rw [h.laid.clean] at hpoisoned
          cases hpoisoned
        · rw [hnew] at hthere
          cases hthere
      -- the stores are opened in a directory without files
      have hinstantiate := (CollectionDir.finishes_instantiate_new codecs payload metadata
        (some (codecs.metadata.encode metadata))).leads
        (CollectionDir.leads_instantiate_holds codecs metadata _)
      have hempty := h.laid.dirAt_of_new hvalid hnew
      obtain ⟨_, s', hexec, kind, dir, hmade⟩ :=
        (finishes_create_of hrefused (hempty ▸ hinstantiate)).exec_ok
      refine ⟨s', hexec, ?_, ?_, h.clean⟩
      · apply h.laid.made hroot hvalid hmade
        · intro handle dir hname hcarried
          exact hcarried.congr (OrderedTable.get_insert_ne _ _ hname)
            (OrderedTable.get_insert_ne _ _ hname)
        · rintro ⟨hstands, hholds⟩
          exact ⟨hholds.2.2.1, OrderedTable.get_insert_self _ _ _, _,
            OrderedTable.get_insert_self _ _ _, rfl, rfl, hstands⟩
      · intro name hnone
        have hne : name ≠ metadata.name := by
          rintro rfl
          rw [hmade.registry] at hnone
          exact absurd ((OrderedTable.get_insert_self _ _ _).symm.trans hnone) (by simp)
        rw [hmade.registry] at hnone
        have hnone' := (OrderedTable.get_insert_ne _ _ hne).symm.trans hnone
        dsimp only
        rw [OrderedTable.get_insert_ne _ _ hne, OrderedTable.get_insert_ne _ _ hne]
        exact h.absent name hnone'
    · rw [hmeta, Option.isSome_some, if_pos rfl]
      refine ⟨d.opened, ?_, h⟩
      exact exec_create_alreadyExists hvalid h.laid.clean (by rw [hget]; rfl)
  · rw [if_neg hvalid]
    exact ⟨d.opened, exec_create_badName (Bool.eq_false_iff.mpr hvalid), h⟩

/-- The database without a collection. -/
theorem Represents.drop (hroot : EmptyRoot root base)
    (h : Represents codecs payload root base d db) (name : String) :
    ∃ s', (Registry.dropCollection name).exec d.opened = some (.ok (db.drop name).1, s') ∧
      Represents codecs payload root base
        { opened := s', poisoned := d.poisoned.erase name } (db.drop name).2 := by
  have hdrop : Finishes (Registry.dropCollection name) d.opened fun existed s' =>
      existed = (d.opened.registry.map.get name).isSome ∧
      s'.registry.map = d.opened.registry.map.erase name ∧
      Laid (Carried codecs payload (db.drop name).2) root base s' := by
    apply h.laid.drop hroot name
    intro handle dir hname hcarried
    exact hcarried.congr ((OrderedTable.get_erase _ _ _).trans (if_neg hname))
      ((OrderedTable.get_erase _ _ _).trans (if_neg hname))
  obtain ⟨existed, s', hexec, rfl, hmap, hlaid⟩ := hdrop.exec_ok
  refine ⟨s', ?_, hlaid, ?_, ?_⟩
  · rw [hexec]
    unfold Database.drop
    rcases h.cases name with ⟨hnone, hmeta, -⟩ | ⟨handle, dir, h', hget, -, -, -, hmeta, -⟩
    · rw [hnone, hmeta]
      rfl
    · rw [hget, hmeta]
      rfl
  · intro other hnone
    show (db.metas.erase name).get other = none ∧ (db.handles.erase name).get other = none
    dsimp only at hnone
    rw [hmap, OrderedTable.get_erase] at hnone
    rw [OrderedTable.get_erase, OrderedTable.get_erase]
    split
    · exact ⟨rfl, rfl⟩
    · next hne =>
      rw [if_neg hne] at hnone
      exact h.absent other hnone
  · intro other
    show (d.poisoned.erase name).get other = none
    rw [OrderedTable.get_erase, h.clean]
    split <;> rfl

end manage

/-! ## Restarts -/

/-- Every directory that is found loads as a collection of the database. -/
theorem Represents.loads (hroot : EmptyRoot root base)
    (h : Represents codecs payload root base d db) (hplaced : db.isPlaced = true)
    (order : HashOrder) :
    ∀ path ∈ children order root d.opened.disk.closed, ∃ metadata : CollectionMeta,
      path = root ++ [metadata.name] ∧ LoadsAs codecs d.opened.disk.closed path metadata
        fun live dir => dir.metaFile = some (codecs.metadata.encode metadata) ∧
          db.metas.get metadata.name = some metadata ∧
          ∃ h, db.handles.get metadata.name = some h ∧ h.poisoned = false ∧
            h.dimension = metadata.dimension ∧
            metadata.StandsFor codecs payload (dir.mount live) h.inner := by

  intro path hpath
  obtain ⟨name, rfl⟩ := (mem_children.mp hpath).1
  have hsome := (h.laid.mem_children_iff hroot).mp hpath
  rcases h.cases name with ⟨hnone, -⟩ |
    ⟨handle, dir, h', hget, hhoused, hdir, hfile, hmeta, hhandle, hclean, hdim, hstands⟩
  · rw [hnone] at hsome
    cases hsome
  · obtain rfl := hhoused.named
    refine ⟨handle.metadata, rfl, dir.heldBy none, ?_, hfile, ?_⟩
    · rw [FileSystem.get_closed, ← hhoused.placed, hdir]
      rfl
    · -- the vectors of the collection are at their places
      have hentry := (OrderedTable.mem_entries_iff _ _ _).mpr hhandle
      have hinner : h'.inner.isPlaced = true := List.all_eq_true.mp hplaced _ hentry
      have hreopen := CollectionDir.finishes_reopen_standsFor hstands.indexType rfl
        (CollectionDir.standsFor_of_mount hstands hinner none)
      have hframe : Leads (fun dir' => dir' = dir.heldBy none)
          (CollectionDir.reopen codecs handle.metadata)
          fun _ dir' => dir'.metaFile = dir.metaFile := by
        intro w hw
        rw [show dir.metaFile = w.state.metaFile by rw [hw]; rfl]
        exact ends_mono (CollectionDir.ends_reopen codecs handle.metadata w)
          (fun _ _ hholds => hholds.2.2.1) fun _ _ _ => trivial
      apply finishes_mono (hreopen.leads hframe)
      rintro live dir' ⟨hstands', hfile'⟩
      exact ⟨hfile'.trans hfile, hmeta, h', hhandle, hclean, hdim, hstands'⟩

/-- When the process has ended, opening the registry finds the collections
    again. -/
theorem Represents.restart (hroot : EmptyRoot root base)
    (h : Represents codecs payload root base d db) (hplaced : db.isPlaced = true)
    (order : HashOrder) :
    ∃ d', d.restart codecs order = some d' ∧
      Represents codecs payload root base.closed d' db := by
  obtain ⟨registry, disk', hexec, hrooted, hclean, hscanned⟩ :=
    (finishes_openAt_of (h.laid.root_closed hroot) (h.loads hroot hplaced order)).exec_ok
  refine ⟨{ opened := ⟨disk', registry⟩, poisoned := .empty }, ?_, ?_⟩
  · unfold Daemon.restart
    rw [h.laid.rooted, hexec]
    rfl
  · have hmissing : ∀ name, registry.map.get name = none →
        d.opened.registry.map.get name = none := by
      intro name hnone
      by_contra hthere
      have hmem : root ++ [name] ∈ children order root d.opened.disk.closed :=
        (h.laid.mem_children_iff hroot).mpr (Option.isSome_iff_ne_none.mpr hthere)
      obtain ⟨metadata, kind, dir, hpath, hget, -⟩ := hscanned.found _ hmem
      obtain rfl : name = metadata.name := by simpa using hpath
      rw [hnone] at hget
      cases hget
    have hother : ∀ name, d.opened.registry.map.get name = none →
        root ++ [name] ∉ children order root d.opened.disk.closed := by
      intro name hnone hmem
      have hsome := (h.laid.mem_children_iff hroot).mp hmem
      rw [hnone] at hsome
      cases hsome
    refine
      { laid :=
          { rooted := hrooted
            clean := hclean
            elsewhere := ?_
            missing := ?_
            stored := ?_ }
        absent := fun name hnone => h.absent name (hmissing name hnone)
        clean := fun _ => rfl }
    · intro path hpath
      have hnot : path ∉ children order root d.opened.disk.closed := by
        intro hmem
        obtain ⟨metadata, kind, dir, rfl, hget, -⟩ := hscanned.found _ hmem
        have hsome := (h.laid.mem_children_iff hroot).mp hmem
        obtain ⟨handle, hhandle⟩ := Option.isSome_iff_exists.mp hsome
        exact hpath ⟨_, (h.laid.stored _ _ hhandle).valid, rfl⟩
      show disk'.dirs.get path = _
      rw [hscanned.spared path hnot, FileSystem.get_closed, FileSystem.get_closed,
        h.laid.elsewhere path hpath]
    · intro name hvalid hnone
      have hnone' := hmissing name hnone
      show disk'.dirs.get _ = none
      rw [hscanned.spared _ (hother name hnone'), FileSystem.get_closed,
        h.laid.missing name hvalid hnone']
      rfl
    · intro name handle hget
      have hmem : root ++ [name] ∈ children order root d.opened.disk.closed := by
        by_contra hnot
        have hkept := hscanned.kept name hnot
        have hget' : registry.map.get name = some handle := hget
        rw [hkept] at hget'
        cases hget'
      obtain ⟨old, hold⟩ := Option.isSome_iff_exists.mp ((h.laid.mem_children_iff hroot).mp hmem)
      obtain ⟨metadata, kind, dir, hpath, hget', hdir, hfile, hmeta, hhere⟩ :=
        hscanned.found _ hmem
      obtain rfl : name = metadata.name := by simpa using hpath
      obtain rfl := Option.some.inj (hget.symm.trans hget')
      exact ⟨(h.laid.stored _ _ hold).valid, rfl, rfl, dir, hdir, hfile, hmeta, hhere⟩

theorem emptyRoot_closed (h : EmptyRoot root base) : EmptyRoot root base.closed where
  there path hpath := by
    rw [FileSystem.get_closed, Option.isSome_map]
    exact h.there path hpath
  empty path hbelow hne := by
    rw [FileSystem.get_closed, h.empty path hbelow hne]
    rfl

/-! ## Runs -/

/-- The outputs of the server beside those of the database.  Nothing is
    promised after a reply with the code of an internal error, after which the
    lock of a collection may be poisoned, or if a file cannot grow. -/
inductive Agrees : List Daemon.Output → List Daemon.Output → Prop where
  | nothing {outputs : List Daemon.Output} : Agrees outputs []
  | same {output : Daemon.Output} {outputs outputs' : List Daemon.Output}
      (rest : Agrees outputs outputs') : Agrees (output :: outputs) (output :: outputs')
  | internal {status : Status} {outputs outputs' : List Daemon.Output}
      (code : status.code = .internal) :
      Agrees (.reply (.error status) :: outputs) (.reply (.error status) :: outputs')
  | tooLarge {status : Status} {outputs outputs' : List Daemon.Output}
      (excuse : status.TooLarge) : Agrees (.reply (.error status) :: outputs) outputs'

section runs

variable {U : Unicode} {P : Platform} {levelFloat : LevelFloat} {ops : F64Ops}

/-- A request that leaves the set of collections alone. -/
theorem Represents.answer_of_call (h : Represents codecs payload root base d db)
    {request : Request}
    (hcall : (EidosDbHandler.call (diskStores U codecs payload P levelFloat ops) ops d.view
      request).isSome = true)
    (hdisk : d.answer codecs (diskStores U codecs payload P levelFloat ops) ops request =
      (EidosDbHandler.call (diskStores U codecs payload P levelFloat ops) ops d.view request).map
        fun r => (r.1, d.update r.2))
    (hmemory : db.answer (memoryStores U P levelFloat ops) ops request =
      (EidosDbHandler.call (memoryStores U P levelFloat ops) ops db request).map
        fun r => (r.1, { db with handles := r.2 })) :
    ∃ r d' r' db',
      d.answer codecs (diskStores U codecs payload P levelFloat ops) ops request = some (r, d') ∧
      db.answer (memoryStores U P levelFloat ops) ops request = some (r', db') ∧
      Agreed (Represents codecs payload root base) (r, d') (r', db') := by
  obtain ⟨r, hr⟩ := Option.isSome_iff_exists.mp hcall
  obtain ⟨r', hr', hagreed⟩ := call_agrees (storesStandIn U codecs payload P levelFloat ops)
    h.handlesStandFor ops hr
  rw [h.metas_eq] at hr'
  rw [hdisk, hr, hmemory, hr']
  exact ⟨_, _, _, _, rfl, rfl, hagreed.map_state (f := fun handles => d.update handles)
    (g := fun handles => { db with handles := handles }) h.update⟩

/-- Every request is answered alike. -/
theorem Represents.answer (hroot : EmptyRoot root base)
    (h : Represents codecs payload root base d db) (request : Request) :
    ∃ r d' r' db',
      d.answer codecs (diskStores U codecs payload P levelFloat ops) ops request = some (r, d') ∧
      db.answer (memoryStores U P levelFloat ops) ops request = some (r', db') ∧
      Agreed (Represents codecs payload root base) (r, d') (r', db') := by
  cases request with
  | createCollection request =>
    unfold Daemon.answer Database.answer Daemon.createCollection
    dsimp only
    cases EidosDbHandler.metaFromPb request with
    | error status => exact ⟨_, _, _, _, rfl, rfl, .same h⟩
    | ok metadata =>
      obtain ⟨s', hexec, hrep⟩ := h.create hroot metadata
      dsimp only
      unfold Daemon.onRegistry
      rw [hexec]
      exact ⟨_, _, _, _, rfl, rfl, .same hrep⟩
  | dropCollection request =>
    obtain ⟨s', hexec, hrep⟩ := h.drop hroot request.name
    unfold Daemon.answer Database.answer Daemon.dropCollection Daemon.onRegistry
    dsimp only
    rw [hexec]
    exact ⟨_, _, _, _, rfl, rfl, .same hrep⟩
  | _ => exact h.answer_of_call rfl rfl rfl

theorem Represents.run (hroot : EmptyRoot root base)
    (h : Represents codecs payload root base d db) (events : List Daemon.Event) :
    Agrees (d.run codecs (diskStores U codecs payload P levelFloat ops) ops events)
      (db.run (memoryStores U P levelFloat ops) ops events) := by
  induction events generalizing base d db with
  | nil => exact .nothing
  | cons event rest ih =>
    unfold Daemon.run Database.run
    cases event with
    | request request =>
      obtain ⟨r, d', r', db', hanswer, hanswer', hagreed⟩ :=
        h.answer (U := U) (P := P) hroot request
      unfold Daemon.step Database.step
      dsimp only
      rw [hanswer, hanswer']
      dsimp only
      cases hagreed with
      | same hrep => exact .same (ih hroot hrep)
      | internal code => exact .internal code
      | tooLarge excuse => exact .tooLarge excuse
    | restart order =>
      unfold Daemon.step Database.step
      dsimp only
      by_cases hplaced : db.isPlaced = true
      · obtain ⟨d', hrestart, hrep⟩ := h.restart hroot hplaced order
        rw [hrestart, if_pos hplaced]
        exact .same (ih (emptyRoot_closed hroot) hrep)
      · rw [if_neg hplaced]
        exact .nothing

end runs

/-- **The server refines the database.**  From an empty root, whatever the
    requests are and wherever the process ends and starts again between them,
    the server answers as the database in memory does, as far as anything is
    promised. -/
theorem run_agrees_database (U : Unicode) (codecs : ServerCodecs) (payload : Codec Payload)
    (P : Platform) (levelFloat : LevelFloat) (ops : F64Ops) {root : Path} {disk : FileSystem}
    (hroot : EmptyRoot root disk) (events : List Daemon.Event) :
    Agrees
      (Daemon.run codecs (diskStores U codecs payload P levelFloat ops) ops events
        ⟨⟨disk, .new root⟩, .empty⟩)
      (Database.run (memoryStores U P levelFloat ops) ops events .empty) :=
  (represents_init hroot).run hroot events

/-- A graph of one point that is searched after a restart, compacted and
    dropped. -/
def notesEvents : List Daemon.Event :=
  [.request (.createCollection ⟨"notes", 3, 1, 2, none⟩),
    .request (.upsert .ascending (.ascending, .ascending)
      ⟨"notes", some ⟨List.replicate 16 0, [F32.ofInt 1], some "a b", none⟩⟩),
    .restart .ascending,
    .request (.search .ascending ⟨"notes", [F32.ofInt 3], 2, none, none⟩),
    .request (.compact ⟨"notes"⟩),
    .restart .descending,
    .request (.dropCollection ⟨"notes"⟩),
    .request (.listCollections .ascending)]

theorem run_agrees_database_notes :
    (Database.run (memoryStores .ascii .small .base2 .small) .small notesEvents .empty).length = 8 ∧
    Agrees
      (Daemon.run .notes (diskStores .ascii .notes Payload.postcard .small .base2 .small) .small
        notesEvents ⟨⟨(OpenRegistry.fresh ["data"]).disk, .new ["data"]⟩, .empty⟩)
      (Database.run (memoryStores .ascii .small .base2 .small) .small notesEvents .empty) :=
  ⟨by decide +kernel, run_agrees_database .ascii .notes Payload.postcard .small .base2 .small
    (emptyRoot_fresh ["data"]) notesEvents⟩

end EidosDB
