import EidosDB.Server.RegistrySteps
import EidosDB.Server.Encodings
import EidosDB.Lib.Interleave

/-! # Races

    Two calls on one name take their steps in any order.  Of two `create`
    calls at most one succeeds, since the databases of a directory are held
    by one collection; but the metadata in the directory is that of the call
    that wrote last.  A directory may be removed by a `drop_collection` that
    has taken its handle out of the map, while a `create` has written its
    metadata there and not yet opened its files. -/

namespace EidosDB

open Effect Registry

/-! ## Calls in steps -/

/-- Where a `create` call is. -/
inductive CreateCall where
  | check
  | makeDir
  | writeMeta
  | openIndex
  | insert (kind : LiveKind)
  | returned (result : Outcome ServerError Unit)

/-- Where a `drop_collection` call is. -/
inductive DropCall where
  | unregister
  | removeDir (handle : Handle)
  | returned (result : Outcome ServerError Bool)

namespace CreateCall

variable (codecs : ServerCodecs) (metadata : CollectionMeta)

def step : CreateCall → Effect ServerError OpenRegistry CreateCall
  | .check => do
    Registry.checkNew metadata
    pure .makeDir
  | .makeDir => do
    Registry.makeDir metadata
    pure .writeMeta
  | .writeMeta => do
    Registry.persistMeta codecs metadata
    pure .openIndex
  | .openIndex => do
    let kind ← Registry.instantiate codecs metadata
    pure (.insert kind)
  | .insert kind => do
    Registry.register metadata kind
    pure (.returned (.ok ()))
  | .returned result => pure (.returned result)

def party : Party ServerError OpenRegistry CreateCall where
  step := step codecs metadata
  halted r := r.outcome.map .returned

/-- The steps one after the other are the call. -/
theorem create_eq_steps : (do
      let made ← step codecs metadata .check
      let written ← step codecs metadata made
      let opened ← step codecs metadata written
      let inserted ← step codecs metadata opened
      step codecs metadata inserted) = (do
      Registry.create codecs metadata
      pure (CreateCall.returned (.ok ()))) := by
  unfold Registry.create
  -- a step only hands the control on to the next one
  simp only [step, bind_bind, pure_next]

end CreateCall

namespace DropCall

/-- After the map has given up what it had. -/
def unregistered : Option Handle → DropCall
  | none => .returned (.ok false)
  | some handle => .removeDir handle

variable (name : String)

def step : DropCall → Effect ServerError OpenRegistry DropCall
  | .unregister => do
    let handle ← Registry.unregister name
    pure (unregistered handle)
  | .removeDir handle => do
    let removed ← Registry.removeDir handle
    pure (.returned (.ok removed))
  | .returned result => pure (.returned result)

def party : Party ServerError OpenRegistry DropCall where
  step := step name
  halted r := r.outcome.map .returned

/-- The steps one after the other are the call. -/
theorem dropCollection_eq_steps : (do
      let taken ← step name .unregister
      step name taken) = (do
      let removed ← Registry.dropCollection name
      pure (DropCall.returned (.ok removed))) := by
  unfold Registry.dropCollection
  simp only [step, bind_bind, pure_next]
  congr 1
  funext handle
  cases handle <;> rfl

end DropCall

/-! ## What a step can do -/

namespace OpenRegistry

/-- The directory of a name. -/
def dirAt (name : String) (self : OpenRegistry) : CollectionDir :=
  self.disk.dirAt (self.dirOf name)

/-- Somebody has the databases of the directory open. -/
def Held (name : String) (self : OpenRegistry) : Prop :=
  (self.dirAt name).holder.isSome = true

variable {name : String} {path : Path} {dir : CollectionDir} {s s' : OpenRegistry}

theorem dirOf_congr (h : s'.registry = s.registry) : s'.dirOf name = s.dirOf name :=
  congrArg (Registry.dirOf · name) h

theorem dirAt_of_get (h : s.disk.dirs.get (s.dirOf name) = some dir) : s.dirAt name = dir :=
  FileSystem.dirAt_of_get h

theorem dirAt_putDir : (s.putDir (s.dirOf name) dir).dirAt name = dir :=
  FileSystem.dirAt_putDir

theorem dirAt_mkdirs_putDir :
    ((s.mkdirs (s.dirOf name)).putDir (s.dirOf name) dir).dirAt name = dir :=
  FileSystem.dirAt_putDir

/-- The map is as it was, and so are the files but for one directory. -/
def Elsewhere (path : Path) (s s' : OpenRegistry) : Prop :=
  s'.registry = s.registry ∧ ∀ other, other ≠ path → s'.disk.dirAt other = s.disk.dirAt other

theorem elsewhere_refl (s : OpenRegistry) : Elsewhere path s s := ⟨rfl, fun _ _ => rfl⟩

theorem elsewhere_putDir : Elsewhere path s (s.putDir path dir) :=
  ⟨rfl, fun _ hother => FileSystem.dirAt_putDir_ne hother⟩

theorem elsewhere_mkdirs_putDir : Elsewhere path s ((s.mkdirs path).putDir path dir) := by
  refine ⟨rfl, fun other hother => ?_⟩
  exact (FileSystem.dirAt_putDir_ne hother).trans FileSystem.dirAt_mkdirs

end OpenRegistry

open OpenRegistry

namespace CreateCall

variable {codecs : ServerCodecs} {metadata : CollectionMeta} {s s' : OpenRegistry}
  {k' : CreateCall}

/-- The call has returned and was not successful. -/
def Failed (call : CreateCall) : Prop := ∃ result, call = .returned result ∧ result ≠ .ok ()

theorem failed_of_halted (h : ∃ r, (party codecs metadata).halted r = some k') : k'.Failed := by
  obtain ⟨r, hr⟩ := h
  obtain ⟨o, ho, rfl⟩ := Option.map_eq_some_iff.mp hr
  exact ⟨o, rfl, Halt.outcome_ne_ok ho ()⟩

theorem moves_check (h : (party codecs metadata).Moves .check s k' s') :
    s' = s ∧ (k' = .makeDir ∧ ¬ Refused s metadata ∨ k'.Failed) := by
  have hleaves : Leaves (Registry.checkNew metadata) s
      (fun _ t => t = s ∧ ¬ Refused s metadata) (fun t => t = s) := by
    rintro w rfl
    apply ends_mono (ends_checkNew metadata w)
    · rintro _ w' ⟨rfl, hnew⟩
      exact ⟨rfl, hnew⟩
    · rintro _ w' ⟨rfl, -⟩
      rfl
  rcases Party.moves_bind (f := fun _ => .makeDir) rfl h hleaves
    with ⟨_, hk, hs, hnew⟩ | ⟨hhalt, hs⟩
  · exact ⟨hs, Or.inl ⟨hk, hnew⟩⟩
  · exact ⟨hs, Or.inr (failed_of_halted hhalt)⟩

theorem moves_makeDir (h : (party codecs metadata).Moves .makeDir s k' s') :
    s'.registry = s.registry ∧ (∀ path, s'.disk.dirAt path = s.disk.dirAt path) ∧
      (k' = .writeMeta ∨ k'.Failed) := by
  have hleaves : Leaves (Registry.makeDir metadata) s
      (fun _ t => t = s.mkdirs (s.dirOf metadata.name)) (fun t => t = s) := by
    rintro w rfl
    exact ends_makeDir metadata w
  rcases Party.moves_bind (f := fun _ => .writeMeta) rfl h hleaves
    with ⟨_, hk, rfl⟩ | ⟨hhalt, rfl⟩
  · exact ⟨rfl, fun path => FileSystem.dirAt_mkdirs, Or.inl hk⟩
  · exact ⟨rfl, fun path => rfl, Or.inr (failed_of_halted hhalt)⟩

theorem moves_writeMeta (h : (party codecs metadata).Moves .writeMeta s k' s') :
    Elsewhere (s.dirOf metadata.name) s s' ∧ ∃ file,
      s'.dirAt metadata.name = { s.dirAt metadata.name with metaFile := file } ∧
      (k' = .openIndex ∧ file = some (codecs.metadata.encode metadata) ∨ k'.Failed) := by
  have hleaves : Leaves (Registry.persistMeta codecs metadata) s
      (fun _ t => ∃ dir, s.disk.dirs.get (s.dirOf metadata.name) = some dir ∧ t =
        s.putDir (s.dirOf metadata.name)
          { dir with metaFile := some (codecs.metadata.encode metadata) })
      (fun t => t = s ∨ ∃ dir file, s.disk.dirs.get (s.dirOf metadata.name) = some dir ∧
        t = s.putDir (s.dirOf metadata.name) { dir with metaFile := file }) := by
    rintro w rfl
    exact ends_persistMeta codecs metadata w
  rcases Party.moves_bind (f := fun _ => .openIndex) rfl h hleaves
    with ⟨_, hk, dir, hdir, rfl⟩ | ⟨hhalt, rfl | ⟨dir, file, hdir, rfl⟩⟩
  · refine ⟨elsewhere_putDir, _, ?_, Or.inl ⟨hk, rfl⟩⟩
    rw [OpenRegistry.dirAt_putDir, OpenRegistry.dirAt_of_get hdir]
  · exact ⟨elsewhere_refl _, _, rfl, Or.inr (failed_of_halted hhalt)⟩
  · refine ⟨elsewhere_putDir, file, ?_, Or.inr (failed_of_halted hhalt)⟩
    rw [OpenRegistry.dirAt_putDir, OpenRegistry.dirAt_of_get hdir]

theorem moves_openIndex (h : (party codecs metadata).Moves .openIndex s k' s') :
    Elsewhere (s.dirOf metadata.name) s s' ∧
      ((∃ kind, k' = .insert kind ∧ CollectionDir.Holds (s.dirAt metadata.name)
          metadata.indexType kind (s'.dirAt metadata.name) ∧
        (s'.dirAt metadata.name).There metadata.indexType) ∨
      k'.Failed ∧ CollectionDir.Frame (s.dirAt metadata.name).metaFile
        (s.dirAt metadata.name).holder (s'.dirAt metadata.name)) := by
  have hleaves : Leaves (Registry.instantiate codecs metadata) s
      (fun live t => ∃ dir, t =
          (s.mkdirs (s.dirOf metadata.name)).putDir (s.dirOf metadata.name) dir ∧
        CollectionDir.Holds (s.dirAt metadata.name) metadata.indexType live dir ∧
        dir.There metadata.indexType)
      (fun t => t = s ∨ ∃ dir, t =
          (s.mkdirs (s.dirOf metadata.name)).putDir (s.dirOf metadata.name) dir ∧
        CollectionDir.Frame (s.dirAt metadata.name).metaFile (s.dirAt metadata.name).holder
          dir) := by
    rintro w rfl
    exact ends_instantiate codecs metadata w rfl
  rcases Party.moves_bind (f := .insert) rfl h hleaves
    with ⟨live, hk, dir, rfl, hholds, hthere⟩ | ⟨hhalt, rfl | ⟨dir, rfl, hframe⟩⟩
  · refine ⟨elsewhere_mkdirs_putDir, Or.inl ⟨live, hk, ?_, ?_⟩⟩
    · rwa [OpenRegistry.dirAt_mkdirs_putDir]
    · rwa [OpenRegistry.dirAt_mkdirs_putDir]
  · exact ⟨elsewhere_refl _, Or.inr ⟨failed_of_halted hhalt, rfl, rfl⟩⟩
  · refine ⟨elsewhere_mkdirs_putDir, Or.inr ⟨failed_of_halted hhalt, ?_⟩⟩
    rwa [OpenRegistry.dirAt_mkdirs_putDir]

/-- The new handle changes no directory names. -/
theorem dirOf_registered {kind : LiveKind} (h : s'.registry = registered s metadata kind)
    (name : String) : s'.dirOf name = s.dirOf name := by
  unfold OpenRegistry.dirOf
  rw [h]
  rfl

theorem moves_insert {kind : LiveKind} (h : (party codecs metadata).Moves (.insert kind) s k' s') :
    (k' = .returned (.ok ()) ∧ s'.registry = registered s metadata kind ∧
      s'.dirAt metadata.name = s.dirAt metadata.name) ∨
    (k'.Failed ∧ Elsewhere (s.dirOf metadata.name) s s' ∧
      s'.dirAt metadata.name = (s.dirAt metadata.name).heldBy none) := by
  have hleaves : Leaves (Registry.register metadata kind) s
      (fun _ t => t.registry = registered s metadata kind ∧
        t.disk.dirs.get (s.dirOf metadata.name) = s.disk.dirs.get (s.dirOf metadata.name))
      (fun t => t.registry = s.registry ∧
        t.disk = s.disk.letGo (s.dirOf metadata.name)) := by
    rintro w rfl
    exact ends_mono (ends_register metadata kind w) (fun _ _ h => h.2) fun _ _ h => h
  rcases Party.moves_bind (f := fun _ => .returned (.ok ())) rfl h hleaves
    with ⟨_, hk, hregistry, hget⟩ | ⟨hhalt, hregistry, hdisk⟩
  · refine Or.inl ⟨hk, hregistry, ?_⟩
    unfold OpenRegistry.dirAt FileSystem.dirAt
    rw [dirOf_registered hregistry, hget]
  · refine Or.inr ⟨failed_of_halted hhalt, ⟨hregistry, ?_⟩, ?_⟩
    · intro other hother
      rw [hdisk, FileSystem.dirAt_letGo_ne hother]
    · unfold OpenRegistry.dirAt OpenRegistry.dirOf
      rw [hregistry, hdisk]
      exact FileSystem.dirAt_letGo

/-- A call that has returned stays where it is. -/
theorem moves_returned {result : Outcome ServerError Unit}
    (h : (party codecs metadata).Moves (.returned result) s k' s') :
    k' = .returned result ∧ s' = s := by
  obtain ⟨plan, hmove⟩ := h
  cases hmove
  exact ⟨rfl, rfl⟩

end CreateCall

/-! ## Two creations -/

namespace CreateCall

/-- The call has the databases open, or has put them into the map. -/
def Owns : CreateCall → Prop
  | .insert _ => True
  | .returned result => result = .ok ()
  | .check | .makeDir | .writeMeta | .openIndex => False

/-- The call has passed its check and has not returned. -/
def Busy : CreateCall → Prop
  | .makeDir | .writeMeta | .openIndex | .insert _ => True
  | .check | .returned _ => False

/-- The call has not returned. -/
def Running : CreateCall → Prop
  | .check | .makeDir | .writeMeta | .openIndex | .insert _ => True
  | .returned _ => False

theorem Failed.not_owns {call : CreateCall} (h : call.Failed) : ¬ call.Owns := by
  obtain ⟨result, rfl, hne⟩ := h
  exact hne

theorem Failed.not_busy {call : CreateCall} (h : call.Failed) : ¬ call.Busy := by
  obtain ⟨result, rfl, -⟩ := h
  exact id

end CreateCall

/-- Who owns the databases holds them, and there is only one who does. -/
structure Exclusive (name : String) (a b : CreateCall) (s : OpenRegistry) : Prop where
  leftHeld : a.Owns → s.Held name
  rightHeld : b.Owns → s.Held name
  once : ¬ (a.Owns ∧ b.Owns)

theorem exclusive_init (name : String) (s : OpenRegistry) : Exclusive name .check .check s :=
  ⟨False.elim, False.elim, fun h => h.1⟩

section exclusive

variable {codecs : ServerCodecs} {metadata : CollectionMeta} {name : String}
  {a a' b : CreateCall} {s s' : OpenRegistry}

theorem Exclusive.symm (h : Exclusive name a b s) : Exclusive name b a s :=
  ⟨h.rightHeld, h.leftHeld, fun hboth => h.once hboth.symm⟩

theorem held_congr (h : (s'.dirAt name).holder = (s.dirAt name).holder) :
    s'.Held name ↔ s.Held name := by
  unfold Held
  rw [h]

/-- A call that does not own the databases cannot break anything. -/
theorem Exclusive.of_not_owns (h : Exclusive name a b s) (ha : ¬ a'.Owns)
    (hheld : (s'.dirAt name).holder = (s.dirAt name).holder) : Exclusive name a' b s' :=
  ⟨fun howns => absurd howns ha, fun howns => (held_congr hheld).mpr (h.rightHeld howns),
    fun hboth => ha hboth.1⟩

theorem dirAt_congr (hregistry : s'.registry = s.registry)
    (hdirs : ∀ path, s'.disk.dirAt path = s.disk.dirAt path) : s'.dirAt name = s.dirAt name := by
  unfold OpenRegistry.dirAt OpenRegistry.dirOf
  rw [hregistry, hdirs]

/-- A step of one call keeps the other out. -/
theorem Exclusive.move (h : Exclusive metadata.name a b s)
    (hmove : (CreateCall.party codecs metadata).Moves a s a' s') :
    Exclusive metadata.name a' b s' := by
  cases a with
  | check =>
    obtain ⟨rfl, ⟨rfl, -⟩ | hfailed⟩ := CreateCall.moves_check hmove
    · exact h.of_not_owns id rfl
    · exact h.of_not_owns hfailed.not_owns rfl
  | makeDir =>
    obtain ⟨hregistry, hdirs, hk⟩ := CreateCall.moves_makeDir hmove
    have hheld : (s'.dirAt metadata.name).holder = (s.dirAt metadata.name).holder :=
      congrArg CollectionDir.holder (dirAt_congr hregistry hdirs)
    rcases hk with rfl | hfailed
    · exact h.of_not_owns id hheld
    · exact h.of_not_owns hfailed.not_owns hheld
  | writeMeta =>
    obtain ⟨-, file, hdir, hk⟩ := CreateCall.moves_writeMeta hmove
    have hheld := congrArg CollectionDir.holder hdir
    rcases hk with ⟨rfl, -⟩ | hfailed
    · exact h.of_not_owns id hheld
    · exact h.of_not_owns hfailed.not_owns hheld
  | openIndex =>
    obtain ⟨-, ⟨kind, rfl, hholds, -⟩ | ⟨hfailed, hframe⟩⟩ := CreateCall.moves_openIndex hmove
    · -- the databases were free, so the other call did not own them
      have hfree : ¬ s.Held metadata.name := by simp [Held, hholds.1]
      have hheld : s'.Held metadata.name := by
        unfold Held
        rw [hholds.2.2.2]
        rfl
      exact ⟨fun _ => hheld, fun howns => absurd (h.rightHeld howns) hfree,
        fun hboth => hfree (h.rightHeld hboth.2)⟩
    · exact h.of_not_owns hfailed.not_owns hframe.2
  | insert kind =>
    -- a call that inserts has owned the databases since it opened them
    have hother : ¬ b.Owns := fun hb => h.once ⟨trivial, hb⟩
    rcases CreateCall.moves_insert hmove with ⟨rfl, -, hdir⟩ | ⟨hfailed, -, -⟩
    · have hheld := congrArg CollectionDir.holder hdir
      exact ⟨fun _ => (held_congr hheld).mpr (h.leftHeld trivial), fun hb => absurd hb hother,
        fun hboth => hother hboth.2⟩
    · exact ⟨fun howns => absurd howns hfailed.not_owns, fun hb => absurd hb hother,
        fun hboth => hother hboth.2⟩
  | returned result =>
    obtain ⟨rfl, rfl⟩ := CreateCall.moves_returned hmove
    exact h

end exclusive

/-- The metadata on disk is that of the registered handle. -/
def MetaOnDisk (codecs : ServerCodecs) (name : String) (s : OpenRegistry) : Prop :=
  ∀ handle, s.registry.map.get name = some handle →
    (s.disk.dirAt handle.dir).readMeta codecs = .ok handle.metadata

/-- The call writes its metadata only where nobody has the databases open, and
    where it opens free databases the metadata on disk is its own. -/
def Careful (codecs : ServerCodecs) (metadata : CollectionMeta) (call : CreateCall)
    (s : OpenRegistry) : Prop :=
  (call = .writeMeta → ¬ s.Held metadata.name) ∧
  (call = .openIndex → s.Held metadata.name ∨
    (s.dirAt metadata.name).readMeta codecs = .ok metadata)

/-- Who owns the databases has its metadata on disk. -/
structure Agreeing (codecs : ServerCodecs) (left right : CollectionMeta) (name : String)
    (a b : CreateCall) (s : OpenRegistry) : Prop extends Exclusive name a b s where
  leftMeta : a.Owns → (s.dirAt name).readMeta codecs = .ok left
  rightMeta : b.Owns → (s.dirAt name).readMeta codecs = .ok right
  leftFirst : a.Busy → (s.registry.map.get name).isSome = true → b.Owns
  rightFirst : b.Busy → (s.registry.map.get name).isSome = true → a.Owns
  onDisk : MetaOnDisk codecs name s

section agreeing

variable {codecs : ServerCodecs} {left right : CollectionMeta} {name : String}
  {a a' b : CreateCall} {s s' : OpenRegistry}

theorem agreeing_init (h : MetaOnDisk codecs name s) :
    Agreeing codecs left right name .check .check s :=
  { exclusive_init name s with
    leftMeta := False.elim
    rightMeta := False.elim
    leftFirst := False.elim
    rightFirst := False.elim
    onDisk := h }

theorem Agreeing.symm (h : Agreeing codecs left right name a b s) :
    Agreeing codecs right left name b a s :=
  { h.toExclusive.symm with
    leftMeta := h.rightMeta
    rightMeta := h.leftMeta
    leftFirst := h.rightFirst
    rightFirst := h.leftFirst
    onDisk := h.onDisk }

/-- A step that changes no metadata and no map, after which the call owns
    nothing. -/
theorem Agreeing.of_not_owns (h : Agreeing codecs left right name a b s)
    (hexclusive : Exclusive name a' b s') (hregistry : s'.registry = s.registry)
    (hfiles : ∀ path, (s'.disk.dirAt path).metaFile = (s.disk.dirAt path).metaFile)
    (ha : ¬ a'.Owns) (howned : a.Owns → ¬ (s.registry.map.get name).isSome = true)
    (hfirst : a'.Busy → (s.registry.map.get name).isSome = true → b.Owns) :
    Agreeing codecs left right name a' b s' := by
  have hread : ∀ path, (s'.disk.dirAt path).readMeta codecs = (s.disk.dirAt path).readMeta codecs :=
    fun path => CollectionDir.readMeta_congr (hfiles path)
  have hname : (s'.dirAt name).readMeta codecs = (s.dirAt name).readMeta codecs := by
    unfold OpenRegistry.dirAt OpenRegistry.dirOf
    rw [hregistry, hread]
  refine { hexclusive with
    leftMeta := ?_
    rightMeta := ?_
    leftFirst := ?_
    rightFirst := ?_
    onDisk := ?_ }
  · exact fun howns => absurd howns ha
  · exact fun howns => hname.trans (h.rightMeta howns)
  · rw [hregistry]
    exact hfirst
  · rw [hregistry]
    exact fun hbusy hthere => absurd hthere (howned (h.rightFirst hbusy hthere))
  · intro handle hhandle
    rw [hregistry] at hhandle
    exact (hread _).trans (h.onDisk handle hhandle)

/-- The metadata of every directory is as it was. -/
theorem sameFiles_of_elsewhere (helse : Elsewhere (s.dirOf name) s s')
    (hfile : (s'.dirAt name).metaFile = (s.dirAt name).metaFile) (path : Path) :
    (s'.disk.dirAt path).metaFile = (s.disk.dirAt path).metaFile := by
  by_cases hpath : path = s.dirOf name
  · have hdir : s'.dirOf name = s.dirOf name := dirOf_congr helse.1
    unfold OpenRegistry.dirAt at hfile
    rw [hdir] at hfile
    rw [hpath, hfile]
  · rw [helse.2 path hpath]

/-- A step of one call, carefully made, keeps the metadata with the databases. -/
theorem Agreeing.move (h : Agreeing codecs left right name a b s) (hname : left.name = name)
    (hmay : Careful codecs left a s) (hmove : (CreateCall.party codecs left).Moves a s a' s') :
    Agreeing codecs left right name a' b s' := by
  subst hname
  have hexclusive := h.toExclusive.move hmove
  cases a with
  | check =>
    obtain ⟨rfl, ⟨rfl, hnew⟩ | hfailed⟩ := CreateCall.moves_check hmove
    · -- the name is free, and stays so until somebody registers
      exact h.of_not_owns hexclusive rfl (fun _ => rfl) id (fun howns => howns.elim)
        fun _ hthere => absurd (Or.inr (Or.inr hthere)) hnew
    · exact h.of_not_owns hexclusive rfl (fun _ => rfl) hfailed.not_owns
        (fun howns => howns.elim) fun hbusy => absurd hbusy hfailed.not_busy
  | makeDir =>
    obtain ⟨hregistry, hdirs, rfl | hfailed⟩ := CreateCall.moves_makeDir hmove
    · exact h.of_not_owns hexclusive hregistry (fun path => by rw [hdirs]) id
        (fun howns => howns.elim) fun _ => h.leftFirst trivial
    · exact h.of_not_owns hexclusive hregistry (fun path => by rw [hdirs]) hfailed.not_owns
        (fun howns => howns.elim) fun _ => h.leftFirst trivial
  | writeMeta =>
    obtain ⟨helse, file, -, hk⟩ := CreateCall.moves_writeMeta hmove
    -- nobody holds the databases, so nobody owns them, and the name is free
    have hother : ¬ b.Owns := fun hb => hmay.1 rfl (h.rightHeld hb)
    have hfree : s.registry.map.get left.name = none := by
      rw [← Option.not_isSome_iff_eq_none]
      exact fun hthere => hother (h.leftFirst trivial hthere)
    have hfree' : s'.registry.map.get left.name = none := by rw [helse.1, hfree]
    refine { hexclusive with
      leftMeta := ?_
      rightMeta := fun hb => absurd hb hother
      leftFirst := fun _ hthere => by simp [hfree'] at hthere
      rightFirst := fun _ hthere => by simp [hfree'] at hthere
      onDisk := fun handle hhandle => by simp [hfree'] at hhandle }
    intro howns
    rcases hk with ⟨rfl, -⟩ | hfailed
    · exact howns.elim
    · exact absurd howns hfailed.not_owns
  | openIndex =>
    obtain ⟨helse, ⟨kind, rfl, hholds, -⟩ | ⟨hfailed, hframe⟩⟩ := CreateCall.moves_openIndex hmove
    · -- the databases were free, so the metadata is the call's own
      have hnotheld : ¬ s.Held left.name := by simp [Held, hholds.1]
      have hother : ¬ b.Owns := fun hb => hnotheld (h.rightHeld hb)
      have hfree : s.registry.map.get left.name = none := by
        rw [← Option.not_isSome_iff_eq_none]
        exact fun hthere => hother (h.leftFirst trivial hthere)
      have hfree' : s'.registry.map.get left.name = none := by rw [helse.1, hfree]
      have hown : (s.dirAt left.name).readMeta codecs = .ok left :=
        (hmay.2 rfl).resolve_left hnotheld
      exact { hexclusive with
        leftMeta := fun _ => (CollectionDir.readMeta_congr hholds.2.2.1).trans hown
        rightMeta := fun hb => absurd hb hother
        leftFirst := fun _ hthere => by simp [hfree'] at hthere
        rightFirst := fun _ hthere => by simp [hfree'] at hthere
        onDisk := fun handle hhandle => by simp [hfree'] at hhandle }
    · exact h.of_not_owns hexclusive helse.1 (sameFiles_of_elsewhere helse hframe.1)
        hfailed.not_owns (fun howns => howns.elim) fun hbusy => absurd hbusy hfailed.not_busy
  | insert kind =>
    have hother : ¬ b.Owns := fun hb => h.once ⟨trivial, hb⟩
    rcases CreateCall.moves_insert hmove with ⟨rfl, hregistry, hdir⟩ | ⟨hfailed, helse, hdir⟩
    · -- the new handle is the one whose metadata is on disk
      have hown : (s'.dirAt left.name).readMeta codecs = .ok left := by
        rw [hdir]
        exact h.leftMeta trivial
      refine { hexclusive with
        leftMeta := fun _ => hown
        rightMeta := fun hb => absurd hb hother
        leftFirst := fun hbusy => hbusy.elim
        rightFirst := fun _ _ => rfl
        onDisk := ?_ }
      intro handle hhandle
      have hhandle' : newHandle s left kind = handle := by
        rw [hregistry] at hhandle
        exact Option.some.inj ((OrderedTable.get_insert_self _ _ _).symm.trans hhandle)
      subst hhandle'
      have hdirOf := CreateCall.dirOf_registered hregistry left.name
      unfold OpenRegistry.dirAt at hown
      rw [hdirOf] at hown
      exact hown
    · apply h.of_not_owns hexclusive helse.1 (sameFiles_of_elsewhere helse ?_) hfailed.not_owns
        (fun _ hthere => hother (h.leftFirst trivial hthere))
        fun hbusy => absurd hbusy hfailed.not_busy
      rw [hdir]
      rfl
  | returned result =>
    obtain ⟨rfl, rfl⟩ := CreateCall.moves_returned hmove
    exact h

end agreeing

/-! ### A file written over -/

namespace CreateCall

variable {codecs : ServerCodecs} {metadata : CollectionMeta} {s : OpenRegistry}

theorem proceeds_check (h : ¬ Refused s metadata) :
    (party codecs metadata).Moves .check s .makeDir s := by
  obtain ⟨_, _, hmove, rfl⟩ := Party.moves_of_finishes (p := party codecs metadata) (k := .check)
    (f := fun _ => .makeDir) rfl (finishes_checkNew h)
  exact hmove

theorem proceeds_makeDir : (party codecs metadata).Moves .makeDir s .writeMeta
    (s.mkdirs (s.dirOf metadata.name)) := by
  obtain ⟨_, _, hmove, rfl⟩ := Party.moves_of_finishes (p := party codecs metadata)
    (k := .makeDir) (f := fun _ => .writeMeta) rfl (finishes_makeDir metadata s)
  exact hmove

theorem proceeds_writeMeta {dir : CollectionDir}
    (h : s.disk.dirs.get (s.dirOf metadata.name) = some dir) :
    (party codecs metadata).Moves .writeMeta s .openIndex (s.putDir (s.dirOf metadata.name)
      { dir with metaFile := some (codecs.metadata.encode metadata) }) := by
  obtain ⟨_, _, hmove, rfl⟩ := Party.moves_of_finishes (p := party codecs metadata)
    (k := .writeMeta) (f := fun _ => .openIndex) rfl (finishes_persistMeta h)
  exact hmove

theorem proceeds_openIndex (h : (s.dirAt metadata.name).Bare) : ∃ kind dir,
    (party codecs metadata).Moves .openIndex s (.insert kind)
      ((s.mkdirs (s.dirOf metadata.name)).putDir (s.dirOf metadata.name) dir) ∧
    dir.Serves codecs metadata kind ∧ dir.metaFile = (s.dirAt metadata.name).metaFile := by
  obtain ⟨kind, _, hmove, dir, rfl, hdir⟩ := Party.moves_of_finishes
    (p := party codecs metadata) (k := .openIndex) (f := .insert) rfl (finishes_instantiate h)
  exact ⟨kind, dir, hmove, hdir⟩

theorem proceeds_insert (hclean : s.registry.poisoned = false)
    (hnew : s.registry.map.get metadata.name = none) (kind : LiveKind) :
    (party codecs metadata).Moves (.insert kind) s (.returned (.ok ()))
      { s with registry := registered s metadata kind } := by
  obtain ⟨_, _, hmove, rfl⟩ := Party.moves_of_finishes (p := party codecs metadata)
    (k := .insert kind) (f := fun _ => .returned (.ok ())) rfl
    (finishes_register hclean hnew kind)
  exact hmove

/-- A flat index that is open is refused. -/
theorem refused_openIndex (hflat : metadata.indexType = .flat)
    (hheld : (s.dirAt metadata.name).holder = some .flat) :
    ∃ e, (party codecs metadata).Moves .openIndex s (.returned (.err e))
      ((s.mkdirs (s.dirOf metadata.name)).putDir (s.dirOf metadata.name)
        (s.dirAt metadata.name)) := by
  obtain ⟨e, s', hmove, rfl⟩ := Party.moves_of_fails (p := party codecs metadata)
    (k := .openIndex) (fails_bind (fails_instantiate hflat hheld))
  exact ⟨e, hmove _ rfl⟩

end CreateCall

section overwritten

variable {codecs : ServerCodecs} {metadata : CollectionMeta} {s : OpenRegistry}

/-- A call is careful where it neither writes its metadata nor opens files. -/
theorem careful_of_ne {call : CreateCall} (hwrite : call ≠ .writeMeta)
    (hopen : call ≠ .openIndex) : Careful codecs metadata call s :=
  ⟨fun h => absurd h hwrite, fun h => absurd h hopen⟩

/-- A call that comes as far as to hold the databases, while the other party
    stays where it is. -/
theorem runs_opened {ν : Type} (codecs : ServerCodecs)
    (other : Party ServerError OpenRegistry ν) (b : ν)
    (mayLeft mayRight : CreateCall → ν → OpenRegistry → Prop)
    (hmay : ∀ a t, Careful codecs metadata a t → mayLeft a b t)
    (hnew : ¬ Refused s metadata) (hbare : (s.dirAt metadata.name).Bare) :
    ∃ kind t, Relation.ReflTransGen
        (Interleaved (CreateCall.party codecs metadata) other mayLeft mayRight)
        (.check, b, s) (.insert kind, b, t) ∧
      t.registry = s.registry ∧ (t.dirAt metadata.name).holder = some metadata.indexType := by
  let D := s.dirOf metadata.name
  let first : CollectionDir :=
    { s.dirAt metadata.name with metaFile := some (codecs.metadata.encode metadata) }
  let s₂ := (s.mkdirs D).putDir D first
  have hfirst : s₂.dirAt metadata.name = first := FileSystem.dirAt_putDir
  have hbare₂ : (s₂.dirAt metadata.name).Bare := by
    rw [hfirst]
    exact ⟨hbare.flatDisk, hbare.hnswDisk, hbare.lexical, hbare.holder⟩
  have hfree : ¬ (s.mkdirs D).Held metadata.name := by
    have hsame : (s.mkdirs D).dirAt metadata.name = s.dirAt metadata.name :=
      FileSystem.dirAt_mkdirs
    unfold Held
    rw [hsame, hbare.holder]
    decide
  have hwritten : (s₂.dirAt metadata.name).readMeta codecs = .ok metadata := by
    rw [hfirst]
    exact CollectionDir.readMeta_of_encode rfl
  have hwrite := @CreateCall.proceeds_writeMeta codecs metadata (s.mkdirs D)
    (s.dirAt metadata.name) FileSystem.get_mkdirs_self
  obtain ⟨kind, dir, hopen, hserves, -⟩ := @CreateCall.proceeds_openIndex codecs metadata s₂ hbare₂
  refine ⟨kind, (s₂.mkdirs D).putDir D dir, ?_, rfl, ?_⟩
  · have hstart : Relation.ReflTransGen
        (Interleaved (CreateCall.party codecs metadata) other mayLeft mayRight)
        (.check, b, s) (.makeDir, b, s) :=
      .single (.left (hmay _ _ (careful_of_ne (by simp) (by simp)))
        (CreateCall.proceeds_check hnew))
    have hmade := hstart.tail (.left (hmay _ _ (careful_of_ne (by simp) (by simp)))
      CreateCall.proceeds_makeDir)
    -- nobody holds the databases when the metadata is written, which is still
    -- there when they are opened
    have hput := hmade.tail (.left (hmay _ _ ⟨fun _ => hfree, fun h => (by cases h)⟩) hwrite)
    exact hput.tail (.left (hmay _ _ ⟨fun h => (by cases h), fun _ => Or.inr hwritten⟩) hopen)
  · exact (congrArg CollectionDir.holder FileSystem.dirAt_putDir).trans hserves.holder

/-- A call that comes through while the other party stays where it is. -/
theorem runs_created {ν : Type} (codecs : ServerCodecs)
    (other : Party ServerError OpenRegistry ν) (b : ν)
    (mayLeft mayRight : CreateCall → ν → OpenRegistry → Prop)
    (hmay : ∀ a t, Careful codecs metadata a t → mayLeft a b t)
    (hnew : ¬ Refused s metadata) (hbare : (s.dirAt metadata.name).Bare) :
    ∃ s', Relation.ReflTransGen
        (Interleaved (CreateCall.party codecs metadata) other mayLeft mayRight)
        (.check, b, s) (.returned (.ok ()), b, s') ∧
      (s'.registry.map.get metadata.name).isSome = true := by
  obtain ⟨hclean, hmissing⟩ := not_refused hnew
  obtain ⟨kind, t, hrun, hregistry, -⟩ :=
    runs_opened codecs other b mayLeft mayRight hmay hnew hbare
  rw [← hregistry] at hclean hmissing
  have hinsert := @CreateCall.proceeds_insert codecs metadata t hclean hmissing kind
  refine ⟨_, hrun.tail (.left (hmay _ _ (careful_of_ne (by simp) (by simp))) hinsert), ?_⟩
  exact Option.isSome_iff_exists.mpr ⟨_, OrderedTable.get_insert_self _ _ _⟩

/-- A call that writes its metadata where the databases are open, and is then
    refused. -/
theorem runs_refused {κ : Type} (codecs : ServerCodecs)
    (other : Party ServerError OpenRegistry κ) (a : κ) (hflat : metadata.indexType = .flat)
    (hnew : ¬ Refused s metadata) (hheld : (s.dirAt metadata.name).holder = some .flat) :
    ∃ e t, Relation.ReflTransGen
        (Interleaved other (CreateCall.party codecs metadata) Anytime Anytime)
        (a, .check, s) (a, .returned (.err e), t) ∧
      t.registry = s.registry ∧
      (t.dirAt metadata.name).metaFile = some (codecs.metadata.encode metadata) := by
  let D := s.dirOf metadata.name
  let second : CollectionDir :=
    { s.dirAt metadata.name with metaFile := some (codecs.metadata.encode metadata) }
  let s₂ := (s.mkdirs D).putDir D second
  have hsecond : s₂.dirAt metadata.name = second := FileSystem.dirAt_putDir
  have hwrite := @CreateCall.proceeds_writeMeta codecs metadata (s.mkdirs D)
    (s.dirAt metadata.name) FileSystem.get_mkdirs_self
  have hheld₂ : (s₂.dirAt metadata.name).holder = some .flat :=
    (congrArg CollectionDir.holder hsecond).trans hheld
  obtain ⟨e, hrefused⟩ := @CreateCall.refused_openIndex codecs metadata s₂ hflat hheld₂
  refine ⟨e, (s₂.mkdirs D).putDir D (s₂.dirAt metadata.name), ?_, rfl, ?_⟩
  · have hstart : Relation.ReflTransGen
        (Interleaved other (CreateCall.party codecs metadata) Anytime Anytime)
        (a, .check, s) (a, .makeDir, s) :=
      .single (.right trivial (CreateCall.proceeds_check hnew))
    have hmade := hstart.tail (.right trivial CreateCall.proceeds_makeDir)
    exact (hmade.tail (.right trivial hwrite)).tail (.right trivial hrefused)
  · exact congrArg CollectionDir.metaFile
      ((@FileSystem.dirAt_putDir D (s₂.mkdirs D).disk _).trans hsecond)

/-- A call writes its metadata where the other has the databases open. -/
theorem exists_overwritten (codecs : ServerCodecs) (hflat : metadata.indexType = .flat) (metric : Metric)
    (hnew : ¬ Refused s metadata) (hbare : (s.dirAt metadata.name).Bare) :
    ∃ e s' handle, Relation.ReflTransGen
        (Interleaved (CreateCall.party codecs metadata)
          (CreateCall.party codecs { metadata with metric := metric }) Anytime Anytime)
        (.check, .check, s) (.returned (.ok ()), .returned (.err e), s') ∧
      s'.registry.map.get metadata.name = some handle ∧ handle.metadata = metadata ∧
      (s'.disk.dirAt handle.dir).readMeta codecs = .ok { metadata with metric := metric } := by
  obtain ⟨hclean, hmissing⟩ := not_refused hnew
  obtain ⟨kind, t, hopened, hregistry, hheld⟩ := runs_opened codecs
    (CreateCall.party codecs { metadata with metric := metric }) .check Anytime Anytime
    (fun _ _ _ => trivial) hnew hbare
  -- the map does not know of the first call yet
  have hnew' : ¬ Refused t { metadata with metric := metric } := by
    unfold Refused
    rw [hregistry]
    exact hnew
  obtain ⟨e, t', hrefused, hregistry', hfile⟩ := @runs_refused { metadata with metric := metric }
    t CreateCall codecs (CreateCall.party codecs metadata) (.insert kind) hflat hnew'
    (hheld.trans (congrArg some hflat))
  rw [← hregistry, ← hregistry'] at hclean hmissing
  have hinsert := @CreateCall.proceeds_insert codecs metadata t' hclean hmissing kind
  refine ⟨e, { t' with registry := registered t' metadata kind }, newHandle t' metadata kind,
    (hopened.trans hrefused).tail (.left trivial hinsert),
    OrderedTable.get_insert_self _ _ _, rfl, ?_⟩
  exact CollectionDir.readMeta_of_encode hfile

theorem isValidName_notes (metric : Metric) : isValidName (notesMeta metric).name = true := by
  have hname : isValidName "notes" = true := by decide +kernel
  exact hname

theorem not_refused_notes (metric : Metric) : ¬ Refused (fresh ["data"]) (notesMeta metric) :=
  not_refused_fresh (isValidName_notes metric)

theorem bare_notes (metric : Metric) :
    ((fresh ["data"]).dirAt (notesMeta metric).name).Bare :=
  bare_fresh ["data"] _

end overwritten

/-! ## A creation and a removal -/

namespace DropCall

variable {name : String} {s s' : OpenRegistry} {k' : DropCall}

theorem returned_of_halted (h : ∃ r, (party name).halted r = some k') :
    ∃ result, k' = .returned result := by
  obtain ⟨r, hr⟩ := h
  obtain ⟨o, -, rfl⟩ := Option.map_eq_some_iff.mp hr
  exact ⟨o, rfl⟩

theorem moves_unregister (h : (party name).Moves .unregister s k' s') :
    (k' = unregistered (s.registry.map.get name) ∧ s' = { s with registry :=
      { s.registry with map := s.registry.map.erase name } }) ∨
    ((∃ result, k' = .returned result) ∧ s' = s) := by
  have hleaves : Leaves (Registry.unregister name) s
      (fun handle t => handle = s.registry.map.get name ∧ t = { s with registry :=
        { s.registry with map := s.registry.map.erase name } })
      (fun t => t = s) := by
    rintro w rfl
    exact ends_unregister name w
  rcases Party.moves_bind (f := unregistered) rfl h hleaves
    with ⟨_, hk, rfl, hs⟩ | ⟨hhalt, hs⟩
  · exact Or.inl ⟨hk, hs⟩
  · exact Or.inr ⟨returned_of_halted hhalt, hs⟩

theorem moves_removeDir {handle : Handle} (h : (party name).Moves (.removeDir handle) s k' s') :
    (∃ result, k' = .returned result) ∧ s'.registry = s.registry ∧
      Spares handle.dir s.disk s'.disk := by
  have hleaves : Leaves (Registry.removeDir handle) s
      (fun _ t => t.registry = s.registry ∧ Spares handle.dir s.disk t.disk)
      (fun t => t.registry = s.registry ∧ Spares handle.dir s.disk t.disk) := by
    rintro w rfl
    exact ends_of_keeps keeps_removeDir ⟨rfl, fun _ _ => rfl⟩
  rcases Party.moves_bind (f := fun removed => .returned (.ok removed)) rfl h hleaves
    with ⟨removed, hk, hs⟩ | ⟨hhalt, hs⟩
  · exact ⟨⟨_, hk⟩, hs⟩
  · exact ⟨returned_of_halted hhalt, hs⟩

/-- A call that has returned stays where it is. -/
theorem moves_returned {result : Outcome ServerError Bool}
    (h : (party name).Moves (.returned result) s k' s') : k' = .returned result ∧ s' = s := by
  obtain ⟨plan, hmove⟩ := h
  cases hmove
  exact ⟨rfl, rfl⟩

end DropCall

/-- The metadata and the files of the collection are in its directory. -/
structure Complete (codecs : ServerCodecs) (metadata : CollectionMeta) (s : OpenRegistry) :
    Prop where
  written : (s.dirAt metadata.name).readMeta codecs = .ok metadata
  files : (s.dirAt metadata.name).There metadata.indexType

/-- The removal of a directory that holds that of the name does not come between
    the writing of the metadata and the opening of the files. -/
def Waits (metadata : CollectionMeta) (c : CreateCall) (d : DropCall) (s : OpenRegistry) : Prop :=
  ∀ handle, d = .removeDir handle → handle.dir <+: s.dirOf metadata.name → c ≠ .openIndex

/-- What makes a new collection last: a directory that is going to be removed is
    held until then, or the `create` call is over. -/
structure Lasting (codecs : ServerCodecs) (metadata : CollectionMeta) (D : Path) (c : CreateCall)
    (d : DropCall) (s : OpenRegistry) : Prop where
  here : s.dirOf metadata.name = D
  written : c = .openIndex → (s.dirAt metadata.name).readMeta codecs = .ok metadata
  opened : ∀ kind, c = .insert kind → Complete codecs metadata s ∧
    ∀ handle, d = .removeDir handle → ¬ handle.dir <+: D
  kept : c = .returned (.ok ()) → (s.registry.map.get metadata.name).isSome = true →
    Complete codecs metadata s ∧ ∀ handle, d = .removeDir handle → ¬ handle.dir <+: D
  removing : ∀ handle, d = .removeDir handle → handle.dir <+: D → c.Running →
    s.Held metadata.name
  free : d = .unregister → c.Busy → s.registry.map.get metadata.name = none
  start : d = .unregister → c = .check → ∀ handle,
    s.registry.map.get metadata.name = some handle → handle.dir <+: D → s.Held metadata.name

section lasting

variable {codecs : ServerCodecs} {metadata : CollectionMeta} {D : Path} {c c' : CreateCall}
  {d d' : DropCall} {s s' : OpenRegistry}

theorem Complete.congr (h : Complete codecs metadata s)
    (hdir : s'.dirAt metadata.name = s.dirAt metadata.name) : Complete codecs metadata s' := by
  refine ⟨?_, ?_⟩
  · rw [hdir]
    exact h.written
  · rw [hdir]
    exact h.files

theorem lasting_init (h : ∀ handle, s.registry.map.get metadata.name = some handle →
      handle.dir <+: s.dirOf metadata.name → s.Held metadata.name) :
    Lasting codecs metadata (s.dirOf metadata.name) .check .unregister s where
  here := rfl
  written hc := nomatch hc
  opened _ hc := nomatch hc
  kept hc := nomatch hc
  removing _ hd := nomatch hd
  free _ hbusy := hbusy.elim
  start _ _ := h

/-- A call that has failed leaves nothing that has to last. -/
theorem lasting_of_failed (here : s.dirOf metadata.name = D) (hc : c.Failed) :
    Lasting codecs metadata D c d s := by
  obtain ⟨result, rfl, hne⟩ := hc
  exact
    { here := here
      written := fun hc => nomatch hc
      opened := fun _ hc => nomatch hc
      kept := fun hc => absurd (CreateCall.returned.inj hc) hne
      removing := fun _ _ _ hrunning => hrunning.elim
      free := fun _ hbusy => hbusy.elim
      start := fun _ hc => nomatch hc }

/-- A step of the creation. -/
theorem Lasting.create (h : Lasting codecs metadata D c d s)
    (hmove : (CreateCall.party codecs metadata).Moves c s c' s') :
    Lasting codecs metadata D c' d s' := by
  cases c with
  | check =>
    obtain ⟨rfl, ⟨rfl, hnew⟩ | hfailed⟩ := CreateCall.moves_check hmove
    · -- the name is free, so a removal that comes finds nothing to remove
      exact
        { here := h.here
          written := fun hc => nomatch hc
          opened := fun _ hc => nomatch hc
          kept := fun hc => nomatch hc
          removing := fun handle hd hbelow _ => h.removing handle hd hbelow trivial
          free := fun _ _ => (not_refused hnew).2
          start := fun _ hc => nomatch hc }
    · exact lasting_of_failed h.here hfailed
  | makeDir =>
    obtain ⟨hregistry, hdirs, hk⟩ := CreateCall.moves_makeDir hmove
    have here : s'.dirOf metadata.name = D :=
      (dirOf_congr hregistry).trans h.here
    have hheld : (s'.dirAt metadata.name).holder = (s.dirAt metadata.name).holder :=
      congrArg CollectionDir.holder (dirAt_congr hregistry hdirs)
    rcases hk with rfl | hfailed
    · exact
        { here := here
          written := fun hc => nomatch hc
          opened := fun _ hc => nomatch hc
          kept := fun hc => nomatch hc
          removing := fun handle hd hbelow _ =>
            (held_congr hheld).mpr (h.removing handle hd hbelow trivial)
          free := fun hd _ => by rw [hregistry]; exact h.free hd trivial
          start := fun _ hc => nomatch hc }
    · exact lasting_of_failed here hfailed
  | writeMeta =>
    obtain ⟨helse, file, hdir, hk⟩ := CreateCall.moves_writeMeta hmove
    have here : s'.dirOf metadata.name = D :=
      (dirOf_congr helse.1).trans h.here
    have hheld : (s'.dirAt metadata.name).holder = (s.dirAt metadata.name).holder :=
      by rw [hdir]
    rcases hk with ⟨rfl, hfile⟩ | hfailed
    · exact
        { here := here
          written := fun _ => CollectionDir.readMeta_of_encode (by rw [hdir]; exact hfile)
          opened := fun _ hc => nomatch hc
          kept := fun hc => nomatch hc
          removing := fun handle hd hbelow _ =>
            (held_congr hheld).mpr (h.removing handle hd hbelow trivial)
          free := fun hd _ => by rw [helse.1]; exact h.free hd trivial
          start := fun _ hc => nomatch hc }
    · exact lasting_of_failed here hfailed
  | openIndex =>
    obtain ⟨helse, hk⟩ := CreateCall.moves_openIndex hmove
    have here : s'.dirOf metadata.name = D :=
      (dirOf_congr helse.1).trans h.here
    rcases hk with ⟨kind, rfl, hholds, hthere⟩ | ⟨hfailed, -⟩
    · -- the databases were free, so nobody is going to remove the directory
      have hfree : ¬ s.Held metadata.name := by simp [Held, hholds.1]
      have hspared : ∀ handle, d = .removeDir handle → ¬ handle.dir <+: D :=
        fun handle hd hbelow => hfree (h.removing handle hd hbelow trivial)
      exact
        { here := here
          written := fun hc => nomatch hc
          opened := fun _ _ =>
            ⟨⟨(CollectionDir.readMeta_congr hholds.2.2.1).trans (h.written rfl), hthere⟩, hspared⟩
          kept := fun hc => nomatch hc
          removing := fun handle hd hbelow _ => absurd hbelow (hspared handle hd)
          free := fun hd _ => by rw [helse.1]; exact h.free hd trivial
          start := fun _ hc => nomatch hc }
    · exact lasting_of_failed here hfailed
  | insert kind =>
    obtain ⟨hcomplete, hspared⟩ := h.opened kind rfl
    rcases CreateCall.moves_insert hmove with ⟨rfl, hregistry, hdir⟩ | ⟨hfailed, helse, -⟩
    · exact
        { here := (CreateCall.dirOf_registered hregistry _).trans h.here
          written := fun hc => nomatch hc
          opened := fun _ hc => nomatch hc
          kept := fun _ _ => ⟨hcomplete.congr hdir, hspared⟩
          removing := fun _ _ _ hrunning => hrunning.elim
          free := fun _ hbusy => hbusy.elim
          start := fun _ hc => nomatch hc }
    · exact lasting_of_failed
        ((dirOf_congr helse.1).trans h.here) hfailed
  | returned result =>
    obtain ⟨rfl, rfl⟩ := CreateCall.moves_returned hmove
    exact h

/-- A step of the removal, which waits for files to be opened. -/
theorem Lasting.drop (h : Lasting codecs metadata D c d s) (hmay : Waits metadata c d s)
    (hmove : (DropCall.party metadata.name).Moves d s d' s') :
    Lasting codecs metadata D c d' s' := by
  cases d with
  | unregister =>
    rcases DropCall.moves_unregister hmove with ⟨rfl, rfl⟩ | ⟨⟨result, rfl⟩, rfl⟩
    · -- what the map gives up is going to be removed
      have htaken : ∀ handle, DropCall.unregistered (s.registry.map.get metadata.name) =
          .removeDir handle → s.registry.map.get metadata.name = some handle := by
        intro handle hd
        cases hget : s.registry.map.get metadata.name with
        | none =>
          rw [hget] at hd
          cases hd
        | some taken =>
          rw [hget] at hd
          cases hd
          rfl
      have hnone : c.Busy → ∀ handle, DropCall.unregistered
          (s.registry.map.get metadata.name) ≠ .removeDir handle := by
        intro hbusy handle hd
        have hget := htaken handle hd
        rw [h.free rfl hbusy] at hget
        cases hget
      refine
        { here := h.here
          written := h.written
          opened := ?_
          kept := ?_
          removing := ?_
          free := ?_
          start := ?_ }
      · rintro kind rfl
        exact ⟨(h.opened kind rfl).1.congr rfl, fun handle hd => absurd hd (hnone trivial handle)⟩
      · intro _ hthere
        dsimp only at hthere
        rw [OrderedTable.get_erase, if_pos rfl] at hthere
        cases hthere
      · -- the handle is in use until its directory is gone
        intro handle hd hbelow hrunning
        by_cases hbusy : c.Busy
        · exact absurd hd (hnone hbusy handle)
        · have hcheck : c = .check := by
            cases c <;> first | rfl | exact absurd trivial hbusy | exact hrunning.elim
          exact h.start rfl hcheck handle (htaken handle hd) hbelow
      · intro hd
        cases hget : s.registry.map.get metadata.name <;> rw [hget] at hd <;> cases hd
      · intro hd
        cases hget : s.registry.map.get metadata.name <;> rw [hget] at hd <;> cases hd
    · exact
        { here := h.here
          written := h.written
          opened := fun kind hc => ⟨(h.opened kind hc).1, fun _ hd => nomatch hd⟩
          kept := fun hc hthere => ⟨(h.kept hc hthere).1, fun _ hd => nomatch hd⟩
          removing := fun _ hd => nomatch hd
          free := fun hd => nomatch hd
          start := fun hd => nomatch hd }
  | removeDir handle =>
    obtain ⟨⟨result, rfl⟩, hregistry, hspares⟩ := DropCall.moves_removeDir hmove
    have here : s'.dirOf metadata.name = D :=
      (dirOf_congr hregistry).trans h.here
    have hdir : ¬ handle.dir <+: D → s'.dirAt metadata.name = s.dirAt metadata.name := by
      intro hother
      unfold OpenRegistry.dirAt
      rw [here, h.here]
      exact hspares D hother
    refine
      { here := here
        written := ?_
        opened := ?_
        kept := ?_
        removing := fun _ hd => nomatch hd
        free := fun hd => nomatch hd
        start := fun hd => nomatch hd }
    · intro hc
      -- the only place where the guard is used
      have hother : ¬ handle.dir <+: D := by
        intro hbelow
        rw [← h.here] at hbelow
        exact hmay handle rfl hbelow hc
      rw [hdir hother]
      exact h.written hc
    · intro kind hc
      obtain ⟨hcomplete, hspared⟩ := h.opened kind hc
      exact ⟨hcomplete.congr (hdir (hspared handle rfl)), fun _ hd => nomatch hd⟩
    · intro hc hthere
      rw [hregistry] at hthere
      obtain ⟨hcomplete, hspared⟩ := h.kept hc hthere
      exact ⟨hcomplete.congr (hdir (hspared handle rfl)), fun _ hd => nomatch hd⟩
  | returned result =>
    obtain ⟨rfl, rfl⟩ := DropCall.moves_returned hmove
    exact h

namespace DropCall

variable {name : String} {s : OpenRegistry}

theorem proceeds_unregister (hclean : s.registry.poisoned = false) (name : String) :
    (party name).Moves .unregister s (unregistered (s.registry.map.get name)) { s with registry :=
      { s.registry with map := s.registry.map.erase name } } := by
  obtain ⟨_, _, hmove, rfl, rfl⟩ := Party.moves_of_finishes (p := party name) (k := .unregister)
    (f := unregistered) rfl (finishes_unregister hclean name)
  exact hmove

theorem proceeds_removeDir {handle : Handle} (h : (s.disk.dirs.get handle.dir).isSome = true) :
    (party name).Moves (.removeDir handle) s (.returned (.ok true))
      { s with disk := s.disk.without handle.dir } := by
  obtain ⟨_, _, hmove, rfl, rfl⟩ := Party.moves_of_finishes (p := party name)
    (k := .removeDir handle) (f := fun removed => .returned (.ok removed)) rfl
    (finishes_removeDir h)
  exact hmove

end DropCall

/-- A directory is removed after the metadata of a new collection has been
    written there. -/
theorem exists_removed (codecs : ServerCodecs) {handle : Handle} (hvalid : isValidName metadata.name = true)
    (hclean : s.registry.poisoned = false)
    (hhandle : s.registry.map.get metadata.name = some handle)
    (hdir : handle.dir = s.dirOf metadata.name) :
    ∃ s', Relation.ReflTransGen (Interleaved (CreateCall.party codecs metadata)
        (DropCall.party metadata.name) Anytime Anytime) (.check, .unregister, s)
        (.returned (.ok ()), .returned (.ok true), s') ∧
      (s'.registry.map.get metadata.name).isSome = true ∧
      (s'.dirAt metadata.name).metaFile = none := by
  let D := s.dirOf metadata.name
  let s₁ : OpenRegistry :=
    { s with registry := { s.registry with map := s.registry.map.erase metadata.name } }
  have hmissing : s₁.registry.map.get metadata.name = none := by
    show (s.registry.map.erase metadata.name).get metadata.name = none
    rw [OrderedTable.get_erase, if_pos rfl]
  have hnew : ¬ Refused s₁ metadata := by
    rintro (hinvalid | hpoisoned | hthere)
    · rw [hvalid] at hinvalid
      cases hinvalid
    · exact absurd (hpoisoned.symm.trans hclean) (by decide)
    · rw [hmissing] at hthere
      cases hthere
  have hunregister := DropCall.proceeds_unregister hclean metadata.name
  rw [hhandle] at hunregister
  have hwrite := @CreateCall.proceeds_writeMeta codecs metadata (s₁.mkdirs D)
    (s.dirAt metadata.name) FileSystem.get_mkdirs_self
  let s₃ := (s₁.mkdirs D).putDir D
    { s.dirAt metadata.name with metaFile := some (codecs.metadata.encode metadata) }
  have hremove := @DropCall.proceeds_removeDir metadata.name s₃ handle (by
    rw [hdir]
    exact congrArg Option.isSome (FileSystem.get_putDir.trans (if_pos rfl)))
  let s₄ : OpenRegistry := { s₃ with disk := s₃.disk.without handle.dir }
  -- the files are made anew, the metadata is gone
  have hempty : s₄.dirAt metadata.name = .empty := by
    apply FileSystem.dirAt_of_none
    show (s₃.disk.without handle.dir).dirs.get D = none
    rw [FileSystem.get_without, hdir, if_pos (List.prefix_refl _)]
  obtain ⟨kind, dir, hopen, -, hfile⟩ := @CreateCall.proceeds_openIndex codecs metadata s₄ (by
    rw [hempty]
    exact ⟨rfl, rfl, rfl, rfl⟩)
  rw [hempty] at hfile
  let s₅ := (s₄.mkdirs D).putDir D dir
  have hinsert := @CreateCall.proceeds_insert codecs metadata s₅ hclean hmissing kind
  refine ⟨{ s₅ with registry := registered s₅ metadata kind }, ?_, ?_, ?_⟩
  · have hstart : Relation.ReflTransGen (Interleaved (CreateCall.party codecs metadata)
        (DropCall.party metadata.name) Anytime Anytime)
        (.check, .unregister, s) (.makeDir, .removeDir handle, s₁) :=
      (Relation.ReflTransGen.single (.right trivial hunregister)).tail
        (.left trivial (CreateCall.proceeds_check hnew))
    have hwritten := ((hstart.tail (.left trivial CreateCall.proceeds_makeDir)).tail
      (.left trivial hwrite)).tail (.right trivial hremove)
    exact (hwritten.tail (.left trivial hopen)).tail (.left trivial hinsert)
  · exact Option.isSome_iff_exists.mpr ⟨_, OrderedTable.get_insert_self _ _ _⟩
  · exact (congrArg CollectionDir.metaFile FileSystem.dirAt_putDir).trans hfile

end lasting

end EidosDB
