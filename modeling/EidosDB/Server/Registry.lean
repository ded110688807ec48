import EidosDB.Server.CollectionDir

/-! # The Registry

    The registry is a map from names to the handles of open collections,
    behind a lock, over a root directory with a subdirectory for each.  A
    collection is created in five steps: the name is checked against the map,
    its directory is made, its metadata is written, its stores are opened,
    and the handle is put into the map.  Only the first and the last step
    hold the lock.  A collection is dropped in two: its handle is taken out
    of the map, and its directory is removed. -/

namespace EidosDB

open Effect

/-! ## Paths -/

/-- The parts of an absolute path, resolved. -/
abbrev Path := List String

namespace Path

/-- One part of a path, as the file system resolves it. -/
def enter (path : Path) (part : String) : Path :=
  if part = "" ∨ part = "." then path
  else if part = ".." then path.dropLast
  else path ++ [part]

/-- `Path::join`, resolved: a name that starts with a separator replaces the
    path before it. -/
def join (path : Path) (name : String) : Path :=
  let parts := (name.toList.splitOn '/').map String.ofList
  parts.foldl enter (if name.toList.head? = some '/' then [] else path)

end Path

/-- `char::is_ascii_alphanumeric` -/
def isAsciiAlphanumeric (c : Char) : Bool :=
  decide ('a' ≤ c ∧ c ≤ 'z') || decide ('A' ≤ c ∧ c ≤ 'Z') || decide ('0' ≤ c ∧ c ≤ '9')

/-- `is_valid_name` -/
def isValidName (name : String) : Bool :=
  !name.isEmpty && decide (name.utf8ByteSize ≤ 64) &&
    name.toList.all fun c => isAsciiAlphanumeric c || c == '_' || c == '-'

/-! ## The file system -/

/-- The directories that are there, with the files the server keeps in them.
    The `vector` subdirectory of a collection is part of its directory. -/
structure FileSystem where
  dirs : OrderedTable Path CollectionDir

namespace FileSystem

/-- The directory at `path`; it has no files if it is missing. -/
def dirAt (path : Path) (self : FileSystem) : CollectionDir := (self.dirs.get path).getD .empty

def putDir (path : Path) (dir : CollectionDir) (self : FileSystem) : FileSystem :=
  { dirs := self.dirs.insert path dir }

/-- `mkdir` for a path that is missing. -/
def addMissing (self : FileSystem) (path : Path) : FileSystem :=
  if (self.dirs.get path).isSome then self else self.putDir path .empty

/-- The path is there, and what is above it. -/
def mkdirs (path : Path) (self : FileSystem) : FileSystem := path.inits.foldl addMissing self

/-- `create_dir_all`: the path and what is missing above it. -/
def createDirAll {ε : Type} (e : ε) (path : Path) : Effect ε FileSystem Unit :=
  durable e (mkdirs path)

/-- The path is gone, and everything below it. -/
def without (path : Path) (self : FileSystem) : FileSystem :=
  { dirs := self.dirs.filter fun other _ => !path.isPrefixOf other }

/-- `remove_dir_all` -/
def removeDirAll (path : Path) : Effect ServerError FileSystem Unit := do
  let self ← get
  if (self.dirs.get path).isNone then throw IoError.notFound.toServerError
  else
    durable IoError.other.toServerError (without path)

/-- A program in the directory at `path`, which is there. -/
def inDir {ε α : Type} (path : Path) (m : Effect ε CollectionDir α) : Effect ε FileSystem α :=
  zoom (dirAt path) (putDir path) m

/-- The handle of the collection at `path` lets go of its databases. -/
def letGo (path : Path) (self : FileSystem) : FileSystem :=
  match self.dirs.get path with
  | none => self
  | some dir => self.putDir path (dir.heldBy none)

/-- The file system after the process has ended: nothing is held. -/
def closed (self : FileSystem) : FileSystem :=
  { dirs := self.dirs.mapValues (CollectionDir.heldBy none) }

variable (codecs : ServerCodecs)

/-- `write_meta` in a directory that may be missing. -/
def writeMeta (path : Path) (metadata : CollectionMeta) : Effect ServerError FileSystem Unit := do
  let self ← get
  -- writing a file does not make its directory
  if (self.dirs.get path).isNone then throw IoError.notFound.toServerError
  else inDir path (CollectionDir.writeMeta codecs metadata)

/-- The collection of a new handle.  Both constructors begin with the
    directory of the vector index and make what is missing above it. -/
def instantiate (path : Path) (metadata : CollectionMeta) :
    Effect ServerError FileSystem LiveKind := do
  createDirAll StorageError.ioFailure.toServerError path
  inDir path (CollectionDir.instantiate codecs metadata)

end FileSystem

/-! ## The registry -/

namespace Registry

/-- `CollectionHandle` -/
structure Handle where
  kind : LiveKind
  metadata : CollectionMeta
  dir : Path

end Registry

/-- `Registry`: the map may be poisoned. -/
structure Registry where
  root : Path
  map : OrderedTable String Registry.Handle
  poisoned : Bool

/-- A registry with the file system it works on. -/
structure OpenRegistry where
  disk : FileSystem
  registry : Registry

namespace Registry

/-- `Registry::new` -/
def new (root : Path) : Registry := { root := root, map := .empty, poisoned := false }

/-- The directory of a name. -/
def dirOf (self : Registry) (name : String) : Path := self.root.join name

/-- What a handle tells of its collection. -/
def Handle.summary (self : Handle) : CollectionMeta × IndexTypeChoice :=
  (self.metadata, self.kind.indexType)

def onDisk {α : Type} (m : Effect ServerError FileSystem α) : Effect ServerError OpenRegistry α :=
  zoom OpenRegistry.disk (fun disk self => { self with disk := disk }) m

/-- The map behind its lock. -/
def locked : Effect ServerError OpenRegistry Registry := do
  let self ← get
  if self.registry.poisoned then throw (.storage "lock poisoned")
  else pure self.registry

def setMap (map : OrderedTable String Handle) : Effect ServerError OpenRegistry Unit :=
  modify fun self => { self with registry := { self.registry with map := map } }

variable (codecs : ServerCodecs)

/-! ### Creating -/

/-- Steps 1 and 2 of `create`. -/
def checkNew (metadata : CollectionMeta) : Effect ServerError OpenRegistry Unit :=
  if isValidName metadata.name then do
    -- the lock is given back with the answer
    let registry ← locked
    if (registry.map.get metadata.name).isSome then throw (.alreadyExists metadata.name)
    else pure ()
  else throw (.badName metadata.name)

/-- Step 3 -/
def makeDir (metadata : CollectionMeta) : Effect ServerError OpenRegistry Unit := do
  let self ← get
  onDisk (FileSystem.createDirAll IoError.other.toServerError (self.registry.dirOf metadata.name))

/-- Step 4 -/
def persistMeta (metadata : CollectionMeta) : Effect ServerError OpenRegistry Unit := do
  let self ← get
  onDisk (FileSystem.writeMeta codecs (self.registry.dirOf metadata.name) metadata)

/-- Step 5 -/
def instantiate (metadata : CollectionMeta) : Effect ServerError OpenRegistry LiveKind := do
  let self ← get
  onDisk (FileSystem.instantiate codecs (self.registry.dirOf metadata.name) metadata)

/-- A handle that is no longer in use lets go of its databases; `kept` is held
    by another. -/
def dropHandle (handle : Option Handle) (kept : Option Path) (disk : FileSystem) : FileSystem :=
  match handle with
  | none => disk
  | some handle => if some handle.dir = kept then disk else disk.letGo handle.dir

/-- Step 6.  A handle that finds the lock poisoned is dropped, and so is one
    that is replaced. -/
def register (metadata : CollectionMeta) (kind : LiveKind) :
    Effect ServerError OpenRegistry Unit := do
  let self ← get
  let dir := self.registry.dirOf metadata.name
  let handle : Handle := { kind := kind, metadata := metadata, dir := dir }
  if self.registry.poisoned then do
    onDisk (modify (dropHandle (some handle) none))
    throw (.storage "lock poisoned")
  else do
    -- the map is not asked again: what it has for the name by now is replaced
    setMap (self.registry.map.insert metadata.name handle)
    onDisk (modify (dropHandle (self.registry.map.get metadata.name) (some dir)))

/-- `Registry::create` -/
def create (metadata : CollectionMeta) : Effect ServerError OpenRegistry Unit := do
  checkNew metadata
  makeDir metadata
  persistMeta codecs metadata
  let kind ← instantiate codecs metadata
  register metadata kind

/-! ### Dropping -/

/-- The first step of `drop_collection`. -/
def unregister (name : String) : Effect ServerError OpenRegistry (Option Handle) := do
  let registry ← locked
  setMap (registry.map.erase name)
  pure (registry.map.get name)

/-- The second step.  The handle is dropped when the call returns. -/
def removeDir (handle : Handle) : Effect ServerError OpenRegistry Bool := do
  let removed ← attempt (onDisk (FileSystem.removeDirAll handle.dir))
  -- also when the directory could not be removed
  onDisk (modify (dropHandle (some handle) none))
  liftExcept (removed.map fun _ => true)

/-- `Registry::drop_collection` -/
def dropCollection (name : String) : Effect ServerError OpenRegistry Bool := do
  let handle ← unregister name
  match handle with
  | none => pure false
  | some handle => removeDir handle

/-! ### Opening -/

/-- What `open` makes of one directory; `none` if it has no metadata. -/
def loadDir (path : Path) : Effect ServerError FileSystem (Option Handle) :=
  FileSystem.inDir path do
    let dir ← get
    if dir.metaFile.isNone then pure none
    else
      -- the kind of the index is taken from the metadata, not from the files
      let metadata ← liftExcept (dir.readMeta codecs)
      let kind ← CollectionDir.reopen codecs metadata
      pure (some { kind := kind, metadata := metadata, dir := path })

/-- The loop of `open`: what cannot be read or opened is skipped.  A second
    handle of a name replaces the first. -/
def scan : List Path → OrderedTable String Handle →
    Effect ServerError FileSystem (OrderedTable String Handle)
  | [], map => pure map
  | path :: rest, map => do
    let loaded ← attempt (loadDir codecs path)
    match loaded with
    | .ok (some handle) =>
      modify (dropHandle (map.get handle.metadata.name) (some path))
      scan rest (map.insert handle.metadata.name handle)
    | .ok none => scan rest map
    -- a warning, and the next directory
    | .error _ => scan rest map

/-- The directories in `root`, in the order the file system lists them. -/
def children (order : HashOrder) (root : Path) (disk : FileSystem) : List Path :=
  (order.keys disk.dirs).filter fun path => decide (path ≠ [] ∧ path.dropLast = root)

/-- `Registry::open` -/
def openAt (root : Path) (order : HashOrder) : Effect ServerError FileSystem Registry := do
  let disk ← get
  if (disk.dirs.get root).isNone then do
    -- the first start
    FileSystem.createDirAll IoError.other.toServerError root
    pure (new root)
  else
    let map ← scan codecs (children order root disk) .empty
    pure { root := root, map := map, poisoned := false }

end Registry

end EidosDB
