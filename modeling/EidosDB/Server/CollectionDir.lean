import EidosDB.Server.Service
import EidosDB.Storage.PersistentHnsw
import EidosDB.Storage.PersistentPayload

/-! # Collection Directories

    A collection has a directory of its own: its metadata in one file, its
    vector index in a subdirectory, a lexical file and a payload file.  The
    two kinds of vector index have a database each; the vectors of both are
    in files of the same name.

    A database that is open cannot be opened again.  The databases of a
    directory are held by the handle of one collection, of which the kind is
    recorded beside the files. -/

namespace EidosDB

open Bytes Effect

/-! ## Metadata -/

inductive IndexTypeChoice where
  | flat
  | hnsw
  deriving DecidableEq, Repr

/-- `DEFAULT_SEED` -/
def defaultSeed : BitVec 64 := 0xDEADBEEFCAFE1234#64

/-- `HnswConfig::default` -/
def HnswConfig.default : HnswConfig :=
  { metric := .cosine, m := 16, efConstruction := 200, efSearch := 64, seed := defaultSeed
    degree := by decide, construction_pos := by decide, search_pos := by decide }

/-- `CollectionMeta` -/
structure CollectionMeta where
  name : String
  metric : Metric
  dimension : Dimension
  indexType : IndexTypeChoice
  hnsw : Option HnswConfig
  deriving DecidableEq

inductive ServerError where
  | io (message : String)
  | serde (message : String)
  | badName (name : String)
  | alreadyExists (name : String)
  | storage (message : String)
  | index (message : String)
  deriving DecidableEq, Repr

/-- `StorageError::to_string` -/
def StorageError.text : StorageError → String
  | .io error => "io error: " ++ error.text
  | .catalog message => "catalog error: " ++ message
  | .corruption message => "corrupt store: " ++ message
  | .formatMismatch message => "format mismatch: " ++ message
  | .index error => error.text

/-- `|e| ServerError::Storage(e.to_string())` for the three stores. -/
def StorageError.toServerError (e : StorageError) : ServerError := .storage e.text

def LexicalError.toServerError (e : LexicalError) : ServerError := .storage e.text

def PayloadError.toServerError (e : PayloadError) : ServerError := .storage e.text

/-- `|e| ServerError::Io(e.to_string())` -/
def IoError.toServerError (e : IoError) : ServerError := .io e.text

/-- What a database answers that is open already. -/
def alreadyOpen : String := "Database already open. Cannot acquire lock."

/-- The encodings of the metadata file and of the rows. -/
structure ServerCodecs where
  metadata : Codec CollectionMeta
  lexical : LexicalCodecs
  hnsw : HnswCodec

/-! ## Directories -/

/-- The files of one directory.  `metaFile` is `collection.meta`; `catalog`,
    `graph` and `segment` are the vector index's, `holder` is the kind of the
    collection that has the databases open. -/
structure CollectionDir where
  metaFile : File
  catalog : Option CatalogDb
  graph : Option HnswDb
  segment : File
  lexical : Option LexicalDb
  payload : Option PayloadDb
  holder : Option IndexTypeChoice

/-- The collections of the server: what a handle keeps in memory of the
    three stores. -/
abbrev LiveKind :=
  CollectionKind PersistentFlatIndex PersistentHnswIndex PersistentLexicalIndex
    PersistentPayloadStore

def CollectionKind.indexType {I J L P : Type} : CollectionKind I J L P → IndexTypeChoice
  | .flat _ => .flat
  | .hnsw _ => .hnsw

namespace CollectionDir

def empty : CollectionDir :=
  { metaFile := none, catalog := none, graph := none, segment := none, lexical := none
    payload := none, holder := none }

/-- The files of the flat index. -/
def flatDisk (self : CollectionDir) : FlatDisk :=
  { catalog := self.catalog, segment := self.segment }

/-- The files of the graph index. -/
def hnswDisk (self : CollectionDir) : HnswDisk :=
  { catalog := self.graph, segment := self.segment }

/-- The databases are held by a collection of this kind, or by none. -/
def heldBy (holder : Option IndexTypeChoice) (self : CollectionDir) : CollectionDir :=
  { self with holder := holder }

/-! ### Metadata -/

def onMetaFile {ε α : Type} (m : Effect ε File α) : Effect ε CollectionDir α :=
  zoom CollectionDir.metaFile (fun file self => { self with metaFile := file }) m

/-- The bytes of `fs::write`, one after the other. -/
def writeBytes : List Byte → Effect ServerError File Unit
  | [] => pure ()
  | b :: bs => do
    durable IoError.other.toServerError (fun file => file.map (· ++ [b]))
    writeBytes bs

variable (codecs : ServerCodecs)

/-- `write_meta`: the file is made or emptied, and then written. -/
def writeMeta (metadata : CollectionMeta) : Effect ServerError CollectionDir Unit :=
  onMetaFile (do
    durable IoError.other.toServerError (fun _ => some [])
    writeBytes (codecs.metadata.encode metadata))

/-- `read_meta` -/
def readMeta (self : CollectionDir) : Except ServerError CollectionMeta :=
  match self.metaFile with
  | none => .error IoError.notFound.toServerError
  | some bytes => (codecs.metadata.decode bytes).mapError .serde

/-! ### Opening -/

def onFlat {α : Type} (m : Effect StorageError FlatDisk α) :
    Effect StorageError CollectionDir α :=
  zoom flatDisk
    (fun disk self => { self with catalog := disk.catalog, segment := disk.segment }) m

def onHnsw {α : Type} (m : Effect StorageError HnswDisk α) :
    Effect StorageError CollectionDir α :=
  zoom hnswDisk
    (fun disk self => { self with graph := disk.catalog, segment := disk.segment }) m

def onLexical {α : Type} (m : Effect LexicalError (Option LexicalDb) α) :
    Effect LexicalError CollectionDir α :=
  zoom CollectionDir.lexical (fun db self => { self with lexical := db }) m

def onPayload {α : Type} (m : Effect PayloadError (Option PayloadDb) α) :
    Effect PayloadError CollectionDir α :=
  zoom CollectionDir.payload (fun db self => { self with payload := db }) m

/-- `PersistentFlatIndex::open` in a directory whose catalog may be open. -/
def openFlatIndex (metric : Metric) (dimension : Dimension) :
    Effect StorageError CollectionDir PersistentFlatIndex := do
  let self ← get
  if self.holder = some .flat then do
    -- the directory comes before the catalog
    onFlat FlatDisk.createDirAll
    throw (.catalog alreadyOpen)
  else onFlat (FlatDisk.openAt metric dimension)

/-- `PersistentHnswIndex::create` in a directory whose database may be open. -/
def createHnswIndex (config : HnswConfig) (dimension : Dimension) :
    Effect StorageError CollectionDir PersistentHnswIndex := do
  let self ← get
  if self.holder = some .hnsw then do
    -- the directory comes before the database
    onHnsw HnswDisk.createDirAll
    throw (.catalog alreadyOpen)
  else onHnsw (HnswDisk.create codecs.hnsw config dimension)

/-- `PersistentHnswIndex::open` in a directory whose database may be open. -/
def openHnswIndex : Effect StorageError CollectionDir PersistentHnswIndex := do
  let self ← get
  if self.holder = some .hnsw then throw (.catalog alreadyOpen)
  else onHnsw (HnswDisk.openAt codecs.hnsw)

/-- `PersistentLexicalIndex::open` in a directory whose file may be open. -/
def openLexical : Effect LexicalError CollectionDir PersistentLexicalIndex := do
  let self ← get
  if self.holder.isSome then throw (.backend alreadyOpen)
  else onLexical (PersistentLexicalIndex.openAt codecs.lexical)

/-- `PersistentPayloadStore::open` in a directory whose file may be open. -/
def openPayload : Effect PayloadError CollectionDir PersistentPayloadStore := do
  let self ← get
  if self.holder.isSome then throw (.backend alreadyOpen)
  else onPayload PersistentPayloadStore.openAt

/-- The end of the three constructors: the lexical file and the payload file,
    and then the collection holds the databases. -/
def openStores {I : Type} (kind : Collection I PersistentLexicalIndex PersistentPayloadStore → LiveKind)
    (index : I) : Effect ServerError CollectionDir LiveKind := do
  let lexical ← mapErr LexicalError.toServerError (openLexical codecs)
  let payloads ← mapErr PayloadError.toServerError openPayload
  let live := kind { index := index, lexical := lexical, payloads := payloads }
  modify (heldBy (some live.indexType))
  pure live

/-- `CollectionKind::open_flat` -/
def openFlat (metric : Metric) (dimension : Dimension) :
    Effect ServerError CollectionDir LiveKind := do
  let index ← mapErr StorageError.toServerError (openFlatIndex metric dimension)
  openStores codecs .flat index

/-- `CollectionKind::create_hnsw` -/
def createHnsw (config : HnswConfig) (dimension : Dimension) :
    Effect ServerError CollectionDir LiveKind := do
  let index ← mapErr StorageError.toServerError (createHnswIndex codecs config dimension)
  openStores codecs .hnsw index

/-- `CollectionKind::open_hnsw` -/
def openHnsw : Effect ServerError CollectionDir LiveKind := do
  let index ← mapErr StorageError.toServerError (openHnswIndex codecs)
  openStores codecs .hnsw index

/-- The collection that `Registry::create` makes of the metadata. -/
def instantiate (metadata : CollectionMeta) : Effect ServerError CollectionDir LiveKind :=
  match metadata.indexType with
  | .flat => openFlat codecs metadata.metric metadata.dimension
  | .hnsw => createHnsw codecs (metadata.hnsw.getD .default) metadata.dimension

/-- The collection that `Registry::open` makes of the metadata. -/
def reopen (metadata : CollectionMeta) : Effect ServerError CollectionDir LiveKind :=
  match metadata.indexType with
  | .flat => openFlat codecs metadata.metric metadata.dimension
  | .hnsw => openHnsw codecs

end CollectionDir

end EidosDB
