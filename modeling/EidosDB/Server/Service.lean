import EidosDB.Proto.Convert

/-! # Upserts of the Server

    The server keeps collections by name, each behind a lock.  A batch is
    decoded and its dimensions are checked before any write; then its points
    are upserted one after the other under the lock.  A stream is a sequence
    of such batches for the collection its first message names, each under
    the lock by itself. -/

namespace EidosDB

open Effect

/-! ## Collections -/

/-- `CollectionKind`: the vector index of a collection is one of two kinds. -/
inductive CollectionKind (I J L P : Type) where
  | flat (collection : Collection I L P)
  | hnsw (collection : Collection J L P)
  deriving DecidableEq

/-- The ports of the stores of all collections. -/
structure KindPorts (I J L P : Type) where
  flat : Ports I L P
  hnsw : Ports J L P

/-- `CollectionHandle`: the collection behind its lock, which a panic poisons,
    and what the service reads of its metadata. -/
structure CollectionHandle (I J L P : Type) where
  inner : CollectionKind I J L P
  poisoned : Bool
  dimension : Dimension
  deriving DecidableEq

/-- The map of a `Registry`. -/
abbrev Handles (I J L P : Type) := OrderedTable String (CollectionHandle I J L P)

/-- The orders of the iterations of the upserts of a request, by their
    number. -/
abbrev UpsertOrders := Nat → HashOrder × HashOrder

variable {I J L P : Type} (ports : KindPorts I J L P)

/-- `CollectionKind::upsert`: how it ends, and the collection it leaves. -/
def CollectionKind.upsert (orders : HashOrder × HashOrder) (d : DecodedPoint)
    (self : CollectionKind I J L P) : Outcome QueryError Unit × CollectionKind I J L P :=
  match self with
  | .flat c =>
    let r := Collection.upsert ports.flat orders.1 orders.2 d.id d.embedding d.document d.payload
      (.start c .none)
    (r.1, .flat r.2.state)
  | .hnsw c =>
    let r := Collection.upsert ports.hnsw orders.1 orders.2 d.id d.embedding d.document d.payload
      (.start c .none)
    (r.1, .hnsw r.2.state)

/-! ## Helpers -/

/-- `run_blocking`: the closure runs under the write lock; a closure that
    panics poisons it.  Nothing cuts the process short here. -/
def runBlocking {α : Type}
    (f : CollectionKind I J L P → Outcome Status α × CollectionKind I J L P)
    (handle : CollectionHandle I J L P) : Except Status α × CollectionHandle I J L P :=
  if handle.poisoned then (.error ⟨.internal, "lock poisoned"⟩, handle)
  else
    match f handle.inner with
    | (.ok a, inner) => (.ok a, { handle with inner := inner })
    | (.err status, inner) => (.error status, { handle with inner := inner })
    -- a panic is caught at the join of the task, and the lock is poisoned
    | (_, inner) =>
      (.error ⟨.internal, "blocking task failed"⟩, { handle with inner := inner, poisoned := true })

/-- `ensure_dimension` -/
def ensureDimension (points : List DecodedPoint) (expected : Nat) : Except Status Unit :=
  match (points.map fun point => point.embedding.dimension).find? fun got => got ≠ expected with
  | some got => .error ⟨.invalidArgument, "vector dimension mismatch: expected " ++
      toString expected ++ ", got " ++ toString got⟩
  | none => .ok ()

/-- The loop over the points of a batch; `n` numbers the upserts of the
    request. -/
def upsertEach (orders : UpsertOrders) : Nat → List DecodedPoint → CollectionKind I J L P →
    Outcome Status Unit × CollectionKind I J L P
  | _, [], self => (.ok (), self)
  | n, d :: rest, self =>
    match self.upsert ports (orders n) d with
    | (.ok (), self) => upsertEach orders (n + 1) rest self
    | (.err e, self) => (.err (queryErrorToStatus e), self)
    | (.crashed, self) => (.crashed, self)
    | (.panicked, self) => (.panicked, self)

/-! ## Calls -/

variable (order : HashOrder) (orders : UpsertOrders)

/-- `batch_upsert`; the count is a `u64` that fits. -/
def batchUpsert (handles : Handles I J L P) (request : Pb.BatchUpsertRequest) :
    Except Status Pb.BatchUpsertResponse × Handles I J L P :=
  match batchUpsertFromPb order request with
  | .error e => (.error (conversionErrorToStatus e), handles)
  | .ok (collection, decodedPoints) =>
    match handles.get collection with
    | none => (.error (notFound collection), handles)
    | some handle =>
      -- no point is written unless all have the dimension
      match ensureDimension decodedPoints handle.dimension.get with
      | .error status => (.error status, handles)
      | .ok () =>
        let r := runBlocking (upsertEach ports orders 0 decodedPoints) handle
        (r.1.map fun _ => { upserted := decodedPoints.length }, handles.insert collection r.2)

/-- A message of a stream, or the error of the transport. -/
abbrev StreamItem := Except Status Pb.BulkUpsertRequest

/-- The loop of `bulk_upsert`: `decoded` is the pending chunk, `upserted` what
    the chunks before it had. -/
def bulkLoop (collection : String) : CollectionHandle I J L P → Nat → List DecodedPoint →
    List StreamItem → Except Status Pb.BulkUpsertResponse × CollectionHandle I J L P
  | handle, upserted, decoded, stream =>
    match ensureDimension decoded handle.dimension.get with
    | .error status => (.error status, handle)
    | .ok () =>
      match runBlocking (upsertEach ports orders upserted decoded) handle with
      | (.error status, handle) => (.error status, handle)
      | (.ok (), handle) =>
        -- the next message is read when the chunk before it has been written
        match stream with
        | [] => (.ok { upserted := upserted + decoded.length }, handle)
        | .error status :: _ => (.error status, handle)
        | .ok next :: rest =>
          match bulkUpsertFromPb order next with
          | .error e => (.error (conversionErrorToStatus e), handle)
          | .ok (chunkCollection, points) =>
            if chunkCollection ≠ "" ∧ chunkCollection ≠ collection then
              (.error ⟨.invalidArgument, "bulk_upsert stream changed collection mid-stream"⟩, handle)
            else bulkLoop collection handle (upserted + decoded.length) points rest

/-- `bulk_upsert` -/
def bulkUpsert (handles : Handles I J L P) (stream : List StreamItem) :
    Except Status Pb.BulkUpsertResponse × Handles I J L P :=
  match stream with
  | [] => (.error ⟨.invalidArgument, "bulk_upsert stream carried no messages"⟩, handles)
  | .error status :: _ => (.error status, handles)
  | .ok first :: rest =>
    match bulkUpsertFromPb order first with
    | .error e => (.error (conversionErrorToStatus e), handles)
    | .ok (collection, firstPoints) =>
      match handles.get collection with
      | none => (.error (notFound collection), handles)
      | some handle =>
        let r := bulkLoop ports order orders collection handle 0 firstPoints rest
        (r.1, handles.insert collection r.2)

end EidosDB
