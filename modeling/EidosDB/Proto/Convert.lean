import EidosDB.Lib.Bytes
import EidosDB.Proto.Status

/-! # Messages and Their Decoding

    The messages that carry points, as the protocol has them, and the
    conversions to the domain types.  A field of a message may be absent or
    hold what the domain rejects; the first such field ends the conversion.
    The fields of a payload are a hash map, read in any order. -/

namespace EidosDB

open Bytes

/-! ## Messages -/

namespace Pb

inductive ValueKind where
  | text (value : String)
  | integer (value : Int64)
  | floatValue (value : F64)
  | boolValue (value : Bool)
  deriving DecidableEq

structure Value where
  kind : Option ValueKind
  deriving DecidableEq

structure ValueArray where
  values : List Value
  deriving DecidableEq

inductive FieldValueKind where
  | scalar (value : Value)
  | array (array : ValueArray)
  deriving DecidableEq

structure FieldValue where
  kind : Option FieldValueKind
  deriving DecidableEq

structure Payload where
  fields : OrderedTable String FieldValue
  deriving DecidableEq

structure Point where
  id : List Byte
  vector : List F32
  document : Option String
  payload : Option Payload
  deriving DecidableEq

structure PointBatch where
  collection : String
  points : List Point
  deriving DecidableEq

structure BatchUpsertRequest where
  batch : Option PointBatch
  deriving DecidableEq

structure BatchUpsertResponse where
  upserted : Nat
  deriving DecidableEq

structure BulkUpsertRequest where
  batch : Option PointBatch
  deriving DecidableEq

structure BulkUpsertResponse where
  upserted : Nat
  deriving DecidableEq

end Pb

/-! ## Payloads -/

/-- `value_from_pb` -/
def valueFromPb (value : Pb.Value) : Except ConversionError Value :=
  match value.kind with
  | none => .error (.missingField "value.kind")
  | some (.text s) => .ok (.text s)
  | some (.integer i) => .ok (.integer i)
  | some (.floatValue f) => .ok (.float f)
  | some (.boolValue b) => .ok (.bool b)

/-- `field_value_from_pb` -/
def fieldValueFromPb (fieldValue : Pb.FieldValue) : Except ConversionError FieldValue :=
  match fieldValue.kind with
  | none => .error (.missingField "field_value.kind")
  | some (.scalar v) => (valueFromPb v).map .scalar
  | some (.array arr) => (arr.values.mapM valueFromPb).map .array

/-- `payload_from_pb`, with the order of the fields. -/
def payloadFromPb (order : HashOrder) (payload : Pb.Payload) : Except ConversionError Payload := do
  let fields ← (order.entries payload.fields).mapM fun p =>
    (fieldValueFromPb p.2).map fun v => (p.1, v)
  (Payload.new (.ofList fields)).mapError fun e => .domain e.text

/-! ## Points -/

/-- `DecodedPoint` -/
structure DecodedPoint where
  id : VectorId
  embedding : Embedding
  document : Option Document
  payload : Option Payload
  deriving DecidableEq

/-- `ID_LENGTH` -/
def idLength : Nat := 16

/-- `vector_id_from_pb`: the bytes are the number, highest first. -/
def vectorIdFromPb (id : List Byte) : Except ConversionError VectorId :=
  if id.length ≠ idLength then .error (.domain "id must be 16 bytes")
  else .ok ⟨Fin.ofNat _ (ofLe id.reverse)⟩

/-- `embedding_from_pb` -/
def embeddingFromPb (vector : List F32) : Except ConversionError Embedding :=
  (Embedding.new vector).mapError fun e => .domain e.text

/-- `Option::transpose` of a conversion. -/
def transpose {α β ε : Type} (convert : α → Except ε β) : Option α → Except ε (Option β)
  | none => .ok none
  | some a => (convert a).map some

/-- `point_from_pb` -/
def pointFromPb (order : HashOrder) (point : Pb.Point) : Except ConversionError DecodedPoint := do
  let id ← vectorIdFromPb point.id
  let embedding ← embeddingFromPb point.vector
  let document ← (transpose Document.new point.document).mapError fun e => .domain e.text
  let payload ← transpose (payloadFromPb order) point.payload
  .ok { id := id, embedding := embedding, document := document, payload := payload }

/-! ## Batches -/

/-- `point_batch_from_pb` -/
def pointBatchFromPb (order : HashOrder) (batch : Pb.PointBatch) :
    Except ConversionError (String × List DecodedPoint) := do
  let points ← batch.points.mapM (pointFromPb order)
  .ok (batch.collection, points)

/-- `batch_upsert_from_pb` -/
def batchUpsertFromPb (order : HashOrder) (request : Pb.BatchUpsertRequest) :
    Except ConversionError (String × List DecodedPoint) :=
  match request.batch with
  | none => .error (.missingField "batch_upsert.batch")
  | some batch => pointBatchFromPb order batch

/-- `bulk_upsert_from_pb` -/
def bulkUpsertFromPb (order : HashOrder) (request : Pb.BulkUpsertRequest) :
    Except ConversionError (String × List DecodedPoint) :=
  match request.batch with
  | none => .error (.missingField "bulk_upsert.batch")
  | some batch => pointBatchFromPb order batch

end EidosDB
