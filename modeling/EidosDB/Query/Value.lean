import EidosDB.Core.Double
import EidosDB.Core.Types
import EidosDB.Lib.OrderedTable

/-! # Payload Values

    The scalars and fields of a payload, and the two comparisons a filter
    makes of scalars: equality by variant, and an order that puts integers
    and floats on one scale.  The cast of an integer to a float is the
    processor's, taken as a parameter. -/

namespace EidosDB

/-! ## Scalars -/

inductive Value where
  | text (value : String)
  | integer (value : Int64)
  | float (value : F64)
  | bool (value : Bool)
  deriving DecidableEq

namespace Value

/-- `PartialEq::eq`: by variant, floats as numbers. -/
def eq : Value → Value → Bool
  | .text a, .text b => a == b
  | .integer a, .integer b => a == b
  | .float a, .float b => a.eq b
  | .bool a, .bool b => a == b
  | _, _ => false

/-- `as_f64` -/
def asF64 (ops : F64Ops) : Value → Option F64
  | .integer i => some (ops.ofInt i.toInt)
  | .float f => some f
  | _ => none

def isNumeric : Value → Bool
  | .integer _ => true
  | .float _ => true
  | _ => false

/-- `Value::ordered` -/
def ordered (ops : F64Ops) : Value → Value → Option Ordering
  | .integer a, .integer b => some (compare a.toInt b.toInt)
  | .text a, .text b => some (compare a b)
  | a, b =>
      if a.isNumeric && b.isNumeric then do
        let x ← a.asF64 ops
        let y ← b.asF64 ops
        x.partialCmp y
      else none

/-- What `check_finite` asks of a scalar. -/
def isFinite : Value → Bool
  | .float f => f.isFinite
  | _ => true

end Value

/-! ## Fields -/

inductive FieldValue where
  | scalar (value : Value)
  | array (values : List Value)
  deriving DecidableEq

def FieldValue.isFinite : FieldValue → Bool
  | .scalar value => value.isFinite
  | .array values => values.all Value.isFinite

/-! ## Payloads -/

inductive PayloadError where
  | nonFiniteValue
  | serialization (message : String)
  | backend (message : String)
  deriving DecidableEq, Repr

/-- `PayloadError::to_string` -/
def PayloadError.text : PayloadError → String
  | .nonFiniteValue => "payload contains a non-finite float value"
  | .serialization message => "payload serialization error: " ++ message
  | .backend message => "payload backend error: " ++ message

/-- Fields by name, without NaN or infinities. -/
structure Payload where
  fields : OrderedTable String FieldValue
  finite : ∀ e ∈ fields.entries, e.2.isFinite = true
  deriving DecidableEq

namespace Payload

/-- `Payload::new` -/
def new (fields : OrderedTable String FieldValue) : Except PayloadError Payload :=
  if h : ∀ e ∈ fields.entries, e.2.isFinite = true then .ok ⟨fields, h⟩
  else .error .nonFiniteValue

@[simp] theorem new_fields (payload : Payload) : new payload.fields = .ok payload :=
  dif_pos payload.finite

theorem fields_of_new {fields : OrderedTable String FieldValue} {payload : Payload}
    (h : new fields = .ok payload) : payload.fields = fields := by
  unfold new at h
  split at h
  · cases h
    rfl
  · simp at h

def get (self : Payload) (name : String) : Option FieldValue := self.fields.get name

end Payload

end EidosDB
