import EidosDB.Query.Value

/-! # Payload Filters

    The filter expressions and their evaluation against a payload.  The
    evaluation is total: a comparison with an absent field, another type or
    an unordered pair is false. -/

namespace EidosDB

inductive Filter where
  | eq (field : String) (value : Value)
  | ne (field : String) (value : Value)
  | lt (field : String) (value : Value)
  | lte (field : String) (value : Value)
  | gt (field : String) (value : Value)
  | gte (field : String) (value : Value)
  | isIn (field : String) (values : List Value)
  | contains (field : String) (value : Value)
  | exists (field : String)
  | and (filters : List Filter)
  | or (filters : List Filter)
  | not (inner : Filter)

/-- The scalar of a field, if it is there and not an array. -/
def Payload.scalar (payload : Payload) (field : String) : Option Value :=
  match payload.get field with
  | some (.scalar value) => some value
  | _ => none

namespace Filter

variable (ops : F64Ops)

/-- `ordered_is` -/
def orderedIs (payload : Payload) (field : String) (value : Value) (expected : Ordering) : Bool :=
  ((payload.scalar field).bind fun s => s.ordered ops value).any fun o => o == expected

mutual

/-- `evaluate` -/
def evaluate (payload : Payload) : Filter → Bool
  | .eq field value => (payload.scalar field).any fun s => s.eq value
  | .ne field value => (payload.scalar field).any fun s => !s.eq value
  | .lt field value => orderedIs ops payload field value .lt
  | .lte field value =>
      orderedIs ops payload field value .lt || orderedIs ops payload field value .eq
  | .gt field value => orderedIs ops payload field value .gt
  | .gte field value =>
      orderedIs ops payload field value .gt || orderedIs ops payload field value .eq
  | .isIn field values => (payload.scalar field).any fun s => values.any fun v => v.eq s
  | .contains field value =>
      match payload.get field with
      | some (.array values) => values.any fun v => v.eq value
      | _ => false
  | .exists field => (payload.get field).isSome
  | .and filters => evaluateAll payload filters
  | .or filters => evaluateAny payload filters
  | .not inner => !evaluate payload inner

/-- `filters.iter().all(..)` -/
def evaluateAll (payload : Payload) : List Filter → Bool
  | [] => true
  | filter :: rest => evaluate payload filter && evaluateAll payload rest

/-- `filters.iter().any(..)` -/
def evaluateAny (payload : Payload) : List Filter → Bool
  | [] => false
  | filter :: rest => evaluate payload filter || evaluateAny payload rest

end

end Filter

/-! ## Compiled filters -/

/-- `CompiledFilter` -/
structure CompiledFilter where
  root : Filter

/-- `Filter::compile` -/
def Filter.compile (self : Filter) : CompiledFilter := { root := self }

/-- `CompiledFilter::matches` -/
def CompiledFilter.matches (ops : F64Ops) (self : CompiledFilter) (payload : Payload) : Bool :=
  self.root.evaluate ops payload

end EidosDB
