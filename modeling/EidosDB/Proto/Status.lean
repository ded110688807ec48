import EidosDB.Query.Collection

/-! # Status Codes

    What the server answers when a call fails: a code and the text of the
    error.  Malformed input of a client is an invalid argument, a failure the
    client did not cause is internal. -/

namespace EidosDB

/-! ## Texts of errors -/

/-- The digits of a UUID, in groups. -/
def VectorId.hyphenated (id : VectorId) : String :=
  let digits := (List.range 32).map fun i => Nat.digitChar (id.uuid.val / 16 ^ (31 - i) % 16)
  let group (start length : Nat) := String.ofList ((digits.drop start).take length)
  String.intercalate "-" [group 0 8, group 8 4, group 12 4, group 16 4, group 20 12]

/-- `VectorId` as the debug format prints it. -/
def VectorId.debug (id : VectorId) : String := "VectorId(" ++ id.hyphenated ++ ")"

/-- `Metric` as the debug format prints it. -/
def Metric.debug : Metric → String
  | .cosine => "Cosine"
  | .dotProduct => "DotProduct"
  | .euclidean => "Euclidean"

/-- `IndexError::to_string` -/
def IndexError.text : IndexError → String
  | .dimensionMismatch expected got =>
      "dimension mismatch: index expects " ++ toString expected ++ ", got " ++ toString got
  | .duplicateId id => "duplicate id: " ++ id.debug
  | .emptyEmbedding => "embedding is empty"
  | .nonFiniteComponent => "embedding contains a non-finite component"
  | .backend message => "storage backend error: " ++ message
  | .unsupportedMetric metric => "metric not supported by this index: " ++ metric.debug

/-- `QueryError::to_string` -/
def QueryError.text : QueryError → String
  | .unsupportedMetric metric => "metric not supported by this index: " ++ metric.debug
  | .index error => error.text
  | .payload error => error.text
  | .emptyQuery => "query has neither a vector nor text"
  | .lexical error => error.text

/-- Errors of the conversions between messages and the domain. -/
inductive ConversionError where
  | missingField (field : String)
  | domain (message : String)
  deriving DecidableEq, Repr

/-- `ConversionError::to_string` -/
def ConversionError.text : ConversionError → String
  | .missingField field => "missing required field: " ++ field
  | .domain message => "domain error: " ++ message

/-! ## Codes -/

/-- The codes the server uses. -/
inductive Code where
  | invalidArgument
  | notFound
  | alreadyExists
  | internal
  deriving DecidableEq, Repr

structure Status where
  code : Code
  message : String
  deriving DecidableEq, Repr

/-- `index_error_to_status` -/
def indexErrorToStatus (error : IndexError) : Status :=
  match error with
  | .duplicateId _ => ⟨.alreadyExists, error.text⟩
  | .dimensionMismatch _ _ | .emptyEmbedding | .nonFiniteComponent | .unsupportedMetric _ =>
      ⟨.invalidArgument, error.text⟩
  | .backend _ => ⟨.internal, error.text⟩

/-- `query_error_to_status` -/
def queryErrorToStatus (error : QueryError) : Status :=
  match error with
  | .emptyQuery | .unsupportedMetric _ | .payload .nonFiniteValue => ⟨.invalidArgument, error.text⟩
  | .index inner => indexErrorToStatus inner
  | .payload _ | .lexical _ => ⟨.internal, error.text⟩

/-- `conversion_error_to_status` -/
def conversionErrorToStatus (error : ConversionError) : Status := ⟨.invalidArgument, error.text⟩

/-- `not_found` -/
def notFound (name : String) : Status := ⟨.notFound, "resource not found: " ++ name⟩

end EidosDB
