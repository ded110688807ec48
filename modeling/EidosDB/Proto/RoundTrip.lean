import EidosDB.Lib.Inverse
import EidosDB.Proto.Convert
import EidosDB.Query.Filter

/-! # Round Trips

    The encodings of points and filters, and the messages and the decoding of
    filters.  Every decoder is inverse to its encoder: it accepts the messages
    that are encodings, and no others but those it reports as malformed. -/

namespace EidosDB

open Bytes

/-! ## Filters -/

namespace Pb

structure Comparison where
  field : String
  value : Option Value

structure InFilter where
  field : String
  values : List Value

structure ContainsFilter where
  field : String
  value : Option Value

mutual

/-- A `FilterList` is given as the filters it lists. -/
inductive Filter where
  | mk (kind : Option FilterKind)

inductive FilterKind where
  | eq (comparison : Comparison)
  | ne (comparison : Comparison)
  | lt (comparison : Comparison)
  | lte (comparison : Comparison)
  | gt (comparison : Comparison)
  | gte (comparison : Comparison)
  | isIn (inFilter : InFilter)
  | contains (containsFilter : ContainsFilter)
  | exists (field : String)
  | allOf (filters : List Filter)
  | anyOf (filters : List Filter)
  | negation (inner : Filter)

end

end Pb

/-- `value_to_pb` -/
def valueToPb : Value → Pb.Value
  | .text s => ⟨some (.text s)⟩
  | .integer i => ⟨some (.integer i)⟩
  | .float f => ⟨some (.floatValue f)⟩
  | .bool b => ⟨some (.boolValue b)⟩

/-- The `pb::Comparison` of a field and a value. -/
def comparisonToPb (field : String) (value : Value) : Pb.Comparison :=
  { field := field, value := some (valueToPb value) }

mutual

/-- `filter_to_pb` -/
def filterToPb : Filter → Pb.Filter
  | .eq field value => .mk (some (.eq (comparisonToPb field value)))
  | .ne field value => .mk (some (.ne (comparisonToPb field value)))
  | .lt field value => .mk (some (.lt (comparisonToPb field value)))
  | .lte field value => .mk (some (.lte (comparisonToPb field value)))
  | .gt field value => .mk (some (.gt (comparisonToPb field value)))
  | .gte field value => .mk (some (.gte (comparisonToPb field value)))
  | .isIn field values => .mk (some (.isIn { field := field, values := values.map valueToPb }))
  | .contains field value =>
      .mk (some (.contains { field := field, value := some (valueToPb value) }))
  | .exists field => .mk (some (.exists field))
  | .and filters => .mk (some (.allOf (filtersToPb filters)))
  | .or filters => .mk (some (.anyOf (filtersToPb filters)))
  | .not inner => .mk (some (.negation (filterToPb inner)))

/-- `filters.iter().map(filter_to_pb).collect()` -/
def filtersToPb : List Filter → List Pb.Filter
  | [] => []
  | filter :: rest => filterToPb filter :: filtersToPb rest

end

/-- A value that may be absent, under the name of its field. -/
def requiredValue (field : String) : Option Pb.Value → Except ConversionError Value
  | none => .error (.missingField field)
  | some value => valueFromPb value

/-- `comparison_from_pb` -/
def comparisonFromPb (c : Pb.Comparison) : Except ConversionError (String × Value) := do
  let value ← requiredValue "comparison.value" c.value
  .ok (c.field, value)

mutual

/-- `filter_from_pb` -/
def filterFromPb : Pb.Filter → Except ConversionError Filter
  | .mk none => .error (.missingField "filter.kind")
  | .mk (some (.eq c)) => (comparisonFromPb c).map fun p => .eq p.1 p.2
  | .mk (some (.ne c)) => (comparisonFromPb c).map fun p => .ne p.1 p.2
  | .mk (some (.lt c)) => (comparisonFromPb c).map fun p => .lt p.1 p.2
  | .mk (some (.lte c)) => (comparisonFromPb c).map fun p => .lte p.1 p.2
  | .mk (some (.gt c)) => (comparisonFromPb c).map fun p => .gt p.1 p.2
  | .mk (some (.gte c)) => (comparisonFromPb c).map fun p => .gte p.1 p.2
  | .mk (some (.isIn inf)) => (inf.values.mapM valueFromPb).map fun values => .isIn inf.field values
  | .mk (some (.contains cf)) =>
      (requiredValue "contains.value" cf.value).map fun value => .contains cf.field value
  | .mk (some (.exists field)) => .ok (.exists field)
  | .mk (some (.allOf filters)) => (filtersFromPb filters).map .and
  | .mk (some (.anyOf filters)) => (filtersFromPb filters).map .or
  | .mk (some (.negation inner)) => (filterFromPb inner).map .not

/-- `list.filters.into_iter().map(filter_from_pb).collect()` -/
def filtersFromPb : List Pb.Filter → Except ConversionError (List Filter)
  | [] => .ok []
  | filter :: rest => do
    let filter ← filterFromPb filter
    let rest ← filtersFromPb rest
    .ok (filter :: rest)

end

theorem inverse_value : Inverse valueToPb valueFromPb := by
  apply Inverse.of_laws
  · intro v
    cases v <;> rfl
  · rintro v ⟨kind⟩ hok
    cases kind with
    | none => cases hok
    | some kind =>
      cases kind <;> (cases hok; rfl)

theorem inverse_requiredValue (field : String) :
    Inverse (fun value => some (valueToPb value)) (requiredValue field) := by
  apply Inverse.of_laws
  · exact inverse_value.decode_encode
  · intro value o hok
    cases o with
    | none => cases hok
    | some v => exact congrArg some (inverse_value.encode_of_ok hok)

theorem inverse_comparison :
    Inverse (fun p : String × Value => comparisonToPb p.1 p.2) comparisonFromPb := by
  rintro ⟨field, value⟩ ⟨field', v⟩
  have hvalue := inverse_requiredValue "comparison.value" value v
  unfold comparisonFromPb comparisonToPb
  rw [Pb.Comparison.mk.injEq, ← hvalue]
  cases requiredValue "comparison.value" v with
  | error e => simp [bind, Except.bind]
  | ok value' => simp [bind, Except.bind, eq_comm]

mutual

theorem filterFromPb_filterToPb : ∀ f, filterFromPb (filterToPb f) = .ok f
  | .eq field value => inverse_comparison.decode_map _ (field, value)
  | .ne field value => inverse_comparison.decode_map _ (field, value)
  | .lt field value => inverse_comparison.decode_map _ (field, value)
  | .lte field value => inverse_comparison.decode_map _ (field, value)
  | .gt field value => inverse_comparison.decode_map _ (field, value)
  | .gte field value => inverse_comparison.decode_map _ (field, value)
  | .isIn _ values => inverse_value.list.decode_map _ values
  | .contains _ value => (inverse_requiredValue "contains.value").decode_map _ value
  | .exists _ => rfl
  | .and filters => by
    rw [filterToPb, filterFromPb, filtersFromPb_filtersToPb filters]
    rfl
  | .or filters => by
    rw [filterToPb, filterFromPb, filtersFromPb_filtersToPb filters]
    rfl
  | .not inner => by
    rw [filterToPb, filterFromPb, filterFromPb_filterToPb inner]
    rfl

theorem filtersFromPb_filtersToPb : ∀ l, filtersFromPb (filtersToPb l) = .ok l
  | [] => rfl
  | filter :: rest => by
    rw [filtersToPb, filtersFromPb, filterFromPb_filterToPb filter, filtersFromPb_filtersToPb rest]
    rfl

end

/-- What a comparison of either kind decodes to. -/
theorem comparison_of_map {build : String × Value → Filter} {c : Pb.Comparison} {f : Filter}
    (hok : (comparisonFromPb c).map build = .ok f) :
    ∃ field value, f = build (field, value) ∧ comparisonToPb field value = c := by
  obtain ⟨⟨field, value⟩, hf, hc⟩ := inverse_comparison.encode_of_map hok
  exact ⟨field, value, hf, hc⟩

mutual

theorem filterToPb_of_ok : ∀ (p : Pb.Filter) (f : Filter), filterFromPb p = .ok f → filterToPb f = p
  | .mk none, _, hok => nomatch hok
  | .mk (some (.eq _)), _, hok => by
    obtain ⟨field, value, rfl, rfl⟩ := comparison_of_map hok
    rfl
  | .mk (some (.ne _)), _, hok => by
    obtain ⟨field, value, rfl, rfl⟩ := comparison_of_map hok
    rfl
  | .mk (some (.lt _)), _, hok => by
    obtain ⟨field, value, rfl, rfl⟩ := comparison_of_map hok
    rfl
  | .mk (some (.lte _)), _, hok => by
    obtain ⟨field, value, rfl, rfl⟩ := comparison_of_map hok
    rfl
  | .mk (some (.gt _)), _, hok => by
    obtain ⟨field, value, rfl, rfl⟩ := comparison_of_map hok
    rfl
  | .mk (some (.gte _)), _, hok => by
    obtain ⟨field, value, rfl, rfl⟩ := comparison_of_map hok
    rfl
  | .mk (some (.isIn ⟨field, _⟩)), _, hok => by
    obtain ⟨values, rfl, rfl⟩ := inverse_value.list.encode_of_map hok
    rfl
  | .mk (some (.contains ⟨field, _⟩)), _, hok => by
    obtain ⟨value, rfl, rfl⟩ := (inverse_requiredValue "contains.value").encode_of_map hok
    rfl
  | .mk (some (.exists field)), _, hok => by
    cases hok
    rfl
  | .mk (some (.allOf filters)), _, hok => by
    obtain ⟨l, hfilters, rfl⟩ := Except.ok_of_map hok
    rw [filterToPb, filtersToPb_of_ok filters l hfilters]
  | .mk (some (.anyOf filters)), _, hok => by
    obtain ⟨l, hfilters, rfl⟩ := Except.ok_of_map hok
    rw [filterToPb, filtersToPb_of_ok filters l hfilters]
  | .mk (some (.negation inner)), _, hok => by
    obtain ⟨g, hinner, rfl⟩ := Except.ok_of_map hok
    rw [filterToPb, filterToPb_of_ok inner g hinner]

theorem filtersToPb_of_ok : ∀ (ps : List Pb.Filter) (l : List Filter),
    filtersFromPb ps = .ok l → filtersToPb l = ps
  | [], _, hok => by
    cases hok
    rfl
  | p :: ps, l, hok => by
    rw [filtersFromPb] at hok
    cases hp : filterFromPb p with
    | error e =>
      rw [hp] at hok
      cases hok
    | ok f =>
      cases hps : filtersFromPb ps with
      | error e =>
        rw [hp, hps] at hok
        cases hok
      | ok fs =>
        rw [hp, hps] at hok
        cases hok
        rw [filtersToPb, filterToPb_of_ok p f hp, filtersToPb_of_ok ps fs hps]

end

theorem inverse_filter : Inverse filterToPb filterFromPb :=
  Inverse.of_laws filterFromPb_filterToPb fun f p => filterToPb_of_ok p f

/-! ## Points -/

/-- `field_value_to_pb` -/
def fieldValueToPb : FieldValue → Pb.FieldValue
  | .scalar v => ⟨some (.scalar (valueToPb v))⟩
  | .array values => ⟨some (.array ⟨values.map valueToPb⟩)⟩

/-- `payload_to_pb` -/
def payloadToPb (payload : Payload) : Pb.Payload :=
  { fields := payload.fields.mapValues fieldValueToPb }

/-- `vector_id_to_pb` -/
def vectorIdToPb (id : VectorId) : List Byte := (toLe idLength id.uuid.val).reverse

/-- `embedding_to_pb` -/
def embeddingToPb (embedding : Embedding) : List F32 := embedding.values

/-- `point_to_pb` -/
def pointToPb (id : VectorId) (embedding : Embedding) (document : Option Document)
    (payload : Option Payload) : Pb.Point :=
  { id := vectorIdToPb id, vector := embeddingToPb embedding
    document := document.map Document.text, payload := payload.map payloadToPb }

theorem Inverse.transpose {α β ε : Type} {encode : α → β} {decode : β → Except ε α}
    (h : Inverse encode decode) : Inverse (Option.map encode) (transpose decode) := by
  apply Inverse.of_laws
  · intro o
    cases o with
    | none => rfl
    | some a => exact h.decode_map some a
  · intro o b hok
    cases b with
    | none =>
      cases hok
      rfl
    | some b =>
      obtain ⟨a, rfl, rfl⟩ := h.encode_of_map (show (decode b).map some = .ok o from hok)
      rfl

theorem inverse_fieldValue : Inverse fieldValueToPb fieldValueFromPb := by
  apply Inverse.of_laws
  · intro v
    cases v with
    | scalar v => exact inverse_value.decode_map _ v
    | array values => exact inverse_value.list.decode_map _ values
  · rintro v ⟨kind⟩ hok
    cases kind with
    | none => cases hok
    | some kind =>
      cases kind with
      | scalar _ =>
        obtain ⟨value, rfl, rfl⟩ := inverse_value.encode_of_map hok
        rfl
      | array arr =>
        obtain ⟨values⟩ := arr
        obtain ⟨values, rfl, rfl⟩ := inverse_value.list.encode_of_map hok
        rfl

theorem inverse_payload (order : HashOrder) : Inverse payloadToPb (payloadFromPb order) := by
  have hnew : Inverse Payload.fields fun fields =>
      (Payload.new fields).mapError fun e => ConversionError.domain e.text :=
    (Inverse.of_laws Payload.new_fields fun _ _ => Payload.fields_of_new).mapError _
  have hfields := (inverse_fieldValue.table order).comp hnew
  rintro payload ⟨fields⟩
  rw [payloadToPb, Pb.Payload.mk.injEq, ← hfields payload fields]
  unfold payloadFromPb
  -- the fields are collected before the payload is checked
  dsimp only
  cases (order.entries fields).mapM fun p => (fieldValueFromPb p.2).map fun v => (p.1, v) <;> rfl

/-- The identifiers are the numbers of sixteen bytes. -/
theorem ofLe_lt_uuid {bytes : List Byte} (hlen : bytes.length = idLength) :
    ofLe bytes < 340282366920938463463374607431768211456 := by
  have hlt := ofLe_lt bytes
  rw [hlen] at hlt
  exact hlt.trans_le (by decide)

theorem inverse_vectorId : Inverse vectorIdToPb vectorIdFromPb := by
  apply Inverse.of_laws
  · rintro ⟨uuid⟩
    have hlen : (vectorIdToPb ⟨uuid⟩).length = idLength := by
      rw [vectorIdToPb, List.length_reverse, length_toLe]
    unfold vectorIdFromPb
    rw [if_neg (not_not.mpr hlen), vectorIdToPb, List.reverse_reverse, ofLe_toLe uuid.isLt]
    rw [Fin.ofNat_val_eq_self]
  · intro id bytes hok
    unfold vectorIdFromPb at hok
    split_ifs at hok with hlen
    cases hok
    have hrev : bytes.reverse.length = idLength := by
      rw [List.length_reverse, not_not.mp hlen]
    rw [vectorIdToPb, Fin.val_ofNat, Nat.mod_eq_of_lt (ofLe_lt_uuid hrev), ← hrev, toLe_ofLe,
      List.reverse_reverse]

theorem inverse_embedding : Inverse embeddingToPb embeddingFromPb := by
  apply Inverse.mapError
  exact Inverse.of_laws Embedding.new_values fun _ _ => Embedding.values_of_new

theorem inverse_document : Inverse (Option.map Document.text) fun document =>
    (transpose Document.new document).mapError fun e => ConversionError.domain e.text := by
  have hnew : Inverse Document.text Document.new :=
    Inverse.of_laws Document.new_text fun _ _ => Document.text_of_new
  exact (Inverse.transpose hnew).mapError _

theorem inverse_optionalPayload (order : HashOrder) :
    Inverse (Option.map payloadToPb) (transpose (payloadFromPb order)) :=
  Inverse.transpose (inverse_payload order)

theorem inverse_point (order : HashOrder) :
    Inverse (fun d : DecodedPoint => pointToPb d.id d.embedding d.document d.payload)
      (pointFromPb order) := by
  apply Inverse.of_laws
  · rintro ⟨id, embedding, document, payload⟩
    unfold pointFromPb pointToPb
    dsimp only
    rw [inverse_vectorId.decode_encode, inverse_embedding.decode_encode,
      inverse_document.decode_encode, (inverse_optionalPayload order).decode_encode]
    rfl
  · rintro d ⟨id, vector, document, payload⟩ hok
    unfold pointFromPb at hok
    dsimp only at hok
    -- the first of the four conversions that fails ends the decoding
    cases hid : vectorIdFromPb id with
    | error e =>
      rw [hid] at hok
      cases hok
    | ok id' =>
      cases hvector : embeddingFromPb vector with
      | error e =>
        rw [hid, hvector] at hok
        cases hok
      | ok embedding =>
        cases hdocument : (transpose Document.new document).mapError
            fun e => ConversionError.domain e.text with
        | error e =>
          rw [hid, hvector, hdocument] at hok
          cases hok
        | ok document' =>
          cases hpayload : transpose (payloadFromPb order) payload with
          | error e =>
            rw [hid, hvector, hdocument, hpayload] at hok
            cases hok
          | ok payload' =>
            rw [hid, hvector, hdocument, hpayload] at hok
            cases hok
            rw [← inverse_vectorId.encode_of_ok hid, ← inverse_embedding.encode_of_ok hvector,
              ← inverse_document.encode_of_ok hdocument,
              ← (inverse_optionalPayload order).encode_of_ok hpayload]
            rfl

/-- Filters and points are read back from the wire as they were written, and
    what is read is what was written. -/
theorem wire_round_trips (order : HashOrder) :
    (∀ f : Filter, filterFromPb (filterToPb f) = .ok f) ∧
    (∀ (p : Pb.Filter) (f : Filter), filterFromPb p = .ok f → filterToPb f = p) ∧
    (∀ (id : VectorId) (embedding : Embedding) (document : Option Document)
      (payload : Option Payload), pointFromPb order (pointToPb id embedding document payload) =
        .ok { id := id, embedding := embedding, document := document, payload := payload }) ∧
    ∀ (p : Pb.Point) (d : DecodedPoint), pointFromPb order p = .ok d →
      pointToPb d.id d.embedding d.document d.payload = p := by
  refine ⟨inverse_filter.decode_encode, ?_, ?_, ?_⟩
  · intro p f hok
    exact inverse_filter.encode_of_ok hok
  · intro id embedding document payload
    exact (inverse_point order).decode_encode ⟨id, embedding, document, payload⟩
  · intro p d hok
    exact (inverse_point order).encode_of_ok hok

end EidosDB
