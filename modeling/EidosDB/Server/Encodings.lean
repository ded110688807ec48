import EidosDB.Server.CollectionDir

/-! # Encodings of the Server

    The rows of the stores are in the `postcard` format, the metadata file is
    text.  A codec that is known on some values only is completed by another
    one on the rest. -/

namespace EidosDB

open Bytes

/-! ## Rows -/

theorem uuid_bytes : 340282366920938463463374607431768211456 = 256 ^ 16 := rfl

def VectorId.wire : Wire VectorId :=
  (Wire.fixed 16 uuid_bytes).map (fun n => some ⟨n⟩) VectorId.uuid fun _ => rfl

/-- The encodings as the lexical store uses them. -/
def LexicalCodecs.postcard : LexicalCodecs where
  postings := .postcard (VectorId.wire.pair .varint).list
  length := .postcard .varint
  terms := .postcard Wire.string.list

/-! ## Payloads -/

theorem f64_bytes : 18446744073709551616 = 256 ^ 8 := rfl

def F64.wire : Wire F64 := (Wire.fixedLe 8 f64_bytes).map (fun n => some ⟨n⟩) F64.bits fun _ => rfl

/-- The number of the variant, and what it carries. -/
def Value.wire : Wire Value where
  encode
    | .text s => 0 :: Wire.string.encode s
    | .integer i => 1 :: Wire.zigzag.encode i
    | .float f => 2 :: F64.wire.encode f
    | .bool b => 3 :: Wire.bool.encode b
  parse
    | [] => none
    | tag :: rest =>
      if tag = 0 then (Wire.string.parse rest).map fun r => (.text r.1, r.2)
      else if tag = 1 then (Wire.zigzag.parse rest).map fun r => (.integer r.1, r.2)
      else if tag = 2 then (F64.wire.parse rest).map fun r => (.float r.1, r.2)
      else if tag = 3 then (Wire.bool.parse rest).map fun r => (.bool r.1, r.2)
      else none
  parse_encode value rest := by
    cases value <;> simp [Wire.parse_encode]

def FieldValue.wire : Wire FieldValue where
  encode
    | .scalar v => 0 :: Value.wire.encode v
    | .array vs => 1 :: Value.wire.list.encode vs
  parse
    | [] => none
    | tag :: rest =>
      if tag = 0 then (Value.wire.parse rest).map fun r => (.scalar r.1, r.2)
      else if tag = 1 then (Value.wire.list.parse rest).map fun r => (.array r.1, r.2)
      else none
  parse_encode value rest := by
    cases value <;> simp [Wire.parse_encode]

/-- The fields in the order of their names; reading them checks the floats. -/
def Payload.wire : Wire Payload :=
  (Wire.string.pair FieldValue.wire).list.map
    (fun fields => (Payload.new (.ofList fields)).toOption) (fun payload => payload.fields.entries)
    fun payload => by
      rw [OrderedTable.ofList_entries, Payload.new_fields]
      rfl

/-- The encoding as the payload store uses it. -/
def Payload.postcard : Codec Payload := .postcard Payload.wire

/-! ## Metadata -/

def Metric.wire : Wire Metric :=
  Wire.byte.map (fun b => (metricFromU8 b).toOption) metricToU8 fun metric => by
    rw [metricFromU8_metricToU8]
    rfl

def Dimension.wire : Wire Dimension :=
  Wire.varint.map (fun n => if h : 0 < n ∧ n < 4294967296 then some ⟨n, h.1, h.2⟩ else none)
    Dimension.get fun dimension => dif_pos ⟨dimension.pos, dimension.lt⟩

def HnswConfig.wire : Wire HnswConfig :=
  (Metric.wire.pair (Wire.varint.pair (Wire.varint.pair (Wire.varint.pair (.word 64))))).map
    (fun p =>
      if h : 2 ≤ p.2.1 ∧ 1 ≤ p.2.2.1 ∧ 1 ≤ p.2.2.2.1 then
        some
          { metric := p.1, m := p.2.1, efConstruction := p.2.2.1, efSearch := p.2.2.2.1
            seed := p.2.2.2.2, degree := h.1, construction_pos := h.2.1, search_pos := h.2.2 }
      else none)
    (fun config =>
      (config.metric, config.m, config.efConstruction, config.efSearch, config.seed))
    fun config => dif_pos ⟨config.degree, config.construction_pos, config.search_pos⟩

/-- The fields one after the other, behind a byte no text begins with. -/
def CollectionMeta.wire : Wire CollectionMeta :=
  (Wire.byte.pair (Wire.string.pair
      (Metric.wire.pair (Dimension.wire.pair (Wire.bool.pair HnswConfig.wire.option))))).map
    (fun p => some
      { name := p.2.1, metric := p.2.2.1, dimension := p.2.2.2.1
        indexType := if p.2.2.2.2.1 then .hnsw else .flat, hnsw := p.2.2.2.2.2 })
    (fun metadata =>
      (0, metadata.name, metadata.metric, metadata.dimension,
        decide (metadata.indexType = .hnsw), metadata.hnsw))
    fun metadata => by
      obtain ⟨name, metric, dimension, indexType, hnsw⟩ := metadata
      cases indexType <;> rfl

namespace Codec

variable {α : Type} [DecidableEq α]

/-- One value has a text of its own. -/
def withText (codec : Codec α) (a : α) (text : List Byte) (h : ∀ b, codec.encode b ≠ text) :
    Codec α where
  encode b := if b = a then text else codec.encode b
  decode bytes := if bytes = text then .ok a else codec.decode bytes
  decode_encode b := by
    by_cases hb : b = a
    · rw [if_pos hb, if_pos rfl, hb]
    · rw [if_neg hb, if_neg (h b), codec.decode_encode]

end Codec

/-- A flat collection of three dimensions. -/
def notesMeta (metric : Metric) : CollectionMeta :=
  { name := "notes", metric := metric, dimension := ⟨3, by decide, by decide⟩
    indexType := .flat, hnsw := none }

/-- What `serde_json::to_vec_pretty` makes of it. -/
def notesText (metric : String) : List Byte :=
  Wire.utf8 ("\x7b\n  \"name\": \"notes\",\n  \"metric\": \"" ++ metric ++
    "\",\n  \"dimension\": 3,\n  \"index_type\": \"Flat\",\n  \"hnsw\": null\n\x7d")

theorem encode_wire_ne {metadata : CollectionMeta} {text : List Byte}
    (h : text.head? = some 123) : (Codec.postcard CollectionMeta.wire).encode metadata ≠ text := by
  rintro rfl
  -- the encoding begins with its tag
  have htag : (0 : Byte) = 123 := Option.some.inj h
  exact absurd htag (by decide)

/-- The encodings of the server, where the metadata of two collections is
    text. -/
def ServerCodecs.notes : ServerCodecs where
  metadata :=
    ((Codec.postcard CollectionMeta.wire).withText (notesMeta .cosine) (notesText "Cosine")
      (fun _ => encode_wire_ne (by decide +kernel))).withText (notesMeta .euclidean)
        (notesText "Euclidean") fun b => by
          unfold Codec.withText
          dsimp only
          split
          · decide +kernel
          · exact encode_wire_ne (by decide +kernel)
  lexical := .postcard
  hnsw := .postcard

end EidosDB
