import EidosDB.Lib.Wire
import EidosDB.Storage.Manifest

/-! # Serialized Rows

    The stores keep their rows in the `postcard` format.  The format is code
    of its own, so a store is modelled over any `Codec` of its row types:
    what the code relies on is that decoding undoes encoding, and that
    encoding into memory does not fail.

    `Codec.postcard` reads off a self-delimiting encoding the way
    `postcard::from_bytes` does: bytes after the value are ignored. -/

namespace EidosDB

open Bytes

/-- An encoding of a row type; a decoding error is its message. -/
structure Codec (α : Type) where
  encode : α → List Byte
  decode : List Byte → Except String α
  decode_encode : ∀ a, decode (encode a) = .ok a

namespace Codec

variable {α : Type}

theorem encode_inj (c : Codec α) {a b : α} (h : c.encode a = c.encode b) : a = b := by
  have hab : (Except.ok a : Except String α) = .ok b := by
    rw [← c.decode_encode a, ← c.decode_encode b, h]
  exact Except.ok.inj hab

/-- `decode` of the stores: the error becomes a corruption. -/
def read (c : Codec α) (bytes : List Byte) : Except StorageError α :=
  (c.decode bytes).mapError .corruption

@[simp] theorem read_encode (c : Codec α) (a : α) : c.read (c.encode a) = .ok a := by
  rw [read, c.decode_encode]
  rfl

def postcard (w : Wire α) : Codec α where
  encode := w.encode
  decode bytes :=
    match w.parse bytes with
    | some r => .ok r.1
    | none => .error "Hit the end of buffer, expected more data"
  decode_encode a := by
    have h := w.parse_encode a []
    rw [List.append_nil] at h
    rw [h]

end Codec

end EidosDB
