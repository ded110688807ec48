import EidosDB.Core.Types

/-! # The Lexical Analyzer

    Text is cut into tokens: maximal runs of alphanumeric characters, in
    lower case.  Which characters are alphanumeric, and what their lower
    case is, comes from the Unicode tables of the standard library; the
    tables are a parameter, and nothing depends on what is in them. -/

namespace EidosDB

/-- The Unicode tables of `char`. -/
structure Unicode where
  isAlphanumeric : Char → Bool
  toLowercase : Char → List Char

/-- The tables on ASCII text. -/
def Unicode.ascii : Unicode where
  isAlphanumeric := Char.isAlphanum
  toLowercase c := [c.toLower]

/-! ## Tokens -/

/-- One character of `tokenize`: the tokens so far and the current run. -/
def tokenizeStep (U : Unicode) (s : List String × List Char) (ch : Char) :
    List String × List Char :=
  if U.isAlphanumeric ch then (s.1, s.2 ++ U.toLowercase ch)
  else if s.2.isEmpty then s
  else (s.1 ++ [String.ofList s.2], [])

/-- `tokenize` -/
def tokenize (U : Unicode) (text : String) : List String :=
  let s := text.toList.foldl (tokenizeStep U) ([], [])
  if s.2.isEmpty then s.1 else s.1 ++ [String.ofList s.2]

@[simp] theorem tokenize_empty (U : Unicode) : tokenize U "" = [] := rfl

example : tokenize .ascii "Recupere l'Error-42" = ["recupere", "l", "error", "42"] := by
  decide +kernel

/-! ## Documents -/

inductive LexicalError where
  | emptyDocument
  | serialization (message : String)
  | backend (message : String)
  deriving DecidableEq, Repr

/-- `LexicalError::to_string` -/
def LexicalError.text : LexicalError → String
  | .emptyDocument => "document text is empty"
  | .serialization message => "serialization error: " ++ message
  | .backend message => "storage backend error: " ++ message

/-- `char::is_whitespace`: the `White_Space` characters. -/
def isWhitespace (c : Char) : Bool :=
  let n := c.toNat
  decide (9 ≤ n ∧ n ≤ 13) || decide (n = 32) || decide (n = 133) || decide (n = 160) ||
    decide (n = 5760) || decide (8192 ≤ n ∧ n ≤ 8202) || decide (n = 8232) || decide (n = 8233) ||
    decide (n = 8239) || decide (n = 8287) || decide (n = 12288)

/-- `str::trim` -/
def trim (text : String) : List Char :=
  ((text.toList.dropWhile isWhitespace).reverse.dropWhile isWhitespace).reverse

/-- Text that is not blank. -/
structure Document where
  text : String
  nonblank : (trim text).isEmpty = false
  deriving DecidableEq

/-- `Document::new` -/
def Document.new (text : String) : Except LexicalError Document :=
  if h : (trim text).isEmpty = false then .ok ⟨text, h⟩ else .error .emptyDocument

@[simp] theorem Document.new_text (d : Document) : Document.new d.text = .ok d := by
  unfold Document.new
  rw [dif_pos d.nonblank]

theorem Document.text_of_new {text : String} {d : Document} (h : Document.new text = .ok d) :
    d.text = text := by
  unfold Document.new at h
  split at h
  · cases h
    rfl
  · simp at h

end EidosDB
