import CrateAudit.Bytes.Utf8

/-!
# JSON documents

Documents are built as values of `Json` and written in one of two layouts: on one line, as log lines
are, or indented, as documents that a person may want to read. The members of an object keep their
order, and nothing is said about repeated names. Numbers are whole.

Text is escaped byte by byte where it must be; which characters are escaped beyond that, and which
escapes have a short form, is the choice of the format (`Escapes`). Stray bytes become the replacement
character, so what is written is always UTF-8.
-/

namespace CrateAudit

open Bytes

/-- A JSON document. -/
inductive Json where
  | null
  | bool (b : Bool)
  | number (i : Int)
  | text (s : Bytes)
  | array (items : List Json)
  | object (members : List (Bytes × Json))

namespace Json

/-! ### Strings -/

/-- The choices that formats make about escapes. -/
structure Escapes where
  /-- `<`, `>` and `&` are escaped, so that the text may stand inside markup -/
  markup : Bool
  /-- backspace and form feed have the short forms `\b` and `\f` -/
  shortControls : Bool

/-- The escape of a character by its number. -/
def numericEscape (n : Nat) : Bytes := lit "\\u" ++ hex 4 n

/-- A character inside a string. -/
def char (e : Escapes) (c : Char) : Bytes :=
  match c with
  | '"' => lit "\\\""
  | '\\' => lit "\\\\"
  | '\n' => lit "\\n"
  | '\r' => lit "\\r"
  | '\t' => lit "\\t"
  | c =>
    let n := c.toNat
    if e.shortControls && n = 0x08 then lit "\\b"
    else if e.shortControls && n = 0x0c then lit "\\f"
    else if n < 0x20 || n = 0x2028 || n = 0x2029 then numericEscape n
    else if e.markup && (c = '<' || c = '>' || c = '&') then numericEscape n
    else String.utf8EncodeChar c

/-- One piece of a byte string inside a string. -/
def piece (e : Escapes) : Utf8.Piece → Bytes
  | .char c => char e c
  | .stray _ => numericEscape 0xfffd

/-- A string with its quotes. -/
def string (e : Escapes) (s : Bytes) : Bytes :=
  lit "\"" ++ (Utf8.pieces s).flatMap (piece e) ++ lit "\""

/-! ### Layouts -/

/-- What a layout puts between the parts of a document: in front of each item of an array or object at
a depth, in front of the closing bracket at a depth, and behind the colon of a member. -/
structure Layout where
  escapes : Escapes
  item : Nat → Bytes
  close : Nat → Bytes
  colon : Bytes

/-- Everything on one line. -/
def oneLine (e : Escapes) : Layout := ⟨e, fun _ => [], fun _ => [], lit ":"⟩

/-- A line for every item, indented by two blanks for each level. -/
def indented (e : Escapes) : Layout :=
  let line := fun depth => newline :: List.replicate (2 * depth) 0x20
  ⟨e, fun depth => line (depth + 1), line, lit ": "⟩

mutual

/-- The text of a document at a depth. -/
def write (l : Layout) (depth : Nat) : Json → Bytes
  | .null => lit "null"
  | .bool b => if b then lit "true" else lit "false"
  | .number i => integer i
  | .text s => string l.escapes s
  | .array [] => lit "[]"
  | .array (first :: rest) =>
    lit "[" ++ l.item depth ++ write l (depth + 1) first ++ writeItems l depth rest ++ l.close depth ++ lit "]"
  | .object [] => lit "\x7b\x7d"
  | .object ((name, first) :: rest) =>
    lit "\x7b" ++ l.item depth ++ string l.escapes name ++ l.colon ++ write l (depth + 1) first ++
      writeMembers l depth rest ++ l.close depth ++ lit "\x7d"

/-- The items of an array behind the first. -/
def writeItems (l : Layout) (depth : Nat) : List Json → Bytes
  | [] => []
  | item :: rest => lit "," ++ l.item depth ++ write l (depth + 1) item ++ writeItems l depth rest

/-- The members of an object behind the first. -/
def writeMembers (l : Layout) (depth : Nat) : List (Bytes × Json) → Bytes
  | [] => []
  | (name, value) :: rest =>
    lit "," ++ l.item depth ++ string l.escapes name ++ l.colon ++ write l (depth + 1) value ++
      writeMembers l depth rest

end

end Json

end CrateAudit
