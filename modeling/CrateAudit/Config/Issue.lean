import CrateAudit.Bytes.Letter
import CrateAudit.Bytes.Quoted
import CrateAudit.Log

/-!
# Issues with a configuration

Checking a configuration gives issues, each with a message, the path of the field that it is about and
the places that it involves. A person is shown details instead: one for each place and path, as they are
written in its key, with a code that the message decides.
-/

namespace CrateAudit.Config

open Bytes

/-- A place in a file, counted from one. A place without a file is unknown. -/
@[ext]
structure Position where
  file : Bytes := []
  line : Int := 0
  column : Int := 0
  deriving DecidableEq

/-- What is wrong with a configuration. -/
structure Issue where
  message : Bytes
  path : List Bytes := []
  positions : List Position := []
  deriving DecidableEq

/-- What a person is shown about an issue. -/
@[ext]
structure Detail where
  path : Bytes
  code : Bytes
  message : Bytes
  position : Position
  /-- the message of the issue itself -/
  raw : Bytes
  deriving DecidableEq

namespace Issue

/-- The path of the field, without a definition in front. -/
def fieldPath (i : Issue) : Bytes :=
  (lit ".").intercalate (if (i.path.head?).any fun p => p.head? = some 0x23 then i.path.drop 1 else i.path)

/-- The first place in a file. -/
def position (i : Issue) : Position := (i.positions.find? (!·.file.isEmpty)).getD {}

/-- Whether a message speaks of something expected and, in the same line, of something else found. -/
def isExpectation (message : Bytes) : Bool :=
  (lines message).any fun l => ((afterFirst? (lit "expected ") l).any (hasInfix (lit " got ")))
where
  /-- The lines of a message. -/
  lines (message : Bytes) : List Bytes := pieces newline message

/-- The part of a path behind its last dot. -/
def lastPart (path : Bytes) : Bytes := ((splitLast? 0x2e path).map (·.2)).getD path

/-- A message in small letters; the long s and the Kelvin sign count as letters, too. -/
def foldCase : Bytes → Bytes
  | 0xc5 :: 0xbf :: bs => 0x73 :: foldCase bs
  | 0xe2 :: 0x84 :: 0xaa :: bs => 0x6b :: foldCase bs
  | b :: bs => lowerByte b :: foldCase bs
  | [] => []

/-- The code of a message and what a person is told. -/
def classify (message path : Bytes) : Bytes × Bytes :=
  let low := foldCase message
  let mentions := fun (phrases : List String) => phrases.any fun p => hasInfix (lit p) low
  let field := lastPart path
  if mentions ["not allowed", "unknown field"] then
    (lit "unknown_field", lit "Field " ++ field ++ lit " is not allowed")
  else if mentions ["incomplete value"] then
    (lit "missing_required", lit "Field " ++ field ++ lit " is required")
  else if mentions ["conflicting values", "cannot unify", "incompatible"] then
    (lit "conflicting_values", lit "Conflicting values for " ++ field)
  else if mentions ["invalid value", "out of bound", "does not match"] then
    (lit "invalid_value", lit "Field " ++ field ++ lit " has invalid value")
  else if isExpectation low then
    (lit "type_mismatch", lit "Field " ++ field ++ lit " has wrong type/value")
  else (lit "validation_error", message)

/-- The detail of an issue. -/
def detail (i : Issue) : Detail :=
  let (code, message) := classify i.message i.fieldPath
  ⟨i.fieldPath, code, message, i.position, i.message⟩

end Issue

/-- The text by which details are told from each other. -/
def Detail.key (d : Detail) : Bytes :=
  d.position.file ++ lit ":" ++ integer d.position.line ++ lit ":" ++ integer d.position.column ++ lit ":" ++ d.path

/-- Puts a detail behind others, unless there is one with the same key. -/
def addDetail (details : List Detail) (d : Detail) : List Detail :=
  if details.any (·.key = d.key) then details else details ++ [d]

/-- The details of some issues. -/
def details (issues : List Issue) : List Detail := (issues.map Issue.detail).foldl addDetail []

namespace Detail

/-- The text of a detail. -/
def text (d : Detail) : Bytes :=
  if d.position.file.isEmpty then d.message
  else d.position.file ++ lit ":" ++ integer d.position.line ++ lit ":" ++ integer d.position.column ++ lit ": " ++
    d.message

/-- The attributes by which a detail is logged. -/
def attrs (d : Detail) : List (Bytes × Json) :=
  [(lit "code", .text d.code), (lit "path", .text d.path), (lit "message", .text d.message),
   (lit "file", .text d.position.file), (lit "line", .number d.position.line),
   (lit "column", .number d.position.column)]

/-- The group of these attributes. -/
def attr (name : String) (d : Detail) : Log.Attr := (lit name, .group (d.attrs.map fun a => (a.1, .document a.2)))

end Detail

/-! ### Names in paths -/

/-- A character of an identifier. -/
def isIdentifierChar (c : Char) : Bool :=
  c = '_' || c = '$' || c.isAlphanum || (0x80 ≤ c.toNat && (Letter.isLetter c || Letter.isDigit c))

/-- Whether a name is an identifier that names a plain field: those with an underscore or a number sign
in front do not. -/
def isIdentifier (name : Bytes) : Bool :=
  let chars := Utf8.pieces name
  (match chars.head? with
   | some (.char c) => c ≠ '_' && !(c.isDigit || (0x80 ≤ c.toNat && Letter.isDigit c))
   | _ => false) &&
  chars.all fun
    | .char c => isIdentifierChar c
    | .stray _ => false

/-- A piece of a name between quotes. -/
def quotedPiece : Utf8.Piece → Bytes
  | .stray _ => lit "\ufffd"
  | .char c =>
    let n := c.toNat
    if (n < 0x20 || n = 0x7f) && (Quoted.shortEscape? c).isNone then lit "\\u" ++ hex 4 n else Quoted.char c

/-- A name as it is shown in paths: between quotes, unless it is an identifier. -/
def shownName (name : Bytes) : Bytes :=
  if isIdentifier name then name else lit "\"" ++ (Utf8.pieces name).flatMap quotedPiece ++ lit "\""

end CrateAudit.Config
