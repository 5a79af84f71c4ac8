import CrateAudit.Bytes.Utf8

/-!
# The text of YAML documents

A document is a sequence of printable characters in UTF-8, with an optional byte order mark in front.
Carriage returns, with or without a line feed, and the control character for a next line end a line like
a line feed does. `Mark` is a position in the text; lines and columns are counted in characters.
-/

namespace CrateAudit.Yaml

/-- A position in a text, counted from zero. -/
structure Mark where
  line : Nat
  column : Nat
  index : Nat
  deriving DecidableEq

/-- The beginning of a text. -/
def Mark.start : Mark := ⟨0, 0, 0⟩

/-- What can be wrong with a document. -/
inductive Problem where
  | notText
  | noToken
  | badDirective
  | badAnchor
  | badTag
  | badEscape
  | badIndentation
  | badBlockHeader
  | unterminated
  | missingColon
  | misplacedEntry
  | misplacedKey
  | misplacedValue
  | missingDocumentStart
  | missingContent
  | missingSeparator
  | unknownAnchor
  | unknownTag
  | badNumber
  | badKey
  | badMerge
  deriving DecidableEq

/-- Why a text is no document, and where. -/
structure Error where
  problem : Problem
  mark : Mark
  deriving DecidableEq

/-- A line end. -/
def isBreak (c : Char) : Bool := c = '\n' || c = '\u2028' || c = '\u2029'

/-- A blank inside a line. -/
def isBlank (c : Char) : Bool := c = ' ' || c = '\t'

/-- A blank or a line end. -/
def isSpace (c : Char) : Bool := isBlank c || isBreak c

/-- The position behind a character. -/
def Mark.next (m : Mark) (c : Char) : Mark :=
  if isBreak c then ⟨m.line + 1, 0, m.index + 1⟩ else ⟨m.line, m.column + 1, m.index + 1⟩

/-- The position behind `n` characters of one line. -/
def Mark.skip (m : Mark) (n : Nat) : Mark := ⟨m.line, m.column + n, m.index + n⟩

/-- Whether a character may stand in a text. -/
def isAllowed (c : Char) : Bool :=
  let n := c.toNat
  n = 0x09 || n = 0x0a || n = 0x0d || (0x20 ≤ n && n ≤ 0x7e) || n = 0x85 || (0xa0 ≤ n && n ≤ 0xfffd) ||
    0x10000 ≤ n

/-- The characters of a text with uniform line ends, put behind the reversed list `done`. -/
def uniformGo : List Char → List Char → List Char
  | [], done => done.reverse
  | '\r' :: '\n' :: rest, done => uniformGo rest ('\n' :: done)
  | c :: rest, done => uniformGo rest ((if c = '\r' || c = '\u0085' then '\n' else c) :: done)

/-- The characters of a byte string, or nothing if a character is not allowed. -/
def characters (bs : Bytes) : Except Error (List Char) :=
  let pieces := Utf8.pieces bs
  let chars := pieces.filterMap fun
    | .char c => if isAllowed c then some c else none
    | .stray _ => none
  if chars.length < pieces.length then .error ⟨.notText, Mark.start⟩
  else .ok (uniformGo (if chars.head? = some '\ufeff' then chars.drop 1 else chars) [])

/-- The bytes of some characters. -/
def encode (cs : List Char) : Bytes := cs.flatMap String.utf8EncodeChar

end CrateAudit.Yaml
