import CrateAudit.Json
import CrateAudit.Yaml.Moment
import CrateAudit.Yaml.Tree

/-!
# Printing documents

A document is printed with one field or item a line, nested ones four columns further right. A text is
printed as it stands wherever a reader takes it for that text; otherwise it stands between quotes, or as a
block of lines if it has several. Byte strings that are no text are printed as binary data.
-/

namespace CrateAudit.Yaml.Printer

open Bytes

/-! ### What a text holds -/

/-- A line end, also one that is not used in documents. -/
def endsLine (c : Char) : Bool :=
  c = '\n' || c = '\r' || c = '\u0085' || c = '\u2028' || c = '\u2029'

/-- Whether a character may be printed as it is. -/
def isPlainlyPrinted (c : Char) : Bool :=
  let n := c.toNat
  n = 0x0a || (0x20 ≤ n && n ≤ 0x7e) || (0xa0 ≤ n && n < 0xfffe && n ≠ 0xfeff)

/-- Whether two characters of some kinds follow each other. -/
def hasPair (first second : Char → Bool) (cs : List Char) : Bool :=
  (cs.zip (cs.drop 1)).any fun (a, b) => first a && second b

/-- The characters that mean something at the start of a plain scalar. -/
def startIndicators : List Char := "#,[]\x7b\x7d&*!|>'\"%@".toList ++ [Char.ofNat 0x60]

/-- Whether a character in its place means something other than itself; `before` and `after` are its
neighbours. -/
def isIndicator (before : Option Char) (c : Char) (after : Option Char) : Bool :=
  let endsHere := after.all isBlank
  match before with
  | none => startIndicators.contains c || (endsHere && (c = '?' || c = ':' || c = '-'))
  | some b => (c = ':' && endsHere) || (c = '#' && (isBlank b || endsLine b || b = '\x00'))

/-- Whether some characters hold an indicator; `before` is the character in front of them. -/
def hasIndicator : Option Char → List Char → Bool
  | _, [] => false
  | before, c :: rest => isIndicator before c rest.head? || hasIndicator (some c) rest

/-- Whether a text starts like a mark between documents. -/
def startsLikeMark (cs : List Char) : Bool :=
  "---".toList.isPrefixOf cs || "...".toList.isPrefixOf cs

/-- Whether a text starts or ends with a character of a kind. -/
def hasAtEdge (kind : Char → Bool) (cs : List Char) : Bool := cs.head?.any kind || cs.getLast?.any kind

/-- A blank that counts as such inside a line. -/
def isGap (c : Char) : Bool := c = ' '

/-- Whether a text has a character that has to be escaped; tabs apart. -/
def hasSpecial (cs : List Char) : Bool := cs.any fun c => !isPlainlyPrinted c && c ≠ '\t'

/-- Whether a text may stand between single quotes. -/
def fitsSingle (cs : List Char) : Bool :=
  !(hasPair endsLine isGap cs || hasPair isGap endsLine cs || cs.contains '\t' || hasSpecial cs)

/-- Whether a text may stand without quotes. -/
def fitsPlain (cs : List Char) : Bool :=
  fitsSingle cs && !hasAtEdge isGap cs && !cs.any endsLine && !startsLikeMark cs && !hasIndicator none cs

/-- Whether a text may be printed as a block of lines. -/
def fitsBlock (cs : List Char) : Bool :=
  !(cs.getLast?.any isGap || hasPair isGap endsLine cs || hasSpecial cs)

/-! ### Texts that read as something else -/

/-- The words that older readers take for truth values. -/
def olderWords : List Bytes :=
  ["y", "Y", "yes", "Yes", "YES", "on", "On", "ON", "n", "N", "no", "No", "NO", "off", "Off", "OFF"].map lit

/-- Whether a text is a number of minutes or seconds below sixty, as older readers take them. -/
def isSixtieth (bs : Bytes) : Bool :=
  match bs with
  | [d] => isDigit d
  | [t, d] => 0x30 ≤ t && t ≤ 0x35 && isDigit d
  | _ => false

/-- Whether older readers take a text for a number to the base sixty. -/
def isSexagesimal (bs : Bytes) : Bool :=
  let parts := pieces 0x3a (signed bs).2
  let last := parts.getLast?.getD []
  let whole := last.takeWhile (· ≠ 0x2e)
  let places := last.drop (whole.length + 1)
  match parts with
  | first :: _ :: _ =>
    first.head?.any isDigit && first.all (fun b => isDigit b || b = 0x5f) &&
      ((parts.dropLast.drop 1) ++ [whole]).all isSixtieth && places.all fun b => isDigit b || b = 0x5f
  | _ => false

/-- Whether every reader takes a plain text for that text. -/
def readsAsText (bs : Bytes) : Bool :=
  plainScalar bs = .text bs && !Moment.isMoment bs && !isSexagesimal bs && !olderWords.contains bs

/-! ### Scalars -/

/-- A number in hexadecimal with capital letters. -/
def capitalHex (width n : Nat) : Bytes :=
  (hex width n).map fun b => if 0x61 ≤ b then b - 0x20 else b

/-- The escape of a character. -/
def escape (c : Char) : Bytes :=
  let n := c.toNat
  match [(0x00, "0"), (0x07, "a"), (0x08, "b"), (0x09, "t"), (0x0a, "n"), (0x0b, "v"), (0x0c, "f"), (0x0d, "r"),
      (0x1b, "e"), (0x22, "\""), (0x5c, "\\"), (0x85, "N"), (0xa0, "_"), (0x2028, "L"), (0x2029, "P")].lookup n with
  | some short => lit "\\" ++ lit short
  | none =>
    if n ≤ 0xff then lit "\\x" ++ capitalHex 2 n
    else if n ≤ 0xffff then lit "\\u" ++ capitalHex 4 n
    else lit "\\U" ++ capitalHex 8 n

/-- A text between double quotes. -/
def doubleQuoted (cs : List Char) : Bytes :=
  lit "\"" ++ (cs.flatMap fun c =>
    if !isPlainlyPrinted c || endsLine c || c = '"' || c = '\\' then escape c else String.utf8EncodeChar c) ++ lit "\""

/-- Blanks up to a column. -/
def margin (columns : Nat) : Bytes := List.replicate columns 0x20

/-- The characters of a text between single quotes; behind line ends the next line starts at a margin. -/
def singleGo (columns : Nat) : Bool → List Char → Bytes
  | _, [] => []
  | broken, c :: rest =>
    if endsLine c then String.utf8EncodeChar c ++ singleGo columns true rest
    else (if broken then margin columns else []) ++
      (if c = '\'' then lit "''" else String.utf8EncodeChar c) ++ singleGo columns false rest

/-- A text between single quotes. -/
def singleQuoted (columns : Nat) (cs : List Char) : Bytes := lit "'" ++ singleGo columns false cs ++ lit "'"

/-- How the end of a block is to be read: without its last line end, with one, or with all of them. -/
def blockEnd (cs : List Char) : Bytes :=
  match cs.reverse with
  | [] => lit "-"
  | c :: rest => if !endsLine c then lit "-" else if rest.head?.all endsLine then lit "+" else []

/-- The lines of a block at a margin. -/
def blockGo (columns : Nat) : Bool → List Char → Bytes
  | _, [] => []
  | fresh, c :: rest =>
    if endsLine c then String.utf8EncodeChar c ++ blockGo columns true rest
    else (if fresh then margin columns else []) ++ String.utf8EncodeChar c ++ blockGo columns false rest

/-- A text as a block of lines at a margin. A block that starts with a blank or a line end says how far
its lines are indented. -/
def block (columns : Nat) (cs : List Char) : Bytes :=
  let startsBlank := cs.head?.any fun c => isGap c || endsLine c
  let header := lit "|" ++ (if startsBlank then lit "4" else []) ++ blockEnd cs
  if cs.head?.any endsLine then header ++ blockGo columns true cs
  else header ++ [newline] ++ blockGo columns true cs

/-- A text; a block of lines is printed at a margin. -/
def characters (columns : Nat) (cs : List Char) : Bytes :=
  if cs.contains '\n' then
    if fitsBlock cs then block columns cs else doubleQuoted cs
  else if !readsAsText (encode cs) then doubleQuoted cs
  else if fitsPlain cs then encode cs
  else if fitsSingle cs then singleQuoted columns cs
  else doubleQuoted cs

/-- The sign of six bits. -/
def base64Digit (n : Nat) : UInt8 :=
  if n < 26 then (0x41 + n).toUInt8
  else if n < 52 then (0x61 + n - 26).toUInt8
  else if n < 62 then (0x30 + n - 52).toUInt8
  else if n = 62 then 0x2b else 0x2f

/-- Bytes as signs of six bits each. -/
def base64 : Bytes → Bytes
  | a :: b :: c :: rest =>
    let n := a.toNat * 65536 + b.toNat * 256 + c.toNat
    [base64Digit (n / 262144), base64Digit (n / 4096 % 64), base64Digit (n / 64 % 64), base64Digit (n % 64)] ++
      base64 rest
  | [a, b] =>
    let n := a.toNat * 1024 + b.toNat * 4
    [base64Digit (n / 4096), base64Digit (n / 64 % 64), base64Digit (n % 64), 0x3d]
  | [a] => [base64Digit (a.toNat / 4), base64Digit (a.toNat % 4 * 16), 0x3d, 0x3d]
  | [] => []

/-- Breaks a long text into lines of seventy signs, with as many steps as it has bytes. -/
def wrapGo : Nat → Bytes → Bytes
  | 0, bs => bs
  | steps + 1, bs => if bs.isEmpty then [] else bs.take 70 ++ [newline] ++ wrapGo steps (bs.drop 70)

/-- A byte string that is no text. -/
def binary (columns : Nat) (bs : Bytes) : Bytes :=
  let signs := base64 bs
  let ofBytes := fun (bs : Bytes) => bs.map fun b => Char.ofNat b.toNat
  lit "!!binary " ++
    if signs.length < 70 then signs else block columns (ofBytes (wrapGo signs.length signs))

/-- A byte string. -/
def scalar (columns : Nat) (bs : Bytes) : Bytes :=
  if Utf8.isValid bs then
    characters columns ((Utf8.pieces bs).filterMap fun
      | .char c => some c
      | .stray _ => none)
  else binary columns bs

/-! ### Documents -/

/-- A scalar with a line end behind it; a block may have one already. -/
def endLine (bs : Bytes) : Bytes := if bs.getLast? = some newline then bs else bs ++ [newline]

/-- The next column that nested fields and items start at. -/
def deeper (columns : Nat) : Nat := (columns + 4) / 4 * 4

mutual

/-- What stands behind a colon or a dash, to the end of its last line: its own nested lines start at
`nested`, and the lines of a block at `margin`. -/
def value (nested margin : Nat) : Json → Bytes
  | .null => lit " null\n"
  | .bool b => (if b then lit " true" else lit " false") ++ [newline]
  | .number i => lit " " ++ integer i ++ [newline]
  | .text s => lit " " ++ endLine (scalar margin s)
  | .array [] => lit " []\n"
  | .array (item :: rest) => [newline] ++ items nested (item :: rest)
  | .object [] => lit " \x7b\x7d\n"
  | .object (field :: rest) => [newline] ++ fields nested (field :: rest)

/-- The items of a list at a column. -/
def items (columns : Nat) : List Json → Bytes
  | [] => []
  | item :: rest =>
    margin columns ++ lit "-" ++ value (deeper columns) (columns + 2) item ++ items columns rest

/-- The fields of a record at a column. -/
def fields (columns : Nat) : List (Bytes × Json) → Bytes
  | [] => []
  | (name, v) :: rest =>
    margin columns ++ name ++ lit ":" ++ value (deeper columns) (deeper columns) v ++ fields columns rest

end

end CrateAudit.Yaml.Printer

namespace CrateAudit.Yaml

/-- The text of a document. The names of its fields are printed as they stand. -/
def print : Json → Bytes
  | .object members => Printer.fields 0 members
  | v => Printer.value 0 0 v

end CrateAudit.Yaml
