import CrateAudit.Yaml.Scalar

/-!
# Tokens

A text is cut into tokens. Besides what is written, tokens tell where the collections start and end that
only indentation shows, and where a key starts: a key is recognised by the colon behind it, so the tokens
in front of it are put in afterwards. What may become a key is remembered as a `Candidate`.
-/

namespace CrateAudit.Yaml

/-- The kinds of tokens. -/
inductive Kind where
  | versionDirective (major minor : Nat)
  | tagDirective (handle start : List Char)
  | documentStart
  | documentEnd
  | sequenceStart
  | mappingStart
  /-- the end of a collection that indentation shows -/
  | blockEnd
  | flowSequenceStart
  | flowSequenceEnd
  | flowMappingStart
  | flowMappingEnd
  | entry
  | separator
  | key
  | value
  | alias (name : List Char)
  | anchor (name : List Char)
  | tag (handle suffix : List Char)
  | scalar (plain : Bool) (text : List Char)
  | streamEnd
  deriving DecidableEq

/-- A token with the place where it starts and the place behind it. -/
structure Token where
  kind : Kind
  start : Mark
  stop : Mark

/-- What may turn out to be a key. -/
structure Candidate where
  /-- how many tokens are in front of it -/
  number : Nat
  mark : Mark
  /-- a colon must follow, since it stands where the keys of a mapping stand -/
  required : Bool

/-- The state of cutting. -/
structure Lexer where
  cursor : Cursor
  /-- the tokens so far, the last one first, and their number -/
  tokens : List Token := []
  count : Nat := 0
  /-- the columns of the open collections that indentation shows, the innermost first -/
  indents : List Nat := []
  /-- whether a key may start here -/
  keyAllowed : Bool := true
  /-- the candidate outside of brackets, or in the innermost ones, and those around them -/
  candidate : Option Candidate := none
  outer : List (Option Candidate) := []

namespace Lexer

/-- How the result of a step is given. -/
abbrev Step := Except Error Lexer

/-- Whether a bracket is open. -/
def inFlow (l : Lexer) : Bool := !l.outer.isEmpty

/-- Puts a token behind the others. -/
def push (l : Lexer) (t : Token) : Lexer := { l with tokens := t :: l.tokens, count := l.count + 1 }

/-- Puts a token behind the first `number` ones. -/
def insert (l : Lexer) (number : Nat) (t : Token) : Lexer :=
  let behind := l.count - number
  { l with tokens := l.tokens.take behind ++ t :: l.tokens.drop behind, count := l.count + 1 }

/-- Ends the collections that are indented more than a column; none is, if no column is given. -/
def unroll (l : Lexer) (column : Option Nat) : Lexer :=
  if l.inFlow then l
  else
    let closed := l.indents.takeWhile fun i => column.all (· < i)
    let token := ⟨.blockEnd, l.cursor.mark, l.cursor.mark⟩
    { l with
      indents := l.indents.drop closed.length
      tokens := closed.map (fun _ => token) ++ l.tokens
      count := l.count + closed.length }

/-- Starts a collection at a column, unless one is open there. -/
def roll (l : Lexer) (column number : Nat) (kind : Kind) (m : Mark) : Lexer :=
  if l.inFlow || (l.indents.head?).any (column ≤ ·) then l
  else { l with indents := column :: l.indents }.insert number ⟨kind, m, m⟩

/-- Gives up the candidate. -/
def dropCandidate (l : Lexer) : Step :=
  match l.candidate with
  | some c => if c.required then .error ⟨.missingColon, c.mark⟩ else .ok { l with candidate := none }
  | none => .ok l

/-- Remembers that a key may start here. -/
def saveCandidate (l : Lexer) : Step :=
  if l.keyAllowed then do
    let l ← l.dropCandidate
    let required := !l.inFlow && l.indents.head? = some l.cursor.mark.column
    return { l with candidate := some ⟨l.count, l.cursor.mark, required⟩ }
  else .ok l

/-- The longest key. -/
def keyLimit : Nat := 1024

/-- The candidate, if it can still become a key: it must stand in the same line and not too far in
front. -/
def liveCandidate (l : Lexer) : Except Error (Option Candidate) :=
  match l.candidate with
  | none => .ok none
  | some c =>
    if c.mark.line < l.cursor.mark.line || c.mark.index + keyLimit < l.cursor.mark.index then
      if c.required then .error ⟨.missingColon, c.mark⟩ else .ok none
    else .ok (some c)

/-- Takes a token of some characters of the line. -/
def take (l : Lexer) (size : Nat) (kind : Kind) : Lexer :=
  let stop := l.cursor.mark.skip size
  { l with cursor := ⟨l.cursor.rest.drop size, stop⟩ }.push ⟨kind, l.cursor.mark, stop⟩

/-! ### Structure -/

/-- `---` or `...`. -/
def documentIndicator (l : Lexer) (kind : Kind) : Step := do
  let l ← (l.unroll none).dropCandidate
  return { l with keyAllowed := false }.take 3 kind

/-- An opening bracket. -/
def openFlow (l : Lexer) (kind : Kind) : Step := do
  let l ← l.saveCandidate
  return { l with outer := l.candidate :: l.outer, candidate := none, keyAllowed := true }.take 1 kind

/-- A closing bracket. -/
def closeFlow (l : Lexer) (kind : Kind) : Step := do
  let l ← l.dropCandidate
  let l := match l.outer with
    | [] => l
    | c :: rest => { l with candidate := c, outer := rest }
  return { l with keyAllowed := false }.take 1 kind

/-- A comma. -/
def separator (l : Lexer) : Step := do
  let l ← l.dropCandidate
  return { l with keyAllowed := true }.take 1 .separator

/-- The dash of a sequence. -/
def entry (l : Lexer) : Step := do
  if !l.inFlow && !l.keyAllowed then throw ⟨.misplacedEntry, l.cursor.mark⟩
  let l ← (l.roll l.cursor.mark.column l.count .sequenceStart l.cursor.mark).dropCandidate
  return { l with keyAllowed := true }.take 1 .entry

/-- A question mark in front of a key. -/
def explicitKey (l : Lexer) : Step := do
  if !l.inFlow && !l.keyAllowed then throw ⟨.misplacedKey, l.cursor.mark⟩
  let l ← (l.roll l.cursor.mark.column l.count .mappingStart l.cursor.mark).dropCandidate
  return { l with keyAllowed := !l.inFlow }.take 1 .key

/-- The colon behind a key. -/
def value (l : Lexer) : Step := do
  match ← l.liveCandidate with
  | some c =>
    let l := (l.insert c.number ⟨.key, c.mark, c.mark⟩).roll c.mark.column c.number .mappingStart c.mark
    return { l with candidate := none, keyAllowed := false }.take 1 .value
  | none =>
    if !l.inFlow && !l.keyAllowed then throw ⟨.misplacedValue, l.cursor.mark⟩
    let l := l.roll l.cursor.mark.column l.count .mappingStart l.cursor.mark
    return { l with candidate := none, keyAllowed := !l.inFlow }.take 1 .value

/-! ### Names -/

/-- A character of a name. -/
def isNameChar (c : Char) : Bool := c.isAlphanum || c = '_' || c = '-'

/-- An anchor or a reference to one. -/
def anchor (l : Lexer) (kind : List Char → Kind) : Step := do
  let l ← l.saveCandidate
  let name := (l.cursor.rest.drop 1).takeWhile isNameChar
  let behind := (l.cursor.rest.drop (1 + name.length)).head?
  if name.isEmpty || !behind.all (fun c => isSpace c || "?:,]\x7d%@`".toList.contains c) then
    throw ⟨.badAnchor, l.cursor.mark⟩
  return { l with keyAllowed := false }.take (1 + name.length) (kind name)

/-- A character of a tag. -/
def isTagChar (c : Char) : Bool := isNameChar c || ";/?:@&=+$.!~*'()%".toList.contains c

/-- A tag: `!<…>`, `!name!rest` or `!rest`. -/
def tag (l : Lexer) : Step := do
  let l ← l.saveCandidate
  let body := l.cursor.rest.drop 1
  let name := body.takeWhile isNameChar
  let (handle, suffix, size) :=
    if body.head? = some '<' then
      let uri := (body.drop 1).takeWhile fun c => isTagChar c || c = ',' || c = '[' || c = ']'
      ([], uri, if (body.drop (1 + uri.length)).head? = some '>' then uri.length + 3 else 0)
    else if (body.drop name.length).head? = some '!' then
      let rest := (body.drop (name.length + 1)).takeWhile isTagChar
      ('!' :: name ++ ['!'], rest, if rest.isEmpty then 0 else name.length + 2 + rest.length)
    else
      let rest := body.takeWhile isTagChar
      if rest.isEmpty then ([], ['!'], 1) else (['!'], rest, rest.length + 1)
  if size = 0 || suffix.isEmpty || !((l.cursor.rest.drop size).head?).all isSpace then
    throw ⟨.badTag, l.cursor.mark⟩
  return { l with keyAllowed := false }.take size (.tag handle suffix)

/-- The words of a line in front of a comment. -/
def words (line : List Char) : List (List Char) :=
  let (current, done) := line.foldr
    (fun c (current, done) => if isBlank c then ([], current :: done) else (c :: current, done)) ([], [])
  ((current :: done).filter (!·.isEmpty)).takeWhile (·.head? ≠ some '#')

/-- A number of a version. -/
def versionPart? (cs : List Char) : Option Nat :=
  if cs.isEmpty || !cs.all Char.isDigit || 9 < cs.length then none
  else some (cs.foldl (fun n c => n * 10 + (c.toNat - 48)) 0)

/-- A directive: a line that starts with `%`. -/
def directive (l : Lexer) : Step := do
  let l ← (l.unroll none).dropCandidate
  let line := l.cursor.rest.takeWhile (!isBreak ·)
  let kind ← match words (line.drop 1) with
    | [['Y', 'A', 'M', 'L'], version] =>
      match versionPart? (version.takeWhile (· ≠ '.')), versionPart? ((version.dropWhile (· ≠ '.')).drop 1) with
      | some major, some minor => pure (Kind.versionDirective major minor)
      | _, _ => throw ⟨.badDirective, l.cursor.mark⟩
    | [['T', 'A', 'G'], handle, start] => pure (.tagDirective handle start)
    | _ => throw ⟨.badDirective, l.cursor.mark⟩
  return { l with keyAllowed := false }.take line.length kind

/-! ### Scalars -/

/-- Takes a scalar that ends at a place. -/
def pushScalar (l : Lexer) (plain : Bool) (text : List Char) (stop : Mark) (next : Cursor) : Lexer :=
  { l with cursor := next }.push ⟨.scalar plain text.reverse, l.cursor.mark, stop⟩

/-- A plain scalar. -/
def plainScalar (l : Lexer) : Step := do
  let l ← l.saveCandidate
  let indent := ((l.indents.head?).map (· + 1)).getD 0
  let (p, next) ← plainGo l.inFlow indent l.cursor.rest l.cursor.mark { stop := l.cursor.mark }
  return { l with keyAllowed := p.folding.atLineStart }.pushScalar true p.folding.text p.stop next

/-- A scalar between quotes. -/
def quotedScalar (l : Lexer) (single : Bool) : Step := do
  let l ← l.saveCandidate
  let rest := l.cursor.rest.drop 1
  let m := l.cursor.mark.skip 1
  let (text, next) ← if single then singleGo rest m {} else doubleGo rest m .none {}
  return { l with keyAllowed := false }.pushScalar false text next.mark next

/-- A block scalar. -/
def blockScalar (l : Lexer) (folded : Bool) : Step := do
  let l ← l.dropCandidate
  let (text, next) ← block folded l.indents.head? ⟨l.cursor.rest.drop 1, l.cursor.mark.skip 1⟩
  return { l with keyAllowed := true }.pushScalar false text next.mark next

/-! ### The whole text -/

/-- Goes over blanks, comments and line ends. A tab counts as a blank only where no key may start. -/
def skipSpace (inFlow : Bool) : List Char → Mark → Bool → Bool → Cursor × Bool
  | [], m, keyAllowed, _ => (⟨[], m⟩, keyAllowed)
  | c :: rest, m, keyAllowed, inComment =>
    if isBreak c then skipSpace inFlow rest (m.next c) (keyAllowed || !inFlow) false
    else if inComment || c = ' ' || (c = '\t' && (inFlow || !keyAllowed)) ||
        (c = '\ufeff' && m.column = 0) then
      skipSpace inFlow rest (m.next c) keyAllowed inComment
    else if c = '#' then skipSpace inFlow rest (m.next c) keyAllowed true
    else (⟨c :: rest, m⟩, keyAllowed)

/-- Whether a plain scalar may start with a character. -/
def startsPlain (inFlow : Bool) (c : Char) (rest : List Char) : Bool :=
  !(isSpace c || "-?:,[]\x7b\x7d#&*!|>'\"%@`".toList.contains c) ||
    (c = '-' && !(rest.head?).any isBlank) ||
    (!inFlow && (c = '?' || c = ':') && !(rest.head?).all isSpace)

/-- Takes one token that starts with `c`. -/
def next (l : Lexer) (c : Char) (rest : List Char) : Step :=
  let spaced := (rest.head?).all isSpace
  let lineStart := l.cursor.mark.column = 0
  if lineStart && c = '%' then l.directive
  else if lineStart && isSeparator (c :: rest) then
    l.documentIndicator (if c = '-' then .documentStart else .documentEnd)
  else match c with
    | '[' => l.openFlow .flowSequenceStart
    | '\x7b' => l.openFlow .flowMappingStart
    | ']' => l.closeFlow .flowSequenceEnd
    | '\x7d' => l.closeFlow .flowMappingEnd
    | ',' => l.separator
    | '*' => l.anchor .alias
    | '&' => l.anchor .anchor
    | '!' => l.tag
    | '\'' => l.quotedScalar true
    | '"' => l.quotedScalar false
    | c =>
      if c = '-' && spaced then l.entry
      else if c = '?' && (l.inFlow || spaced) then l.explicitKey
      else if c = ':' && (l.inFlow || spaced) then l.value
      else if c = '|' && !l.inFlow then l.blockScalar false
      else if c = '>' && !l.inFlow then l.blockScalar true
      else if startsPlain l.inFlow c rest then l.plainScalar
      else .error ⟨.noToken, l.cursor.mark⟩

/-- Takes the end of the text. -/
def finish (l : Lexer) : Except Error (List Token) := do
  let m := l.cursor.mark
  let m := if m.column = 0 then m else ⟨m.line + 1, 0, m.index⟩
  let l ← ({ l with cursor := ⟨[], m⟩ }.unroll none).dropCandidate
  return (l.push ⟨.streamEnd, m, m⟩).tokens.reverse

/-- Takes all tokens. Every token takes at least one character, so the length of the text bounds their
number. -/
def run : Nat → Lexer → Except Error (List Token)
  | 0, l => l.finish
  | fuel + 1, l =>
    let (cursor, keyAllowed) := skipSpace l.inFlow l.cursor.rest l.cursor.mark l.keyAllowed false
    let l := { l with cursor := cursor, keyAllowed := keyAllowed }
    match cursor.rest with
    | [] => l.finish
    | c :: rest =>
      match (l.unroll (some cursor.mark.column)).next c rest with
      | .error e => .error e
      | .ok l => run fuel l

end Lexer

/-- The tokens of a text. -/
def tokens (cs : List Char) : Except Error (List Token) :=
  Lexer.run (cs.length + 1) { cursor := ⟨cs, Mark.start⟩ }

end CrateAudit.Yaml
