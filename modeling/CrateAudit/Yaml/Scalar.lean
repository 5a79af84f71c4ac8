import CrateAudit.Yaml.Text

/-!
# Scalars as they are written

A scalar is written plainly, between single or double quotes, or as a block of indented lines. In all
but the last form a line end inside a scalar becomes a blank, and blank lines become line ends.

The readers go through the text character by character. What they have read is kept in a `Folding`,
which holds back blanks and line ends until it is known what follows them.
-/

namespace CrateAudit.Yaml

/-- What was read of a scalar. All texts are reversed. -/
structure Folding where
  text : List Char := []
  /-- blanks that are held back -/
  blanks : List Char := []
  /-- the first line end since the last character, if any -/
  firstBreak : Option Char := none
  /-- the line ends behind the first -/
  moreBreaks : List Char := []
  /-- whether the scalar goes on at the beginning of a line -/
  atLineStart : Bool := false

namespace Folding

/-- Settles what is held back: a single line end is a blank, further ones stand for themselves. -/
def settle (f : Folding) : List Char :=
  if f.atLineStart then
    match f.firstBreak with
    | none => f.moreBreaks ++ f.text
    | some b =>
      if b = '\n' then if f.moreBreaks.isEmpty then ' ' :: f.text else f.moreBreaks ++ f.text
      else f.moreBreaks ++ b :: f.text
  else f.blanks ++ f.text

/-- A character of the scalar. -/
def push (f : Folding) (c : Char) : Folding := { text := c :: f.settle }

/-- A blank, which counts only inside a line. -/
def blank (f : Folding) (c : Char) : Folding :=
  if f.atLineStart then f else { f with blanks := c :: f.blanks }

/-- A line end. -/
def lineEnd (f : Folding) (c : Char) : Folding :=
  if f.atLineStart then { f with moreBreaks := c :: f.moreBreaks }
  else { f with blanks := [], firstBreak := some c, atLineStart := true }

/-- A line end that is escaped: the scalar goes on in the next line without a blank. -/
def joinLine (f : Folding) : Folding := { text := f.settle, atLineStart := true }

end Folding

/-- A place in a text: what follows, and where it is. -/
structure Cursor where
  rest : List Char
  mark : Mark

/-- Whether a text starts with a line that separates documents. -/
def isSeparator (cs : List Char) : Bool :=
  match cs with
  | a :: b :: c :: rest => a = b && b = c && (a = '-' || a = '.') && (rest.head?).all isSpace
  | _ => false

/-! ### Plain scalars -/

/-- Whether a plain scalar ends in front of a character that is neither blank nor a line end. -/
def endsPlain (inFlow : Bool) (c : Char) (rest : List Char) : Bool :=
  (c = ':' && (rest.head?).all isSpace) ||
    (inFlow && (c = ',' || c = '?' || c = '[' || c = ']' || c = '\x7b' || c = '\x7d'))

/-- What was read of a plain scalar. -/
structure Plain where
  folding : Folding := {}
  /-- where its last character ends -/
  stop : Mark
  /-- whether a blank or a line end was read last -/
  betweenWords : Bool := false

/-- Reads a plain scalar inside a collection that is indented less than `indent`. -/
def plainGo (inFlow : Bool) (indent : Nat) : List Char → Mark → Plain → Except Error (Plain × Cursor)
  | [], m, p => .ok (p, ⟨[], m⟩)
  | c :: rest, m, p =>
    if isBlank c then
      if p.folding.atLineStart && m.column < indent && c = '\t' then .error ⟨.badIndentation, m⟩
      else plainGo inFlow indent rest (m.next c) { p with folding := p.folding.blank c, betweenWords := true }
    else if isBreak c then
      plainGo inFlow indent rest (m.next c) { p with folding := p.folding.lineEnd c, betweenWords := true }
    else if p.betweenWords &&
        ((!inFlow && m.column < indent) || c = '#' || (m.column = 0 && isSeparator (c :: rest))) then
      .ok (p, ⟨c :: rest, m⟩)
    else if endsPlain inFlow c rest then .ok (p, ⟨c :: rest, m⟩)
    else plainGo inFlow indent rest (m.next c) ⟨p.folding.push c, m.next c, false⟩

/-! ### Quoted scalars -/

/-- The value of a hexadecimal digit. -/
def hexValue? (c : Char) : Option Nat :=
  if '0' ≤ c && c ≤ '9' then some (c.toNat - 48)
  else if 'a' ≤ c && c ≤ 'f' then some (c.toNat - 87)
  else if 'A' ≤ c && c ≤ 'F' then some (c.toNat - 55)
  else none

/-- The character that an escape by one letter stands for. -/
def escaped? : Char → Option Char
  | '0' => some '\x00'
  | 'a' => some '\x07'
  | 'b' => some '\x08'
  | 't' => some '\t'
  | '\t' => some '\t'
  | 'n' => some '\n'
  | 'v' => some '\x0b'
  | 'f' => some '\x0c'
  | 'r' => some '\r'
  | 'e' => some '\x1b'
  | ' ' => some ' '
  | '"' => some '"'
  | '\'' => some '\''
  | '/' => some '/'
  | '\\' => some '\\'
  | 'N' => some '\u0085'
  | '_' => some '\u00a0'
  | 'L' => some '\u2028'
  | 'P' => some '\u2029'
  | _ => none

/-- The number of digits of an escape by number. -/
def escapeDigits? : Char → Option Nat
  | 'x' => some 2
  | 'u' => some 4
  | 'U' => some 8
  | _ => none

/-- The character with a number, unless it is half of a pair or out of range. -/
def charOfNumber? (n : Nat) : Option Char :=
  if (0xd800 ≤ n && n ≤ 0xdfff) || 0x10ffff < n then none else some (Char.ofNat n)

/-- What an escape still waits for: its letter, or digits, with the number so far. -/
inductive Escape where
  | none
  | letter
  | digits (left value : Nat)

/-- Reads a scalar in double quotes behind its opening quote. -/
def doubleGo : List Char → Mark → Escape → Folding → Except Error (List Char × Cursor)
  | [], m, _, _ => .error ⟨.unterminated, m⟩
  | c :: rest, m, .letter, f =>
    if isBreak c then doubleGo rest (m.next c) .none f.joinLine
    else match escaped? c with
      | some e => doubleGo rest (m.next c) .none (f.push e)
      | none => match escapeDigits? c with
        | some n => doubleGo rest (m.next c) (.digits n 0) f
        | none => .error ⟨.badEscape, m⟩
  | c :: rest, m, .digits left value, f =>
    match hexValue? c with
    | none => .error ⟨.badEscape, m⟩
    | some d =>
      if left ≤ 1 then
        match charOfNumber? (value * 16 + d) with
        | some e => doubleGo rest (m.next c) .none (f.push e)
        | none => .error ⟨.badEscape, m⟩
      else doubleGo rest (m.next c) (.digits (left - 1) (value * 16 + d)) f
  | c :: rest, m, .none, f =>
    if m.column = 0 && isSeparator (c :: rest) then .error ⟨.unterminated, m⟩
    else if isBlank c then doubleGo rest (m.next c) .none (f.blank c)
    else if isBreak c then doubleGo rest (m.next c) .none (f.lineEnd c)
    else if c = '"' then .ok (f.settle, ⟨rest, m.next c⟩)
    else if c = '\\' then doubleGo rest (m.next c) .letter f
    else doubleGo rest (m.next c) .none (f.push c)

/-- Reads a scalar in single quotes behind its opening quote; a quote inside it is written twice. -/
def singleGo : List Char → Mark → Folding → Except Error (List Char × Cursor)
  | [], m, _ => .error ⟨.unterminated, m⟩
  | '\'' :: '\'' :: rest, m, f => singleGo rest (m.skip 2) (f.push '\'')
  | c :: rest, m, f =>
    if m.column = 0 && isSeparator (c :: rest) then .error ⟨.unterminated, m⟩
    else if isBlank c then singleGo rest (m.next c) (f.blank c)
    else if isBreak c then singleGo rest (m.next c) (f.lineEnd c)
    else if c = '\'' then .ok (f.settle, ⟨rest, m.next c⟩)
    else singleGo rest (m.next c) (f.push c)

/-! ### Block scalars -/

/-- What happens to the line ends at the end of a block. -/
inductive Chomping where
  | strip
  | clip
  | keep
  deriving DecidableEq

/-- The header of a block behind its indicator: how it is chomped, and how much deeper than the
collection around it it is indented, if that is said. -/
def blockHeader (cs : List Char) : Chomping × Option Nat × List Char :=
  let chomping := fun c => if c = '-' then some Chomping.strip else if c = '+' then some .keep else none
  let digit := fun (c : Char) => if '0' ≤ c && c ≤ '9' then some (c.toNat - 48) else none
  match cs with
  | a :: b :: rest =>
    match chomping a, digit a, chomping b, digit b with
    | some ch, _, _, some n => (ch, some n, rest)
    | some ch, _, _, none => (ch, none, b :: rest)
    | none, some n, some ch, _ => (ch, some n, rest)
    | none, some n, none, _ => (.clip, some n, b :: rest)
    | none, none, _, _ => (.clip, none, a :: b :: rest)
  | [a] =>
    match chomping a, digit a with
    | some ch, _ => (ch, none, [])
    | none, some n => (.clip, some n, [])
    | none, none => (.clip, none, [a])
  | [] => (.clip, none, [])

/-- Goes over indentation and empty lines. The result has the line ends, reversed, the largest column
that was reached, and the place of the first line that is not empty. Without an indentation all blanks
count as such. -/
def emptyLines (indent : Option Nat) : List Char → Mark → List Char → Nat →
    Except Error (List Char × Nat × Cursor)
  | [], m, breaks, widest => .ok (breaks, max widest m.column, ⟨[], m⟩)
  | c :: rest, m, breaks, widest =>
    let indenting := indent.all (m.column < ·)
    if indenting && c = ' ' then emptyLines indent rest (m.next c) breaks (max widest (m.column + 1))
    else if indenting && c = '\t' then .error ⟨.badIndentation, m⟩
    else if isBreak c then emptyLines indent rest (m.next c) (c :: breaks) (max widest m.column)
    else .ok (breaks, max widest m.column, ⟨c :: rest, m⟩)

/-- What was read of a block. All texts are reversed. -/
structure Block where
  text : List Char := []
  /-- the end of the last line -/
  lineEnd : List Char := []
  /-- the ends of empty lines behind it -/
  emptyEnds : List Char := []
  /-- whether the last line starts with a blank -/
  deeper : Bool := false

/-- The text in front of a further line; a folded block joins two lines by a blank, unless one of them
starts with a blank. -/
def Block.settle (b : Block) (folded startsBlank : Bool) : List Char :=
  if folded && !b.deeper && !startsBlank && b.lineEnd = ['\n'] then
    if b.emptyEnds.isEmpty then ' ' :: b.text else b.emptyEnds ++ b.text
  else b.emptyEnds ++ b.lineEnd ++ b.text

/-- Reads the lines of a block that is indented by `indent`. Every line takes at least one character,
so the length of the text bounds their number. -/
def blockLines (folded : Bool) (indent : Nat) : Nat → Cursor → Block → Except Error (Block × Cursor)
  | 0, cursor, b => .ok (b, cursor)
  | fuel + 1, cursor, b =>
    match cursor.rest with
    | [] => .ok (b, cursor)
    | c :: _ =>
      if cursor.mark.column ≠ indent then .ok (b, cursor)
      else
        let line := cursor.rest.takeWhile (!isBreak ·)
        let behind := cursor.rest.dropWhile (!isBreak ·)
        let text := line.reverse ++ b.settle folded (isBlank c)
        let m := cursor.mark.skip line.length
        match behind with
        | [] => .ok (⟨text, [], [], isBlank c⟩, ⟨[], m⟩)
        | e :: rest =>
          match emptyLines (some indent) rest (m.next e) [] 0 with
          | .error e => .error e
          | .ok (breaks, _, next) => blockLines folded indent fuel next ⟨text, [e], breaks, isBlank c⟩

/-- Reads a block scalar behind its indicator, inside a collection that is indented by `outer`, or
outside of any. -/
def block (folded : Bool) (outer : Option Nat) (cursor : Cursor) : Except Error (List Char × Cursor) :=
  let (chomping, depth, rest) := blockHeader cursor.rest
  if depth = some 0 then .error ⟨.badBlockHeader, cursor.mark⟩
  else
    let blanks := rest.takeWhile isBlank
    let behind := rest.drop blanks.length
    let comment := if behind.head? = some '#' then behind.takeWhile (!isBreak ·) else []
    let behind := behind.drop comment.length
    let m := cursor.mark.skip (cursor.rest.length - behind.length)
    match behind with
    | [] => .ok ([], ⟨[], m⟩)
    | c :: rest =>
      if !isBreak c then .error ⟨.badBlockHeader, m⟩
      else
        let indent := depth.map fun n => (outer.getD 0) + n
        match emptyLines indent rest (m.next c) [] 0 with
        | .error e => .error e
        | .ok (breaks, widest, next) =>
          let indent := indent.getD (max (max widest ((outer.map (· + 1)).getD 0)) 1)
          match blockLines folded indent (next.rest.length + 1) next { emptyEnds := breaks } with
          | .error e => .error e
          | .ok (b, next) =>
            let kept := if chomping = .strip then b.text else b.lineEnd ++ b.text
            .ok (if chomping = .keep then b.emptyEnds ++ kept else kept, next)

end CrateAudit.Yaml
