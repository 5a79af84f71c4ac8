import CrateAudit.Bytes.Basic

/-!
# White space in byte strings

White space are the characters with the Unicode property of that name, in their UTF-8 encoding; stray
bytes are never white space. An encoding starts with a byte that occurs nowhere inside another one, so
white space is found by looking at the bytes alone, from either end.
-/

namespace CrateAudit.Bytes

/-- The white-space characters outside ASCII. -/
def wideSpaces : List Bytes :=
  ["\u0085", "\u00a0", "\u1680", "\u2000", "\u2001", "\u2002", "\u2003", "\u2004", "\u2005", "\u2006",
   "\u2007", "\u2008", "\u2009", "\u200a", "\u2028", "\u2029", "\u202f", "\u205f", "\u3000"].map lit

/-- The white-space characters of ASCII. -/
def isAsciiSpace (b : UInt8) : Bool := (0x09 ≤ b && b ≤ 0x0d) || b = 0x20

/-- The length of the white-space character that starts `bs`, or zero. -/
def leadingSpace : Bytes → Nat
  | [] => 0
  | b :: rest =>
    if isAsciiSpace b then 1
    else if b < 0x80 then 0
    else match wideSpaces.find? (·.isPrefixOf (b :: rest)) with
      | some s => s.length
      | none => 0

/-- The length of the white-space character that ends the byte string whose reverse is given, or
zero. -/
def trailingSpace : Bytes → Nat
  | [] => 0
  | b :: rest =>
    if isAsciiSpace b then 1
    else if b < 0x80 then 0
    else match wideSpaces.find? (fun s => s.reverse.isPrefixOf (b :: rest)) with
      | some s => s.length
      | none => 0

/-- Drops white space, measured by `space`, from the front; the counter holds how many bytes of a
character are still to be dropped. -/
def dropSpaces (space : Bytes → Nat) : Nat → Bytes → Bytes
  | _, [] => []
  | skip + 1, _ :: rest => dropSpaces space skip rest
  | 0, b :: rest =>
    match space (b :: rest) with
    | 0 => b :: rest
    | size + 1 => dropSpaces space size rest

/-- The byte string without the white space at its two ends. -/
def trim (bs : Bytes) : Bytes :=
  (dropSpaces trailingSpace 0 (dropSpaces leadingSpace 0 bs).reverse).reverse

/-- Cuts into words: `skip` bytes of a white-space character are still to be passed over, `word` is the
open word reversed, `done` are the finished ones reversed. -/
def fieldsGo : Nat → Bytes → Bytes → List Bytes → List Bytes
  | _, [], word, done => (if word.isEmpty then done else word.reverse :: done).reverse
  | skip + 1, _ :: rest, word, done => fieldsGo skip rest word done
  | 0, b :: rest, word, done =>
    match leadingSpace (b :: rest) with
    | 0 => fieldsGo 0 rest (b :: word) done
    | size + 1 => fieldsGo size rest [] (if word.isEmpty then done else word.reverse :: done)

/-- The maximal stretches without white space. -/
def fields (bs : Bytes) : List Bytes := fieldsGo 0 bs [] []

end CrateAudit.Bytes
