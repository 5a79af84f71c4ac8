import CrateAudit.Bytes.Printable
import CrateAudit.Bytes.Utf8

/-!
# Quoted text in messages

A message shows a byte string between double quotes. Printable characters stand for themselves; quotes,
backslashes and everything that is not printable is escaped, stray bytes by their value, so that the
quoted form is one line of printable text and determines the byte string.
-/

namespace CrateAudit.Quoted

/-- The letter of the one-letter escapes. -/
def shortEscape? (c : Char) : Option String :=
  match c.toNat with
  | 0x07 => some "a"
  | 0x08 => some "b"
  | 0x0c => some "f"
  | 0x0a => some "n"
  | 0x0d => some "r"
  | 0x09 => some "t"
  | 0x0b => some "v"
  | _ => none

/-- The quoted form of one character. -/
def char (c : Char) : Bytes :=
  let n := c.toNat
  if c = '"' || c = '\\' then Bytes.lit "\\" ++ String.utf8EncodeChar c
  else if Printable.isPrintable c then String.utf8EncodeChar c
  else match shortEscape? c with
    | some letter => Bytes.lit "\\" ++ Bytes.lit letter
    | none =>
      if n < 0x20 || n = 0x7f then Bytes.lit "\\x" ++ Bytes.hex 2 n
      else if n < 0x10000 then Bytes.lit "\\u" ++ Bytes.hex 4 n
      else Bytes.lit "\\U" ++ Bytes.hex 8 n

/-- The quoted form of one piece of a byte string. -/
def piece : Utf8.Piece → Bytes
  | .char c => char c
  | .stray b => Bytes.lit "\\x" ++ Bytes.hex 2 b.toNat

end CrateAudit.Quoted

/-- The byte string between double quotes, with escapes. -/
def CrateAudit.Bytes.quoted (bs : Bytes) : Bytes :=
  Bytes.lit "\"" ++ (Utf8.pieces bs).flatMap Quoted.piece ++ Bytes.lit "\""
