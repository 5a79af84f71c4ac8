/-!
# Byte strings

Crate names, diagnostics, command output and file contents are byte strings: nothing is assumed about
their encoding, so every operation of the library is defined on all of them. Literals of the library
itself are written as text and converted by `Bytes.lit`.

The file also fixes the two ways in which a byte string is cut at a separator (`pieces`, and its
specialisation to the last occurrence of a byte) and how whole numbers are written (`decimal`).
-/

namespace CrateAudit

/-- A byte string. -/
abbrev Bytes := List UInt8

namespace Bytes

/-! ### Literals -/

/-- The bytes of a literal, in UTF-8. -/
def lit (s : String) : Bytes := s.toList.flatMap String.utf8EncodeChar

/-- Line feed. -/
def newline : UInt8 := 0x0a

/-- Carriage return. -/
def carriageReturn : UInt8 := 0x0d

/-! ### Cutting at a byte -/

/-- The stretches between the occurrences of `sep`; there is always at least one. The fold runs from
the right: the pair holds the stretch that is still open and the finished ones behind it. -/
def pieces (sep : UInt8) (bs : Bytes) : List Bytes :=
  let (current, rest) := bs.foldr
    (fun b (current, rest) => if b = sep then ([], current :: rest) else (b :: current, rest)) ([], [])
  current :: rest

/-- The part in front of the last occurrence of `sep` and the part behind it. -/
def splitLast? (sep : UInt8) (bs : Bytes) : Option (Bytes × Bytes) :=
  let back := bs.reverse
  match back.dropWhile (· ≠ sep) with
  | [] => none
  | _ :: front => some (front.reverse, (back.takeWhile (· ≠ sep)).reverse)

/-- What is left of `bs` behind `start`, when `bs` begins with it. -/
def after? (start bs : Bytes) : Option Bytes :=
  if start.isPrefixOf bs then some (bs.drop start.length) else none

/-- Everything behind the leftmost occurrence of `needle`. -/
def afterFirst? (needle : Bytes) : Bytes → Option Bytes
  | [] => if needle.isEmpty then some [] else none
  | b :: bs => if needle.isPrefixOf (b :: bs) then some ((b :: bs).drop needle.length)
    else afterFirst? needle bs

/-- Whether `needle` occurs in `bs`. -/
def hasInfix (needle bs : Bytes) : Bool := (afterFirst? needle bs).isSome

/-- Every occurrence of `old` replaced by `new`, from the left and without overlaps. The counter holds
how many bytes of an occurrence are still to be passed over. -/
def replaceAll (old new bs : Bytes) : Bytes :=
  go 0 bs []
where
  go : Nat → Bytes → Bytes → Bytes
    | _, [], done => done.reverse
    | skip + 1, _ :: rest, done => go skip rest done
    | 0, b :: rest, done =>
      if !old.isEmpty && old.isPrefixOf (b :: rest) then
        go (old.length - 1) rest (new.reverse ++ done)
      else go 0 rest (b :: done)

/-! ### Order -/

/-- The lexicographic order by the values of the bytes. -/
def le : Bytes → Bytes → Bool
  | [], _ => true
  | _ :: _, [] => false
  | a :: as, b :: bs => a < b || (a = b && le as bs)

/-- The byte strings in ascending order. -/
def sort (l : List Bytes) : List Bytes := l.mergeSort le

/-! ### Letters and digits -/

/-- An ASCII decimal digit. -/
def isDigit (b : UInt8) : Bool := 0x30 ≤ b && b ≤ 0x39

/-- An ASCII letter. -/
def isLetter (b : UInt8) : Bool := (0x41 ≤ b && b ≤ 0x5a) || (0x61 ≤ b && b ≤ 0x7a)

/-- An ASCII letter, digit or underscore. -/
def isWord (b : UInt8) : Bool := isLetter b || isDigit b || b = 0x5f

/-- The lower-case form of an ASCII letter; other bytes stay. -/
def lowerByte (b : UInt8) : UInt8 := if 0x41 ≤ b && b ≤ 0x5a then b + 0x20 else b

/-- The lower-case hexadecimal digit of a number below sixteen. -/
def hexDigit (n : Nat) : UInt8 := if n < 10 then (0x30 + n).toUInt8 else (0x57 + n).toUInt8

/-- `n` in exactly `width` lower-case hexadecimal digits, the low ones. -/
def hex (width n : Nat) : Bytes :=
  (List.range width).reverse.map fun i => hexDigit (n / Nat.pow 16 i % 16)

/-! ### Whole numbers -/

/-- Puts the decimal digits of `n` in front of `done`. -/
def decimalGo : Nat → Nat → Bytes → Bytes
  | 0, _, done => done
  | fuel + 1, n, done =>
    let done := (0x30 + n % 10).toUInt8 :: done
    if n < 10 then done else decimalGo fuel (n / 10) done

/-- `n` in decimal, without leading zeros. -/
def decimal (n : Nat) : Bytes := decimalGo (n + 1) n []

/-- `i` in decimal, with a sign only when it is negative. -/
def integer (i : Int) : Bytes :=
  if i < 0 then lit "-" ++ decimal i.natAbs else decimal i.natAbs

/-- The number that a string of decimal digits stands for. -/
def digitsValue (bs : Bytes) : Nat := bs.foldl (fun n b => n * 10 + (b.toNat - 0x30)) 0

/-- Reads an optional sign and at least one decimal digit as a 64-bit signed number; anything else, or
a number out of range, is refused. -/
def toInt64? (bs : Bytes) : Option Int64 :=
  let (negative, digits) := match bs with
    | 0x2b :: rest => (false, rest)
    | 0x2d :: rest => (true, rest)
    | rest => (false, rest)
  if digits.isEmpty || !digits.all isDigit then none
  else
    let n := digitsValue digits
    if negative then if n ≤ Nat.pow 2 63 then some (Int64.ofInt (-n)) else none
    else if n < Nat.pow 2 63 then some (Int64.ofInt n) else none

end Bytes

end CrateAudit
