import CrateAudit.Bytes.Basic
import CrateAudit.Number.Binary64

/-!
# Reading numbers

A number is written in decimal with an optional exponent, in hexadecimal with a binary exponent that
must be there, or as one of the names of an infinity or of "not a number". Single underscores may stand
between digits. The exact value is rounded once; a value whose rounding is out of range is refused.
-/

namespace CrateAudit.Binary64

open Bytes

/-! ### Underscores -/

/-- What stood in front of a byte: a digit (or the marker of the base), an underscore, something else,
or nothing. -/
inductive Before where
  | start
  | digit
  | underscore
  | other
  deriving DecidableEq

/-- Whether every underscore stands between digits, the marker of the base counting as one. -/
def underscoresFitGo (hexadecimal : Bool) : Before → Bytes → Bool
  | before, [] => before ≠ .underscore
  | before, b :: rest =>
    let l := lowerByte b
    if isDigit b || (hexadecimal && 0x61 ≤ l && l ≤ 0x66) then underscoresFitGo hexadecimal .digit rest
    else if b = 0x5f then before = .digit && underscoresFitGo hexadecimal .underscore rest
    else before ≠ .underscore && underscoresFitGo hexadecimal .other rest

/-- Whether the underscores of a numeral, with or without a sign, may stand where they do. -/
def underscoresFit (bs : Bytes) : Bool :=
  let body := match bs with
    | 0x2b :: rest => rest
    | 0x2d :: rest => rest
    | rest => rest
  match body with
  | 0x30 :: m :: rest =>
    let l := lowerByte m
    if l = 0x62 || l = 0x6f then underscoresFitGo false .digit rest
    else if l = 0x78 then underscoresFitGo true .digit rest
    else underscoresFitGo false .start body
  | _ => underscoresFitGo false .start body

/-! ### Numerals -/

/-- The digit that a byte stands for, in the given base (sixteen at most). -/
def digitValue? (base : Nat) (b : UInt8) : Option Nat :=
  let l := lowerByte b
  let digit :=
    if isDigit b then some (b.toNat - 0x30)
    else if 0x61 ≤ l && l ≤ 0x66 then some (l.toNat - 0x57)
    else none
  digit.filter (· < base)

/-- The number that a string of digits stands for. -/
def digitsIn (base : Nat) (ds : Bytes) : Nat :=
  ds.foldl (fun n b => n * base + (digitValue? base b).getD 0) 0

/-- Adds a digit to an exponent; an exponent of five digits is beyond all use and grows no more. -/
def growExponent (e : Nat) (b : UInt8) : Nat := if e < 10000 then e * 10 + (b.toNat - 0x30) else e

/-- The exponent behind its letter: an optional sign and digits up to the end. -/
def readExponent? (bs : Bytes) : Option Int :=
  let (negative, ds) := match bs with
    | 0x2b :: rest => (false, rest)
    | 0x2d :: rest => (true, rest)
    | rest => (false, rest)
  if ds.isEmpty || !ds.all isDigit then none
  else
    let e := ds.foldl growExponent 0
    some (if negative then -(e : Int) else e)

/-- The number with this sign nearest to `digits * base ^ exponent`, if it is in range. -/
def scaled? (negative : Bool) (digits base : Nat) (exponent : Int) : Option Binary64 :=
  let x := if digits = 0 then .finite negative 0
    else if 0 ≤ exponent then ofRatio negative (digits * Nat.pow base exponent.toNat) 1
    else ofRatio negative digits (Nat.pow base (-exponent).toNat)
  match x with
  | .infinite _ => none
  | x => some x

/-- The number that an unsigned numeral stands for: digits with at most one point, and an exponent. A
decimal exponent counts powers of ten, a binary one powers of two. -/
def readNumeral? (negative : Bool) (base : Nat) (bs : Bytes) : Option Binary64 :=
  let isBaseDigit := fun b => (digitValue? base b).isSome
  let whole := bs.takeWhile isBaseDigit
  let rest := bs.dropWhile isBaseDigit
  let (fraction, rest) := match rest with
    | 0x2e :: more => (more.takeWhile isBaseDigit, more.dropWhile isBaseDigit)
    | more => ([], more)
  if whole.isEmpty && fraction.isEmpty then none
  else
    let digits := digitsIn base (whole ++ fraction)
    let places := fraction.length
    match rest with
    | [] => if base = 16 then none else scaled? negative digits 10 (-(places : Int))
    | letter :: exponent => do
      if lowerByte letter ≠ (if base = 16 then 0x70 else 0x65) then none
      let e ← readExponent? exponent
      if base = 16 then scaled? negative digits 2 (e - 4 * places)
      else scaled? negative digits 10 (e - places)

/-- The number that a text without underscores stands for. -/
def readPlain? (bs : Bytes) : Option Binary64 :=
  let (signed, negative, body) := match bs with
    | 0x2b :: rest => (true, false, rest)
    | 0x2d :: rest => (true, true, rest)
    | rest => (false, false, rest)
  let name := body.map lowerByte
  if name = lit "inf" || name = lit "infinity" then some (.infinite negative)
  else if name = lit "nan" then if signed then none else some .nan
  else match body with
    | 0x30 :: m :: rest =>
      if lowerByte m = 0x78 then readNumeral? negative 16 rest else readNumeral? negative 10 body
    | _ => readNumeral? negative 10 body

/-- The number that a text stands for, if it stands for one in range. -/
def read? (bs : Bytes) : Option Binary64 :=
  if bs.contains 0x5f && !underscoresFit bs then none else readPlain? (bs.filter (· ≠ 0x5f))

end CrateAudit.Binary64
