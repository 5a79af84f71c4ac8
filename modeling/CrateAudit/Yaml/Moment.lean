import CrateAudit.Bytes.Basic

/-!
# Spellings of moments

Some readers take a plain scalar that spells a date, or a date with a time, for a moment. The date is a
year of four digits, a month and a day; the time follows behind a `T` with a zone, or behind blanks
without one.
-/

namespace CrateAudit.Yaml.Moment

open Bytes

/-- Reads a number of one or two digits that is below a limit. -/
def number? (limit : Nat) : Bytes → Option (Nat × Bytes)
  | a :: b :: rest =>
    if !isDigit a then none
    else if isDigit b then
      let n := digitsValue [a, b]
      if n < limit then some (n, rest) else none
    else some (digitsValue [a], b :: rest)
  | [a] => if isDigit a then some (digitsValue [a], []) else none
  | [] => none

/-- Reads a byte. -/
def sign? (b : UInt8) : Bytes → Option Bytes
  | c :: rest => if c = b then some rest else none
  | [] => none

/-- Whether a year has a day more. -/
def isLeap (year : Nat) : Bool := year % 4 = 0 && (year % 100 ≠ 0 || year % 400 = 0)

/-- The number of days of a month. -/
def daysIn (year month : Nat) : Nat :=
  if month = 2 then if isLeap year then 29 else 28
  else if [4, 6, 9, 11].contains month then 30 else 31

/-- Reads a date. -/
def date? (bs : Bytes) : Option Bytes := do
  let year := bs.takeWhile isDigit
  if year.length ≠ 4 then none
  let rest ← sign? 0x2d (bs.drop 4)
  let (month, rest) ← number? 13 rest
  let rest ← sign? 0x2d rest
  let (day, rest) ← number? 100 rest
  if month = 0 || day = 0 || daysIn (digitsValue year) month < day then none
  return rest

/-- What is left behind a fraction of a second, if there is one. -/
def afterFraction (bs : Bytes) : Bytes :=
  match bs with
  | point :: digit :: rest =>
    if (point = 0x2e || point = 0x2c) && isDigit digit then rest.dropWhile isDigit else bs
  | _ => bs

/-- Reads a time of day. -/
def time? (bs : Bytes) : Option Bytes := do
  let (_, rest) ← number? 24 bs
  let rest ← sign? 0x3a rest
  let (_, rest) ← number? 60 rest
  let rest ← sign? 0x3a rest
  let (_, rest) ← number? 60 rest
  return afterFraction rest

/-- Whether a text is a zone: `Z`, or the hours and minutes that it is ahead or behind. -/
def isZone (bs : Bytes) : Bool :=
  match bs with
  | [0x5a] => true
  | [s, h, h', 0x3a, m, m'] =>
    (s = 0x2b || s = 0x2d) && [h, h', m, m'].all isDigit && digitsValue [h, h'] ≤ 24 && digitsValue [m, m'] ≤ 60
  | _ => false

/-- Whether a text spells a moment. -/
def isMoment (bs : Bytes) : Bool :=
  match date? bs with
  | none => false
  | some [] => true
  | some (b :: rest) =>
    if b = 0x54 || b = 0x74 then (time? rest).any isZone
    else b = 0x20 && (time? (rest.dropWhile (· = 0x20))).any (·.isEmpty)

end CrateAudit.Yaml.Moment
