import CrateAudit.Number.Reading

/-!
# Reading whole numbers

A whole number of 64 bits is written with an optional sign, in decimal or behind the marker of another
base: `0x`, `0o` or just `0`, and `0b`. Single underscores may stand between digits.
-/

namespace CrateAudit.Whole

open Bytes

/-- Why a text is no whole number of 64 bits. -/
inductive Error where
  | malformed
  | outOfRange
  deriving DecidableEq

/-- The wording of an error. -/
def Error.message : Error → Bytes
  | .malformed => lit "invalid syntax"
  | .outOfRange => lit "value out of range"

/-- The base of some digits, and the digits behind its marker. -/
def base : Bytes → Nat × Bytes
  | 0x30 :: m :: d :: rest =>
    let l := lowerByte m
    if l = 0x62 then (2, d :: rest)
    else if l = 0x6f then (8, d :: rest)
    else if l = 0x78 then (16, d :: rest)
    else (8, m :: d :: rest)
  | 0x30 :: rest => (8, rest)
  | bs => (10, bs)

/-- Reads digits behind a number; the first thing that is wrong counts. -/
def digits (base : Nat) : Nat → Bytes → Except Error Nat
  | n, [] => .ok n
  | n, b :: rest =>
    if b = 0x5f then digits base n rest
    else match Binary64.digitValue? base b with
      | none => .error .malformed
      | some d => if n * base + d < Nat.pow 2 64 then digits base (n * base + d) rest else .error .outOfRange

/-- Reads a number without a sign. -/
def magnitude (bs : Bytes) : Except Error Nat := do
  if bs.isEmpty then throw .malformed
  let (base, ds) := base bs
  let n ← digits base 0 ds
  if bs.contains 0x5f && !Binary64.underscoresFit bs then throw .malformed
  return n

/-- Reads a whole number. -/
def read (bs : Bytes) : Except Error Int64 := do
  let negative := bs.head? = some 0x2d
  let n ← magnitude (if negative || bs.head? = some 0x2b then bs.drop 1 else bs)
  if negative then
    if n ≤ Nat.pow 2 63 then return Int64.ofInt (-n) else throw .outOfRange
  else if n < Nat.pow 2 63 then return Int64.ofNat n else throw .outOfRange

end CrateAudit.Whole
