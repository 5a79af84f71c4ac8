import CrateAudit.Bytes.Basic
import CrateAudit.Environment
import CrateAudit.Number.Binary64
import CrateAudit.Number.Decimal

/-!
# Durations

A duration is a 64-bit number of nanoseconds. It is written as hours, minutes and seconds with as many
decimal places as it needs, or below one second in the largest unit that it reaches. What is read is
more liberal: any sequence of decimals, each followed by a unit.
-/

namespace CrateAudit

/-- A length of time in nanoseconds. -/
structure Duration where
  nanoseconds : Int64
  deriving DecidableEq

namespace Duration

open Bytes

/-! ### Writing -/

/-- `v / 10 ^ places` without trailing zeros. -/
def trimmedDecimal (v places : Nat) : Bytes :=
  let fraction := (List.range places).map fun i => (0x30 + v / Nat.pow 10 (places - 1 - i) % 10).toUInt8
  let kept := (fraction.reverse.dropWhile (· = 0x30)).reverse
  decimal (v / Nat.pow 10 places) ++ if kept.isEmpty then [] else lit "." ++ kept

/-- The text of a number of nanoseconds. -/
def magnitudeText (n : Nat) : Bytes :=
  if n = 0 then lit "0s"
  else if n < 1000 then decimal n ++ lit "ns"
  else if n < 1000000 then trimmedDecimal n 3 ++ lit "µs"
  else if n < 1000000000 then trimmedDecimal n 6 ++ lit "ms"
  else
    let seconds := n / 1000000000
    let minutes := seconds / 60
    let hours := minutes / 60
    (if 0 < hours then decimal hours ++ lit "h" else []) ++
    (if 0 < minutes then decimal (minutes % 60) ++ lit "m" else []) ++
    trimmedDecimal (seconds % 60 * 1000000000 + n % 1000000000) 9 ++ lit "s"

/-- The text of a duration. -/
def text (d : Duration) : Bytes :=
  let i := d.nanoseconds.toInt
  (if i < 0 then lit "-" else []) ++ magnitudeText i.natAbs

/-! ### Reading -/

/-- Why a text is no duration. -/
inductive ReadError where
  | empty
  | negative
  | invalid (text : Bytes)
  | missingUnit (text : Bytes)
  | unknownUnit (unit text : Bytes)
  deriving DecidableEq

/-- A text between quotes as these messages show it: every byte that is no printable ASCII character
is written by its value. -/
def shown (bs : Bytes) : Bytes :=
  lit "\"" ++ bs.flatMap (fun b =>
    if 0x80 ≤ b || b < 0x20 then lit "\\x" ++ hex 2 b.toNat
    else if b = 0x22 || b = 0x5c then [0x5c, b] else [b]) ++ lit "\""

/-- The wording of a read error. -/
def ReadError.message : ReadError → Bytes
  | .empty => lit "can't be empty"
  | .negative => lit "can't be negative"
  | .invalid t => lit "time: invalid duration " ++ shown t
  | .missingUnit t => lit "time: missing unit in duration " ++ shown t
  | .unknownUnit u t => lit "time: unknown unit " ++ shown u ++ lit " in duration " ++ shown t

/-- The units with their lengths in nanoseconds. -/
def units : List (Bytes × Nat) :=
  [(lit "ns", 1), (lit "us", 1000), (lit "µs", 1000), (lit "μs", 1000), (lit "ms", 1000000),
   (lit "s", 1000000000), (lit "m", 60000000000), (lit "h", 3600000000000)]

/-- Adds a digit to a fraction `(digits, places)`; once the digits would pass 63 bits, further ones are
ignored. The flag says whether that has happened. -/
def growFraction : Nat × Nat × Bool → UInt8 → Nat × Nat × Bool
  | (f, places, full), b =>
    if full || (Nat.pow 2 63 - 1) / 10 < f then (f, places, true)
    else
      let g := f * 10 + (b.toNat - 0x30)
      if Nat.pow 2 63 < g then (f, places, true) else (g, places + 1, false)

/-- The length of `0.f` units, cut to whole nanoseconds: a double-precision product, since a fraction of
an hour needs one. -/
def fractionLength (f places unit : Nat) : Nat :=
  ((Binary64.ofInt f).mul ((Binary64.ofInt unit).divNat (Nat.pow 10 places))).toNat

/-- One decimal with its unit: its length in nanoseconds and what follows it. `whole` is the text that
messages show. -/
def readPart (whole bs : Bytes) : Except ReadError (Nat × Bytes) := do
  let digits := bs.takeWhile isDigit
  let rest := bs.dropWhile isDigit
  if Nat.pow 2 63 < digitsValue digits then throw (.invalid whole)
  let (fraction, rest) := match rest with
    | 0x2e :: more => (more.takeWhile isDigit, more.dropWhile isDigit)
    | more => ([], more)
  if digits.isEmpty && fraction.isEmpty then throw (.invalid whole)
  let isUnitByte := fun b => b ≠ 0x2e && !isDigit b
  let name := rest.takeWhile isUnitByte
  if name.isEmpty then throw (.missingUnit whole)
  match units.find? (·.1 = name) with
  | none => throw (.unknownUnit name whole)
  | some (_, unit) =>
    let v := digitsValue digits
    if Nat.pow 2 63 / unit < v then throw (.invalid whole)
    let (f, places, _) := fraction.foldl growFraction (0, 0, false)
    let v := v * unit + if 0 < f then fractionLength f places unit else 0
    if Nat.pow 2 63 < v then throw (.invalid whole)
    return (v, rest.dropWhile isUnitByte)

/-- The sum of all parts, kept in 64 bits and refused above `2 ^ 63`. Every part takes at least one byte,
so the length of the text bounds their number. -/
def readParts (whole : Bytes) : Nat → Nat → Bytes → Except ReadError Nat
  | _, sum, [] => .ok sum
  | 0, sum, _ => .ok sum
  | fuel + 1, sum, bs => do
    let (v, rest) ← readPart whole bs
    let sum := (sum + v) % Nat.pow 2 64
    if Nat.pow 2 63 < sum then throw (.invalid whole)
    readParts whole fuel sum rest

/-- Reads a signed duration. -/
def readSigned (bs : Bytes) : Except ReadError Duration := do
  let (negative, body) := match bs with
    | 0x2b :: rest => (false, rest)
    | 0x2d :: rest => (true, rest)
    | rest => (false, rest)
  if body = lit "0" then return ⟨0⟩
  if body.isEmpty then throw (.invalid bs)
  let n ← readParts bs body.length 0 body
  if negative then return ⟨Int64.ofInt (-n)⟩
  if Nat.pow 2 63 - 1 < n then throw (.invalid bs)
  return ⟨Int64.ofInt n⟩

/-- Sets a duration of a configuration from its text: references to environment variables are expanded
first, and the result must not be negative. -/
def assign (env : Environment) (bs : Bytes) : ExceptT ReadError (StateM Duration) Unit := do
  if bs.isEmpty then throw .empty
  let d ← MonadExcept.ofExcept (readSigned (env.expand bs))
  if d.nanoseconds < 0 then throw .negative
  set d

/-- Reads a duration of a configuration, which is zero until it is set. -/
def read (env : Environment) (bs : Bytes) : Except ReadError Duration :=
  match (assign env bs).run.run ⟨0⟩ with
  | (.ok _, d) => .ok d
  | (.error e, _) => .error e

/-- A number of whole seconds, kept in 64 bits. -/
def ofSeconds (n : Int64) : Duration := ⟨n * 1000000000⟩

/-- The duration in seconds, as the sum of its whole seconds and the rest. -/
def seconds (d : Duration) : Binary64 :=
  let i := d.nanoseconds.toInt
  (Binary64.ofInt (i.tdiv 1000000000)).add ((Binary64.ofInt (i.tmod 1000000000)).divNat 1000000000)

end Duration

end CrateAudit
