import CrateAudit.Bytes.Basic
import CrateAudit.Number.Binary64

/-!
# Writing numbers

Two forms occur in reports, both positional and without an exponent. The shortest form has the fewest
digits of all decimals that round to the number, and of those it is the nearest (`shortest`). The fixed
form has a set number of places, and a half goes to the even neighbour (`fixed`).
-/

namespace CrateAudit.Binary64

open Bytes

/-! ### Positional notation -/

/-- `digits * 10 ^ -places`, with exactly that many places. -/
def positional (digits places : Nat) : Bytes :=
  if places = 0 then decimal digits
  else decimal (digits / Nat.pow 10 places) ++ lit "." ++
    let fraction := decimal (digits % Nat.pow 10 places)
    List.replicate (places - fraction.length) 0x30 ++ fraction

/-- The sign and the digits of a finite number, or the name of another one. -/
def written (digits : Nat → Bytes) : Binary64 → Bytes
  | .nan => lit "NaN"
  | .infinite negative => lit (if negative then "-Inf" else "+Inf")
  | .finite negative units => (if negative then lit "-" else []) ++ digits units

/-! ### The fixed form -/

/-- The number with the given number of places. -/
def fixed (places : Nat) : Binary64 → Bytes :=
  written fun units => positional (roundHalfEven (units * Nat.pow 10 places) one) places

/-! ### The shortest form -/

/-- Four times the bounds of the numbers of units that round to `units`. Below a power of two the
spacing is halved. -/
def bounds (units : Nat) : Nat × Nat :=
  let above := spacing units
  let below := if units = Nat.pow 2 52 * above && 1 < above then above / 2 else above
  (4 * units - 2 * below, 4 * units + 2 * above)

/-- Whether the significand is even, in which case the bounds themselves round to the number. -/
def isEven (units : Nat) : Bool := units / spacing units % 2 = 0

/-- Whether `four / 4` lies within the bounds of `units`, both scaled by `scale`. -/
def inBounds (units scale four : Nat) : Bool :=
  let (lo, hi) := bounds units
  if isEven units then lo * scale ≤ four && four ≤ hi * scale
  else lo * scale < four && four < hi * scale

/-- The decimal exponent of a positive number of units: the least `e` from `start` on, going up, with
the number below `10 ^ (e + 1)`. -/
def decimalExponentGo (units : Nat) : Nat → Int → Int
  | 0, e => e
  | fuel + 1, e =>
    let below := if 0 ≤ e + 1 then units < Nat.pow 10 (e + 1).toNat * one
      else units * Nat.pow 10 (-(e + 1)).toNat < one
    if below then e else decimalExponentGo units fuel (e + 1)

/-- The decimal exponent `e` of a positive number of units, `10 ^ e ≤ number < 10 ^ (e + 1)`. The search
starts a little below the value that the binary logarithm gives. -/
def decimalExponent (units : Nat) : Int :=
  decimalExponentGo units 8 (((units.log2 : Int) - 1074) * 30103 / 100000 - 2)

/-- The decimal `d * 10 ^ k` on the grid of `10 ^ k` nearest to the number among those within the
bounds; a tie goes to the even one. -/
def onGrid? (units : Nat) (k : Int) : Option (Nat × Int) :=
  let scale := Nat.pow 10 (-k).toNat
  let step := Nat.pow 10 k.toNat * one
  let d := units * scale / step
  let rest := units * scale % step
  let down := inBounds units scale (4 * d * step)
  let up := inBounds units scale (4 * (d + 1) * step)
  let nearer := if 2 * rest < step then d
    else if step < 2 * rest then d + 1
    else if d % 2 = 0 then d else d + 1
  if down && up then some (nearer, k)
  else if down then some (d, k)
  else if up then some (d + 1, k)
  else none

/-- The digits and the exponent of the shortest decimal of a positive number of units: the coarsest of
the seventeen grids that holds one. -/
def shortestDecimal (units : Nat) : Nat × Int :=
  let e := decimalExponent units
  match (List.range 17).findSome? fun (n : Nat) => onGrid? units (e - n) with
  | some (d, k) => if d % 10 = 0 then (d / 10, k + 1) else (d, k)
  | none => (roundHalfEven units one, 0)

/-- The number in the shortest form. -/
def shortest : Binary64 → Bytes :=
  written fun units =>
    if units = 0 then lit "0"
    else
      let (d, k) := shortestDecimal units
      if 0 ≤ k then decimal (d * Nat.pow 10 k.toNat) else positional d (-k).toNat

end CrateAudit.Binary64
