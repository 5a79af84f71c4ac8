/-!
# Double-precision numbers

Elapsed times and memory sizes are double-precision numbers. Every finite one is a whole number of
units of `2 ^ -1074`, so a finite number is kept as its sign and that whole number: comparison and the
exact results of sums and quotients are then arithmetic of natural numbers, followed by one rounding to
53 significant bits (`roundUnits`), to the nearest and in a tie to the even neighbour. The two zeros are
different numbers that compare as equal.
-/

namespace CrateAudit

/-- A double-precision number; `finite negative units` stands for `± units * 2 ^ -1074`. -/
inductive Binary64 where
  | nan
  | infinite (negative : Bool)
  | finite (negative : Bool) (units : Nat)
  deriving DecidableEq

namespace Binary64

/-! ### Rounding -/

/-- The whole number nearest to `num / den`, in a tie the even one. -/
def roundHalfEven (num den : Nat) : Nat :=
  let q := num / den
  let r := num % den
  if 2 * r < den then q
  else if den < 2 * r then q + 1
  else if q % 2 = 0 then q else q + 1

/-- The spacing of the numbers with 53 significant bits just above a number whose whole part is
`units`. -/
def spacing (units : Nat) : Nat := Nat.pow 2 (units.log2 - 52)

/-- `num / den` units rounded to 53 significant bits. -/
def roundUnits (num den : Nat) : Nat :=
  let step := spacing (num / den)
  roundHalfEven num (den * step) * step

/-- One, in units. -/
def one : Nat := Nat.pow 2 1074

/-- The first number of units that is out of range. -/
def limit : Nat := Nat.pow 2 2098

/-- The number with this sign nearest to `num / den` units; out of range it is infinite. -/
def ofUnits (negative : Bool) (num den : Nat) : Binary64 :=
  let units := roundUnits num den
  if units < limit then .finite negative units else .infinite negative

/-- The number with this sign nearest to `num / den`. -/
def ofRatio (negative : Bool) (num den : Nat) : Binary64 := ofUnits negative (num * one) den

/-- The number nearest to a whole number. -/
def ofInt (i : Int) : Binary64 := ofRatio (i < 0) i.natAbs 1

/-- The positive zero. -/
def zero : Binary64 := .finite false 0

instance : Inhabited Binary64 := ⟨zero⟩

/-! ### Arithmetic and order -/

/-- The rounded sum. Opposite infinities have none, and the sum of opposite numbers is the positive
zero. -/
def add : Binary64 → Binary64 → Binary64
  | .nan, _ => .nan
  | _, .nan => .nan
  | .infinite s, .infinite t => if s = t then .infinite s else .nan
  | .infinite s, .finite _ _ => .infinite s
  | .finite _ _, .infinite t => .infinite t
  | .finite s a, .finite t b =>
    if s = t then ofUnits s (a + b) 1
    else if a = b then zero
    else if b < a then ofUnits s (a - b) 1 else ofUnits t (b - a) 1

/-- The rounded product of two finite numbers; anything else is not multiplied here. -/
def mul : Binary64 → Binary64 → Binary64
  | .finite s a, .finite t b => ofUnits (s != t) (a * b) one
  | _, _ => .nan

/-- The rounded quotient by a positive whole number. -/
def divNat (x : Binary64) (n : Nat) : Binary64 :=
  match x with
  | .finite s a => ofUnits s a n
  | other => other

/-- Strictly less; false as soon as one of the two is not a number. -/
def lt : Binary64 → Binary64 → Bool
  | .nan, _ => false
  | _, .nan => false
  | .infinite s, .infinite t => s && !t
  | .infinite s, .finite _ _ => s
  | .finite _ _, .infinite t => !t
  | .finite s a, .finite t b =>
    match s, t with
    | false, false => a < b
    | true, true => b < a
    | true, false => 0 < a + b
    | false, true => false

/-- The order by which numbers are sorted: what is not a number comes first. -/
def sortLe (x y : Binary64) : Bool := x = .nan || (y ≠ .nan && !lt y x)

/-- Whether a number is below zero. -/
def isNegative (x : Binary64) : Bool := lt x zero

/-- The whole part of a number that is not negative; zero where there is none. -/
def toNat : Binary64 → Nat
  | .finite false units => units / one
  | _ => 0

end Binary64

end CrateAudit
