import CrateAudit.Number.Binary64

/-!
# Sums of double-precision numbers

Rounding makes the order of additions visible. A sum is built on eight lanes: the numbers go to the
lanes in turn, eight at a time, the lanes are folded together, and what is left over is added in blocks
of four, two and one as the folding reaches that width. The lanes start at zero.
-/

namespace CrateAudit.Binary64

/-- Adds lane by lane. -/
def addLanes (xs ys : List Binary64) : List Binary64 := List.zipWith add xs ys

/-- Adds `n` blocks of eight numbers to the lanes; what is behind them is left over. -/
def addBlocks : Nat → List Binary64 → List Binary64 → List Binary64 × List Binary64
  | 0, lanes, xs => (lanes, xs)
  | n + 1, lanes, xs => addBlocks n (addLanes lanes (xs.take 8)) (xs.drop 8)

/-- Adds a block of `width` numbers to as many lanes, when so many are left over. -/
def addRest (width : Nat) (lanes rest : List Binary64) : List Binary64 × List Binary64 :=
  if width ≤ rest.length then (addLanes lanes (rest.take width), rest.drop width) else (lanes, rest)

/-- The sum of some numbers. -/
def sum (xs : List Binary64) : Binary64 :=
  let (eight, rest) := addBlocks (xs.length / 8) (List.replicate 8 zero) xs
  let four := addLanes (eight.take 4) (eight.drop 6 ++ (eight.drop 4).take 2)
  let (four, rest) := addRest 4 four rest
  let two := addLanes (four.take 2) (four.drop 2)
  let (two, rest) := addRest 2 two rest
  (two ++ rest).foldl add zero

/-- The largest of some numbers, what is no number left out; it is none only when all are none. -/
def maximum (xs : List Binary64) : Binary64 :=
  xs.foldl (fun best x => if x = .nan then best else if best = .nan || lt best x then x else best) .nan

end CrateAudit.Binary64
