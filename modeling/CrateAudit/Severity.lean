import CrateAudit.Bytes.Basic

/-!
# Severities

The analyzer rates every diagnosis with one of three severities; a crate's findings are counted by
severity. Counts are 64-bit numbers, and their sums wrap around.
-/

namespace CrateAudit

/-- How serious a diagnosis is. -/
inductive Severity where
  | high
  | medium
  | low
  deriving DecidableEq

/-- The name of a severity. -/
def Severity.name : Severity → Bytes
  | .high => Bytes.lit "High"
  | .medium => Bytes.lit "Medium"
  | .low => Bytes.lit "Low"

/-- How many diagnoses there are of each severity. -/
structure SeverityCounts where
  high : Int64 := 0
  medium : Int64 := 0
  low : Int64 := 0
  deriving DecidableEq

namespace SeverityCounts

/-- One diagnosis more. -/
def count (c : SeverityCounts) : Severity → SeverityCounts
  | .high => { c with high := c.high + 1 }
  | .medium => { c with medium := c.medium + 1 }
  | .low => { c with low := c.low + 1 }

/-- The counts of two sets of diagnoses together. -/
def add (c d : SeverityCounts) : SeverityCounts :=
  ⟨c.high + d.high, c.medium + d.medium, c.low + d.low⟩

/-- The number of diagnoses. -/
def total (c : SeverityCounts) : Int64 := c.high + c.medium + c.low

end SeverityCounts

end CrateAudit
