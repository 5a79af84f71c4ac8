import CrateAudit.Bytes.Lines
import CrateAudit.Number.Decimal
import CrateAudit.Outcome

/-!
# The narrative of a run

A block for every result with diagnostics: its name, the diagnoses as they were reported, the elapsed
seconds and the peak memory in kilobytes. An empty line ends the block.
-/

namespace CrateAudit.Narrative

open Bytes

/-- The block of a result; a result without diagnostics has none. -/
def block (r : Result) : Bytes :=
  if r.diagnostics.isEmpty then []
  else r.id ++ lit ":\n" ++ unlines (lines r.diagnostics) ++
    unlines [r.elapsed.shortest, integer r.peakKB.toInt, []]

/-- The narrative of some results. -/
def write (results : List Result) : Bytes := results.flatMap block

end CrateAudit.Narrative
