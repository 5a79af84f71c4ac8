import CrateAudit.Number.Sum
import CrateAudit.Outcome

/-!
# The summary of a run

How many jobs ended in which way, how many findings there are, and what the jobs cost. The figures about
time and memory cover the measured jobs: those that neither timed out nor failed to be run or measured.
-/

namespace CrateAudit

/-- The figures of a run. -/
structure Summary where
  jobs : Nat
  /-- the statuses that occur, in the order of their names, with how often they do -/
  byStatus : List (Status × Nat)
  findings : SeverityCounts
  measured : Nat
  mean : Binary64 := Binary64.zero
  median : Binary64 := Binary64.zero
  longest : Binary64 := Binary64.zero
  peakMB : Binary64 := Binary64.zero
  deriving DecidableEq

namespace Summary

/-- Whether the resources that a job used are known. -/
def isMeasured (r : Result) : Bool := !r.timedOut && r.fault.isNone

/-- How often each status occurs. -/
def countByStatus (results : List Result) : List (Status × Nat) :=
  (Status.all.map fun s => (s, results.countP (·.status = s))).filter (0 < ·.2)

/-- The middle of sorted numbers: the first one that at least half of them do not exceed. There is none
when one of them is no number. -/
def middle (sorted : List Binary64) : Binary64 :=
  if sorted.contains .nan then .nan else (sorted[(sorted.length + 1) / 2 - 1]?).getD .nan

/-- The summary of some results. -/
def ofResults (results : List Result) : Summary :=
  let measured := results.filter isMeasured
  let counted : Summary := {
    jobs := results.length
    byStatus := countByStatus results
    findings := results.foldl (fun c r => c.add r.counts) {}
    measured := measured.length }
  if measured.isEmpty then counted
  else
    let elapsed := (measured.map (·.elapsed)).mergeSort Binary64.sortLe
    { counted with
      mean := (Binary64.sum elapsed).divNat elapsed.length
      median := middle elapsed
      longest := Binary64.maximum elapsed
      peakMB := Binary64.maximum (measured.map (·.peakMB)) }

end Summary

end CrateAudit
