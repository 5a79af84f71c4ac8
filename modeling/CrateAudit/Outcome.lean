import CrateAudit.Diagnosis
import CrateAudit.Number.Binary64

/-!
# Outcomes and results

An outcome is what running the commands of one job gave; a result adds the findings in its diagnostics.
Either has a status, the one word by which reports summarise it.
-/

namespace CrateAudit

open Bytes

/-- How a job ended. -/
inductive Status where
  | ok
  | failed
  | timeout
  | malformed
  | unclassified
  deriving DecidableEq

/-- All statuses, in the order of their names. -/
def Status.all : List Status := [.failed, .malformed, .ok, .timeout, .unclassified]

/-- The name of a status. -/
def Status.name : Status → Bytes
  | .ok => lit "ok"
  | .failed => lit "failed"
  | .timeout => lit "timeout"
  | .malformed => lit "malformed"
  | .unclassified => lit "unclassified"

/-- What running the commands of one job gave. -/
structure Outcome where
  id : Bytes := []
  diagnostics : Bytes := []
  elapsed : Binary64 := Binary64.zero
  peakKB : Int64 := 0
  succeeded : Bool := false
  timedOut : Bool := false
  fault : Option Fault := none
  deriving DecidableEq

namespace Outcome

/-- How the job ended, its diagnostics apart. -/
def status (o : Outcome) : Status :=
  if o.timedOut then .timeout
  else if o.fault.any Fault.isMalformedUsage then .malformed
  else if o.succeeded then .ok
  else .failed

/-- The peak memory in megabytes. -/
def peakMB (o : Outcome) : Binary64 := (Binary64.ofInt o.peakKB.toInt).divNat 1024

end Outcome

/-- The outcome of a job with the findings in its diagnostics. -/
structure Result extends Outcome where
  counts : SeverityCounts := {}
  classifyFault : Option Fault := none
  deriving DecidableEq

namespace Result

/-- How the job ended; diagnostics that could not be classified count before all else. -/
def status (r : Result) : Status :=
  if r.classifyFault.isSome then .unclassified else r.toOutcome.status

end Result

/-- The result of an outcome, with the warnings of its classification. Diagnostics that are empty are
not classified. -/
def Outcome.classified (mode : Mode) (o : Outcome) : Result × List Bytes :=
  if o.diagnostics.isEmpty then ({ o with }, [])
  else match Diagnosis.classify mode o.diagnostics with
    | .ok f => ({ o with counts := f.counts }, f.warnings)
    | .error fault => ({ o with classifyFault := some fault }, [])

end CrateAudit
