import CrateAudit.Job
import CrateAudit.Log

/-!
# Preparing crates

Before crates are audited they are prepared, which also tells whether there is anything to audit in
them. Crates that are known already are passed over. The names of the crates that are ready come in
ascending order, so neither the number of workers nor the order in which they finish can be seen.
-/

namespace CrateAudit

/-- What preparing a job gave: whether it is ready, or why preparing it failed. -/
structure Prepared where
  job : Job
  ready : Except Fault Bool

namespace Prepared

/-- Whether a job is to be listed; a job without a name never is. -/
def isReady (p : Prepared) : Bool :=
  match p.ready with
  | .ok ready => ready && !p.job.id.isEmpty
  | .error _ => false

/-- The log record of a job whose preparation failed. -/
def record? (p : Prepared) : Option Log.Record :=
  match p.ready with
  | .error fault => some (Log.record .warn "preprocessing"
      [.text "job" p.job.id, .text "error" fault.message])
  | .ok _ => none

end Prepared

/-- What is left of preparing some crates: what was done, in any order, and whether it was canceled. -/
structure Preparation where
  prepared : List Prepared
  canceled : Bool

namespace Preparation

/-- The jobs that are not known already. -/
def pending (known : List Bytes) (jobs : List Job) : List Job :=
  jobs.filter fun j => !known.contains j.id

/-- Prepares the jobs that are not known already; `canceled` says that the run is canceled from the
start. -/
def run {m : Type → Type} [Monad m] (workers : Int64) (known : List Bytes) (jobs : List Job)
    (canceled : Bool) (prepare : Job → m (Except Fault Bool)) : m (Except Fault Preparation) :=
  if workers < 1 then pure (.error (.noWorkers none))
  else do
    let pending := if canceled then [] else pending known jobs
    let prepared ← pending.mapM fun job => do return { job, ready := ← prepare job : Prepared }
    return .ok ⟨prepared, canceled⟩

/-- The names of the jobs that are ready. -/
def ready (p : Preparation) : List Bytes :=
  Bytes.sort ((p.prepared.filter Prepared.isReady).map (·.job.id))

/-- The fault of a run that was canceled. -/
def fault? (p : Preparation) : Option Fault := if p.canceled then some .canceled else none

end Preparation

end CrateAudit
