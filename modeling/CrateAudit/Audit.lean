import CrateAudit.Job
import CrateAudit.Log
import CrateAudit.Pool
import CrateAudit.ResultSet

/-!
# Audits

An audit evaluates jobs on a pool of workers, classifies what each of them reported and collects the
results. A job that fails has a result like any other, so nothing that happens to one job touches
another; only a job's own outcome and the mode decide about its result.

What happens in the course of an audit is told by its notices, in order: which job is started, what is
remarkable about its diagnostics, and its result with the progress of the whole.
-/

namespace CrateAudit

open Bytes

/-- The evaluation of a job as the pool sees it. -/
structure Evaluation where
  job : Job
  outcome : Outcome
  /-- how long it takes -/
  delay : Nat := 0
  /-- the run is canceled when it ends -/
  cancels : Bool := false

/-- What is told about an audit while it runs. -/
inductive Notice where
  | started (job : Job)
  /-- something about the diagnostics of a job that is counted nevertheless -/
  | warned (id warning : Bytes)
  /-- the diagnostics of a job could not be classified -/
  | unclassified (id : Bytes) (mode : Mode) (fault : Fault)
  | finished (time : Nat) (result : Result) (progress : Progress)
  /-- the result of a job was not stored -/
  | refused (id : Bytes) (fault : Fault)

/-- The log record of a notice. -/
def Notice.record? : Notice → Option Log.Record
  | .warned id warning => some (Log.record .warn "classifying diagnostics"
      [.text "job" id, .text "warning" warning])
  | .unclassified id mode fault => some (Log.record .warn "classifying diagnostics"
      [.text "job" id, .text "mode" mode.name, .text "error" fault.message])
  | .refused id fault => some (Log.record .error "storing result"
      [.text "job" id, .text "error" fault.message])
  | .started _ | .finished .. => none

namespace Audit

/-- An audit at a moment of its run. -/
structure State where
  results : ResultSet := {}
  progress : Progress
  notices : List Notice := []

/-- What is remarkable about the classification of an outcome. -/
def remarks (id : Bytes) (mode : Mode) (r : Result) (warnings : List Bytes) : List Notice :=
  match r.classifyFault with
  | some fault => [.unclassified id mode fault]
  | none => warnings.map (.warned id)

/-- The end of an evaluation: its outcome is classified, the result stored, and the progress told. -/
def conclude (mode : Mode) (time : Nat) (e : Evaluation) (s : State) : State :=
  let (result, warnings) := e.outcome.classified mode
  let progress := s.progress.advance
  let told := s.notices ++ remarks e.job.id mode result warnings ++ [.finished time result progress]
  match s.results.put result with
  | .ok results => ⟨results, progress, told⟩
  | .error fault => ⟨s.results, progress, told ++ [.refused result.id fault]⟩

/-- One event of the pool. -/
def step (mode : Mode) (evaluations : List Evaluation) (s : State) : Event → State
  | .started _ i =>
    match evaluations[i]? with
    | some e => { s with notices := s.notices ++ [.started e.job] }
    | none => s
  | .finished time i =>
    match evaluations[i]? with
    | some e => conclude mode time e s
    | none => s

/-- The tasks of the evaluations. -/
def tasks (evaluations : List Evaluation) : List Task :=
  evaluations.zipIdx.map fun (e, i) => ⟨i, e.delay, e.cancels⟩

/-- What an audit leaves behind. -/
structure Report where
  results : ResultSet
  notices : List Notice
  pool : Pool
  /-- set when the run was canceled before every job had a result -/
  fault : Option Fault

/-- Whether the run was canceled by the end of an evaluation. -/
def canceledBy (evaluations : List Evaluation) (p : Pool) : Bool :=
  p.finishes.any fun (_, i) => (evaluations[i]?).any (·.cancels)

/-- The fault of a run that was stopped after some of its jobs. -/
def stopped (finished total : Nat) : Fault :=
  .during (lit "run stopped after " ++ decimal finished ++ lit " of " ++ decimal total ++ lit " jobs") .canceled

/-- Runs the evaluations on a number of workers; `canceled` says that the run is canceled from the
start. -/
def run (workers : Int64) (mode : Mode) (evaluations : List Evaluation) (canceled : Bool) :
    Except Fault Report :=
  if workers < 1 then .error (.noWorkers (some workers))
  else if evaluations.isEmpty then .error .noJobs
  else
    let total := evaluations.length
    let pool := Pool.run workers.toNatClampNeg (if canceled then [] else tasks evaluations)
    let s := pool.history.foldl (step mode evaluations) { progress := { total := Int64.ofNat total } }
    let canceled := canceled || canceledBy evaluations pool
    .ok ⟨s.results, s.notices, pool,
      if canceled && s.results.size < total then some (stopped s.results.size total) else none⟩

end Audit

end CrateAudit
