import CrateAudit.Execution
import CrateAudit.Job
import CrateAudit.Log
import CrateAudit.Outcome
import CrateAudit.Usage

/-!
# Evaluating a job

A crate is cleaned, analyzed and cleaned again. The analysis is measured by a wrapper command, or by the
system if none is configured. Preparing a crate runs the preprocess command and cleans afterwards; the
crate is ready if both marker files are there when that command ends. The last cleaning is never canceled,
and no cleaning decides about what is reported.
-/

namespace CrateAudit

open Bytes

/-- How jobs are evaluated: by the commands of a configuration, each within a time. -/
structure Evaluator where
  config : Config
  timeout : Duration

namespace Evaluator

/-- A command in the directory of a job. -/
def launch (e : Evaluator) (command : Command) (job : Job) : Launch :=
  { command, dir := job.dir, timeout := e.timeout, killGrace := e.config.killGrace }

/-- The cleanup of a job, which has no deadline. -/
def cleanup (e : Evaluator) (job : Job) : Launch :=
  { e.launch e.config.cleanup job with timeout := ⟨0⟩ }

/-- Whether a wrapper measures the analysis. -/
def isWrapped (e : Evaluator) : Bool := !e.config.wrapper.path.isEmpty

/-- The command that analyzes a job: the analyzer, or the wrapper with the analyzer as its last
arguments. -/
def analysisCommand (e : Evaluator) : Command :=
  let analyzer := e.config.analyzer
  let wrapper := e.config.wrapper
  if e.isWrapped then
    ⟨wrapper.path, wrapper.args ++ analyzer.path :: analyzer.args, wrapper.env ++ analyzer.env⟩
  else analyzer

/-- The analysis of a job. -/
def analysis (e : Evaluator) (job : Job) : Launch := e.launch e.analysisCommand job

/-! ### What is logged -/

/-- An attribute that holds a fault. -/
def faultAttr (fault : Fault) : Log.Attr := .text "error" fault.message

/-- The log records of a cleanup: there is one if it failed. -/
def cleanupRecords (x : Execution) : List Log.Record :=
  match x.fault? with
  | none => []
  | some fault => [Log.record .warn "cleanup failed" [faultAttr fault, .text "stderr" x.stderr]]

/-- The log record of every analysis. -/
def analysisRecord (x : Execution) : Log.Record :=
  Log.record .debug "analysis finished"
    [.number "exit_code" x.exitCode, .number "duration" x.duration, (lit "timed_out", .document (.bool x.timedOut))]

/-! ### Outcomes -/

/-- What an analysis used: what the wrapper wrote, or what the system measured. -/
def usage (e : Evaluator) (x : Execution) : Except Fault Usage :=
  if e.isWrapped then Usage.read x.stderr
  else .ok (Usage.measured ⟨Int64.ofNat x.duration⟩ x.peakKB)

/-- The outcome of an analysis and what is logged about it. -/
def judge (e : Evaluator) (job : Job) (x : Execution) : Outcome × List Log.Record :=
  let nothing : Outcome := { id := job.id }
  if x.timedOut then ({ nothing with timedOut := true }, [])
  else match x.fault?, decide (x.exitCode < 0) with
    | some fault, true =>
      ({ nothing with fault := some fault }, [Log.record .warn "analysis did not complete" [faultAttr fault]])
    | fault?, _ =>
      match e.usage x with
      | .error fault =>
        ({ nothing with fault := some fault }, [Log.record .warn "can't parse resource usage" [faultAttr fault]])
      | .ok usage =>
        let measured := { nothing with elapsed := usage.elapsed, peakKB := usage.peakKB }
        match fault? with
        | some fault =>
          (measured, [Log.record .debug "analysis failed" [faultAttr fault, .text "stderr" x.stderr]])
        | none => ({ measured with succeeded := true, diagnostics := x.stdout }, [])

/-- The outcome of a job and the log records of its evaluation. -/
structure Evaluated where
  outcome : Outcome
  records : List Log.Record

/-- The context of all log records about a job. -/
def context (c : Log.Context) (job : Job) : Log.Context := c.withAttrs [.text "job" job.id]

/-- Evaluates a job; the whole run is canceled at a moment counted from now, if at all. -/
def evaluate (e : Evaluator) (job : Job) (cancellation : Option Nat) (w : World) : Evaluated × World :=
  let (before, w) := w.execute (e.cleanup job) cancellation
  let (x, w) := w.execute (e.analysis job) (remaining cancellation before.duration)
  let (after, w) := w.execute (e.cleanup job) none
  let (outcome, told) := e.judge job x
  (⟨outcome, cleanupRecords before ++ analysisRecord x :: told ++ cleanupRecords after⟩, w)

/-! ### Preparing -/

/-- The marker files that the analysis needs, below the target directory of a crate. -/
def markers : List Bytes := [lit "entry_points", lit "bitcode_paths"]

/-- Whether all of some marker files of a job are there. -/
def hasMarkers (t : FileTree) (job : Job) : List Bytes → Except Fault Bool
  | [] => .ok true
  | name :: rest =>
    match t.stat (Path.join job.dir (lit "target/" ++ name)) with
    | .ok _ => hasMarkers t job rest
    | .error fault => if fault.refusal = .notFound then .ok false else .error (.file fault)

/-- Prepares a job: whether it is ready, and the log records of its cleanup. -/
def prepare (e : Evaluator) (job : Job) (cancellation : Option Nat) (w : World) :
    (Except Fault Bool × List Log.Record) × World :=
  let (x, w) := w.execute (e.launch e.config.preprocess job) cancellation
  let ready := match x.fault? with
    | some fault => .error fault
    | none => hasMarkers w.tree job markers
  let (after, w) := w.execute (e.cleanup job) none
  ((ready, cleanupRecords after), w)

end Evaluator

end CrateAudit
