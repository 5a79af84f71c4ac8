import CrateAudit.Audit
import CrateAudit.Console
import CrateAudit.Evaluator
import CrateAudit.Report.Artifact
import CrateAudit.Session

/-!
# Auditing the crates of a list

The crates of a list file are evaluated on a pool of workers, each within a time; the progress is printed,
and the artifacts are written at the end. A command that cannot be found is told in advance, but does not
keep the run from going on: every crate then has its failure in its own result.
-/

namespace CrateAudit.Run

open Bytes Step

/-- What is asked for. -/
structure Request where
  list : Bytes
  dir : Bytes
  workers : Int64
  seconds : Int64
  mode : Mode

/-- The context of the log records of a run. -/
def context (host : Host) : Log.Context :=
  ⟨[(lit "crateval", .group [Log.Attr.text "cmd" (lit "run"), Log.Attr.text "run_id" host.runId,
    Log.Attr.number "pid" host.process])]⟩

/-- Reads the list of crates. -/
def readJobs (r : Request) : Step (List Job) := do
  let entry ← openFile "opening crate list" r.list
  during (lit "reading crate list " ++ r.list) do
    let content ← (FileTree.content r.list entry).mapError fun f => .during (lit "reading job list") (.file f)
    Job.readList r.dir content

/-- Tells about a command that cannot be found. -/
def preflight (path : Bytes) : Step Unit := do
  if !path.isEmpty && ((← get).world.executable? path).isNone then
    print (Console.warn (path ++ lit " not found, crates will fail to evaluate"))
    log {} (Log.record .warn "command not found" [.text "path" path])

/-- A job with its outcome and the log records of its evaluation. -/
abbrev Evaluated := Job × Evaluator.Evaluated

/-- Evaluates all jobs. No evaluation sees another, so it does not matter when each of them runs. -/
def evaluateAll (e : Evaluator) (jobs : List Job) : Step (List Evaluated) :=
  jobs.mapM fun job => return (job, ← inWorld (e.evaluate job none))

/-- Tells a notice of the audit: what is printed and logged. -/
def tell (context : Log.Context) (evaluated : List Evaluated) (n : Notice) : Step Unit := do
  match n with
  | .started job =>
    print (Console.started job.id)
    let records := ((evaluated.find? (·.1 = job)).map (·.2.records)).getD []
    for r in records do
      log (Evaluator.context context job) r
  | .finished _ result progress => print (Console.finished result progress.done.toInt progress.total.toInt)
  | _ => pure ()
  for r in n.record?.toList do
    log context r

/-- The bill of materials of a run. -/
def bom (host : Host) (mode : Mode) (results : List Result) : Bom :=
  (Bom.mk host.runId host.moment [] [] []).addResults results |>.addProperties
    [(lit "crateval:run_id", host.runId), (lit "crateval:classify_mode", mode.name)]

/-- Audits the crates of a list. -/
def run (config : Config) (r : Request) : Step Unit := do
  let host := (← get).host
  let context := context host
  let jobs ← readJobs r
  for command in [config.analyzer, config.cleanup, config.wrapper] do
    preflight command.path
  log context (Log.record .info "starting evaluation" [.number "jobs" jobs.length,
    .number "workers" r.workers.toInt, .number "timeout" r.seconds.toInt, .text "mode" r.mode.name])
  print (Console.plan jobs.length r.workers.toInt)
  let evaluated ← evaluateAll ⟨config, Duration.ofSeconds r.seconds⟩ jobs
  let report ← (Audit.run r.workers r.mode
    (evaluated.map fun (job, e) => { job, outcome := e.outcome : Evaluation }) false)
  for n in report.notices do
    tell context evaluated n
  if let some fault := report.fault then throw fault
  let results := report.results.ordered (jobs.map (·.id))
  log context (Log.record .info "evaluation done" [.text "elapsed" (Duration.text ⟨0⟩)])
  onTree (Artifact.writeAll config.output results (some (bom host r.mode results)))
  print (Console.summary (Summary.ofResults results))

end CrateAudit.Run
