import CrateAudit.Evaluator
import CrateAudit.Job.Directory
import CrateAudit.Preparation
import CrateAudit.Session

/-!
# Preparing the crates of a directory

The crates of a directory are prepared, except those that a list names as known; the names of the ones
that are ready for an audit are printed.
-/

namespace CrateAudit.Prepare

open Bytes Step

/-- What is asked for. -/
structure Request where
  dir : Bytes
  workers : Int64
  /-- the path of the list of known crates, if it is not empty -/
  known : Bytes
  seconds : Int64

/-- The context of the log records of a run. -/
def context (host : Host) : Log.Context :=
  ⟨[(lit "crateval", .group [Log.Attr.text "cmd" (lit "preprocess"), Log.Attr.number "pid" host.process])]⟩

/-- The crate that a line of a list of known crates names: the last element of the path on it. -/
def knownCrate (known : Except Fault (List Bytes)) : ListLine → Except Fault (List Bytes)
  | .tooLong => do
    let _ ← known
    throw .lineTooLong
  | .line text => do
    let known ← known
    let line := trim text
    return if line.isEmpty || known.contains (Path.base line) then known else known ++ [Path.base line]

/-- The crates that a list of known crates names. -/
def knownCrates (text : Bytes) : Except Fault (List Bytes) := (listLines text).foldl knownCrate (.ok [])

/-- Reads the list of known crates. -/
def readKnown (path : Bytes) : Step (List Bytes) := do
  if path.isEmpty then return []
  let entry ← openFile "opening known crates" path
  during (lit "reading known crates") do
    knownCrates (← (FileTree.content path entry).mapError .file)

/-- Prepares one job and logs what happens. -/
def prepareJob (e : Evaluator) (context : Log.Context) (job : Job) : StateM Session (Except Fault Bool) := do
  let (ready, records) ← modifyGet fun s =>
    let (r, w) := e.prepare job none s.world
    (r, { s with world := w })
  for r in records do
    modify (·.logged (Evaluator.context context job) r)
  for r in (Prepared.record? ⟨job, ready⟩).toList do
    modify (·.logged context r)
  return ready

/-- Prepares the crates of a directory. -/
def run (config : Config) (r : Request) : Step Unit := do
  if r.seconds < 0 then throw (.usage (lit "--timeout must not be negative"))
  let context := context (← get).host
  let jobs ← Job.ofDirectory (← get).world.tree r.dir
  let known ← readKnown r.known
  let evaluator : Evaluator := ⟨config, Duration.ofSeconds r.seconds⟩
  let prepared ← (Preparation.run r.workers known jobs false (prepareJob evaluator context) : StateM Session _)
  log context (Log.record .info "preprocess done" [.number "crates" jobs.length, .number "known" known.length,
    .number "ready" prepared.ready.length])
  for id in prepared.ready do
    print (id ++ [newline])

end CrateAudit.Prepare
