import CrateAudit.Config.Basic
import CrateAudit.FileTree

/-!
# Executing commands

A command is looked up, started in a directory and waited for. It has a deadline if its timeout is
positive, and the whole run may be canceled at some moment; whichever comes first ends a process that has
not ended by itself. A process that is to be ended is asked to end first and killed after a grace period.

Whatever happens is told by the execution; its `fault?` is empty only if the process ended by itself with
status zero.
-/

namespace CrateAudit

open Bytes

/-- A command with what is needed to execute it. -/
structure Launch where
  command : Command
  /-- the working directory; the current one if empty -/
  dir : Bytes := []
  /-- no deadline unless it is positive -/
  timeout : Duration := ⟨0⟩
  killGrace : Duration := ⟨0⟩

/-- What ends a process that has not ended by itself. -/
inductive Interruption where
  | deadline
  | cancellation
  deriving DecidableEq

/-- What became of a command. -/
inductive Conclusion where
  /-- there is no executable file for it -/
  | missing
  /-- it could not be started -/
  | unstarted (fault : CommandFault)
  /-- it ended by itself -/
  | ended (ending : Ending)
  /-- it was ended -/
  | interrupted (cause : Interruption) (ending : Ending)
  deriving DecidableEq

/-- The execution of a command. -/
structure Execution where
  launch : Launch
  conclusion : Conclusion
  stdout : Bytes := []
  stderr : Bytes := []
  /-- in nanoseconds, zero if no process was started -/
  duration : Nat := 0
  peakKB : Int64 := 0

namespace Execution

/-- The exit code of the process, -1 if there is none. -/
def exitCode (e : Execution) : Int :=
  match e.conclusion with
  | .ended ending | .interrupted _ ending => ending.code
  | _ => -1

/-- Whether the deadline ended the process. -/
def timedOut (e : Execution) : Bool :=
  match e.conclusion with
  | .interrupted .deadline _ => true
  | _ => false

/-- Whether an executable file was found, so that a start was tried. -/
def isFound (e : Execution) : Bool := e.conclusion ≠ .missing

/-- What went wrong. -/
def fault? (e : Execution) : Option Fault :=
  let path := e.launch.command.path
  match e.conclusion with
  | .missing => some (.missingCommand path)
  | .unstarted fault => some (.commandFailed path fault)
  | .ended (.exits 0) => none
  | .ended ending => some (.commandFailed path (.ended ending))
  | .interrupted .deadline _ => some (.timedOut path e.launch.timeout)
  | .interrupted .cancellation _ => some (.during path .canceled)

end Execution

/-! ### Interruptions -/

/-- When and by what a process is interrupted, if it has not ended before; both moments count from its
start. -/
def firstInterruption : (deadline cancellation : Option Nat) → Option (Nat × Interruption)
  | none, none => none
  | some d, none => some (d, .deadline)
  | none, some c => some (c, .cancellation)
  | some d, some c => if d ≤ c then some (d, .deadline) else some (c, .cancellation)

/-- The moment of a deadline, if there is one. -/
def Launch.deadline (l : Launch) : Option Nat :=
  if 0 < l.timeout.nanoseconds then some l.timeout.nanoseconds.toNatClampNeg else none

/-- What is left of the time until a cancellation when some of it has passed. -/
def remaining (cancellation : Option Nat) (passed : Nat) : Option Nat := cancellation.map (· - passed)

/-- How long it takes at most until the output streams of an ended process are closed. -/
def Launch.streamDelay (l : Launch) : Nat := (l.killGrace.nanoseconds.toInt + 1000000000).toNat

/-- How a process that does something ends, and how long it takes. -/
def Launch.outlive (l : Launch) (cancellation : Option Nat) (a : Action) : Conclusion × Nat :=
  let natural := (Conclusion.ended a.ending, a.lasts + if a.leavesChild then l.streamDelay else 0)
  match firstInterruption l.deadline cancellation with
  | none => natural
  | some (moment, cause) =>
    if a.lasts ≤ moment then natural
    else if a.ignoresTermination then
      let kill := moment + l.killGrace.nanoseconds.toNatClampNeg
      if a.lasts ≤ kill then (.interrupted cause a.ending, a.lasts) else (.interrupted cause (.dies 9), kill)
    else (.interrupted cause a.whenAsked, moment)

/-! ### The world of a run -/

/-- What commands work on, and a memory of what happened there. -/
structure World where
  tree : FileTree
  environment : Environment
  /-- the commands that were to be executed, started or not -/
  launches : List Launch := []
  /-- the calls of programs -/
  calls : List Call := []

namespace World

/-- Whether a path leads to an executable file. -/
def isExecutable (w : World) (path : Bytes) : Bool :=
  match w.tree.stat path with
  | .ok (.program _) => true
  | _ => false

/-- The directories that commands are looked up in. -/
def searchPath (w : World) : List Bytes :=
  let path := w.environment.get (lit "PATH")
  if path.isEmpty then [] else (pieces 0x3a path).map fun dir => if dir.isEmpty then lit "." else dir

/-- The executable file of a command. A command with a separator names it; any other is looked up, and
what is found below the current directory is not taken. -/
def executable? (w : World) (command : Bytes) : Option Bytes :=
  if command.contains Path.slash then
    if w.isExecutable command then some command else none
  else ((w.searchPath.map (Path.join · command)).find? w.isExecutable).filter Path.isRooted

/-- The setting of an environment variable. -/
def setting? (entry : Bytes) : Option (Bytes × Bytes) :=
  let name := entry.takeWhile (· ≠ 0x3d)
  if name.isEmpty || name.length = entry.length then none else some (name, entry.drop (name.length + 1))

/-- The environment of a command. -/
def environmentOf (w : World) (settings : List Bytes) : Environment :=
  ⟨w.environment.bindings ++ settings.filterMap setting?⟩

/-- The place of a working directory. -/
def workingDirectory (w : World) (dir : Bytes) : Except Refusal Location := do
  if dir.isEmpty then return w.tree.current
  let (place, entry) ← w.tree.find true dir
  if entry.isDirectory then return place else throw .notDirectory

/-- Starts a command with its executable file: the call, and what the program does. -/
def start (w : World) (l : Launch) (file : Bytes) (cancellation : Option Nat) :
    Except CommandFault (Call × Action) := do
  if cancellation = some 0 then throw .canceled
  if l.command.env.any (·.contains 0) then throw .environment
  let refused := fun refusal => CommandFault.refused ⟨lit "fork/exec", file, refusal⟩
  if l.command.args.any (·.contains 0) then throw (refused .invalidArgument)
  let directory ← (w.workingDirectory l.dir).mapError refused
  let (place, entry) ← ((w.tree.inside directory).find true file).mapError refused
  match entry with
  | .program (.runs action) =>
    let call := { program := place.getLast?.getD [], args := l.command.args, env := w.environmentOf l.command.env
                  directory : Call }
    return (call, action call)
  | .program .unrunnable => throw (refused .notRunnable)
  | _ => throw (refused .notPermitted)

/-- The tree without what a program removes and with what it creates. What it cannot create is missing. -/
def changed (t : FileTree) (directory : Location) (a : Action) : FileTree :=
  let t' := a.removed.foldl FileTree.remove (t.inside directory)
  let t' := a.dirs.foldl (fun t dir => (t.makeDirectories dir).1) t'
  let t' := a.files.foldl FileTree.touch t'
  t'.inside t.current

/-- Executes a command; the whole run is canceled at a moment counted from now, if at all. -/
def execute (w : World) (l : Launch) (cancellation : Option Nat) : Execution × World :=
  let w := { w with launches := w.launches ++ [l] }
  match w.executable? l.command.path with
  | none => ({ launch := l, conclusion := .missing }, w)
  | some file =>
    match w.start l file cancellation with
    | .error fault => ({ launch := l, conclusion := .unstarted fault }, w)
    | .ok (call, a) =>
      let (conclusion, duration) := l.outlive cancellation a
      ({ launch := l, conclusion, stdout := a.stdout, stderr := a.stderr, duration, peakKB := a.peakKB },
       { w with tree := changed w.tree call.directory a, calls := w.calls ++ [call] })

end World

end CrateAudit
