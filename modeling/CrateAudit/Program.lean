import CrateAudit.Fault

/-!
# Programs

A program is what it does when it is called: what it writes, which directories and files it removes and
creates, how long it takes and how it ends. What it does may depend on the call, so one program can treat every
working directory in its own way.
-/

namespace CrateAudit

/-- The place of a file: the names that lead to it from the root. -/
abbrev Location := List Bytes

/-- A call of a program. -/
structure Call where
  /-- the name of the executable file -/
  program : Bytes
  args : List Bytes
  env : Environment
  /-- the working directory -/
  directory : Location

/-- What a program does in one call. -/
structure Action where
  stdout : Bytes := []
  stderr : Bytes := []
  /-- the directories and files it removes before it creates others, below the working directory -/
  removed : List Bytes := []
  /-- the directories it creates, below the working directory -/
  dirs : List Bytes := []
  /-- the empty files it creates, below the working directory -/
  files : List Bytes := []
  /-- how long it takes, in nanoseconds, unless it is ended before -/
  lasts : Nat := 1
  /-- how it ends, unless it is ended before -/
  ending : Ending := .exits 0
  /-- how it ends when it is asked to end -/
  whenAsked : Ending := .dies 15
  /-- it goes on when it is asked to end, to its own end or until it is killed -/
  ignoresTermination : Bool := false
  /-- it leaves a process behind that holds its output streams open -/
  leavesChild : Bool := false
  /-- its peak memory in kilobytes -/
  peakKB : Int64 := 1

/-- An executable file. -/
inductive Program where
  /-- a file that the system refuses to run -/
  | unrunnable
  | runs (action : Call → Action)

end CrateAudit
