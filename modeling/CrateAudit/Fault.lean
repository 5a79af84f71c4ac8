import CrateAudit.Bytes.Quoted
import CrateAudit.Duration

/-!
# Faults

Everything that can go wrong is one of the causes of `Fault`. The wording of a fault is given once, by
`Fault.message`; what a caller may want to ask of it (`isMalformedUsage`, `isCanceled`) is asked of the
cause, also when the fault is reported within a context.
-/

namespace CrateAudit

open Bytes

/-- The reasons for which the operating system refuses an operation on files or processes. -/
inductive Refusal where
  | notFound
  | notDirectory
  | isDirectory
  | nameTooLong
  | tooManyLinks
  | exists
  | invalidArgument
  | notRunnable
  | notPermitted
  deriving DecidableEq

/-- The wording of a refusal. -/
def Refusal.message : Refusal → Bytes
  | .notFound => lit "no such file or directory"
  | .notDirectory => lit "not a directory"
  | .isDirectory => lit "is a directory"
  | .nameTooLong => lit "file name too long"
  | .tooManyLinks => lit "too many levels of symbolic links"
  | .exists => lit "file exists"
  | .invalidArgument => lit "invalid argument"
  | .notRunnable => lit "exec format error"
  | .notPermitted => lit "permission denied"

/-- An operation on a path that the operating system refused. -/
structure FileFault where
  operation : Bytes
  path : Bytes
  refusal : Refusal
  deriving DecidableEq

/-- The wording of a refused operation. -/
def FileFault.message (f : FileFault) : Bytes :=
  f.operation ++ lit " " ++ f.path ++ lit ": " ++ f.refusal.message

/-- How a process ends. -/
inductive Ending where
  | exits (status : UInt8)
  | dies (signal : Nat)
  deriving DecidableEq

/-- The exit code of a process, -1 if a signal ended it. -/
def Ending.code : Ending → Int
  | .exits status => status.toNat
  | .dies _ => -1

/-- The names of the signals. -/
def signalName (n : Nat) : Bytes :=
  match n with
  | 1 => lit "hangup"
  | 2 => lit "interrupt"
  | 3 => lit "quit"
  | 4 => lit "illegal instruction"
  | 5 => lit "trace/breakpoint trap"
  | 6 => lit "aborted"
  | 7 => lit "bus error"
  | 8 => lit "floating point exception"
  | 9 => lit "killed"
  | 10 => lit "user defined signal 1"
  | 11 => lit "segmentation fault"
  | 12 => lit "user defined signal 2"
  | 13 => lit "broken pipe"
  | 14 => lit "alarm clock"
  | 15 => lit "terminated"
  | 16 => lit "stack fault"
  | 17 => lit "child exited"
  | 18 => lit "continued"
  | 19 => lit "stopped (signal)"
  | 20 => lit "stopped"
  | 21 => lit "stopped (tty input)"
  | 22 => lit "stopped (tty output)"
  | 23 => lit "urgent I/O condition"
  | 24 => lit "CPU time limit exceeded"
  | 25 => lit "file size limit exceeded"
  | 26 => lit "virtual timer expired"
  | 27 => lit "profiling timer expired"
  | 28 => lit "window changed"
  | 29 => lit "I/O possible"
  | 30 => lit "power failure"
  | 31 => lit "bad system call"
  | n => lit "signal " ++ decimal n

/-- The wording of an end other than with status zero. -/
def Ending.message (e : Ending) : Bytes :=
  lit "exit code " ++ integer e.code ++ lit ": " ++ match e with
    | .exits status => lit "exit status " ++ decimal status.toNat
    | .dies signal => lit "signal: " ++ signalName signal

/-- Why a command failed. -/
inductive CommandFault where
  /-- the run was canceled before the process was started -/
  | canceled
  /-- a setting of an environment variable holds a zero byte -/
  | environment
  /-- the process could not be started -/
  | refused (fault : FileFault)
  /-- the process ended by itself, but not with status zero -/
  | ended (ending : Ending)
  deriving DecidableEq

/-- The wording of a command's failure. -/
def CommandFault.message : CommandFault → Bytes
  | .canceled => lit "context canceled"
  | .environment => lit "exec: environment variable contains NUL"
  | .refused f => f.message
  | .ended e => e.message

/-- An artifact that could not be created. -/
structure ArtifactFault where
  path : Bytes
  fault : FileFault
  deriving DecidableEq

/-- The wording of an artifact's failure. -/
def ArtifactFault.message (f : ArtifactFault) : Bytes :=
  lit "creating " ++ f.path ++ lit ": " ++ f.fault.message

/-- Everything that can go wrong. -/
inductive Fault where
  /-- there is nothing to audit -/
  | noJobs
  /-- a crate is listed twice -/
  | duplicateJob (line : Nat) (id : Bytes) (first : Nat)
  /-- a crate already has a result -/
  | duplicateResult (id : Bytes)
  /-- the resource usage of a run cannot be read -/
  | malformedUsage (detail : Option Bytes)
  /-- a diagnosis line has no severity that the strict mode accepts -/
  | unparseableDiagnosis (line : Nat) (text : Bytes)
  /-- a pool needs at least one worker; the number asked for, if it is reported -/
  | noWorkers (asked : Option Int64)
  /-- a line of a list file does not fit into the buffer -/
  | lineTooLong
  /-- no executable file is found for a command -/
  | missingCommand (path : Bytes)
  /-- a command ran into its deadline -/
  | timedOut (path : Bytes) (limit : Duration)
  /-- a command failed -/
  | commandFailed (path : Bytes) (fault : CommandFault)
  /-- the run was canceled -/
  | canceled
  /-- a file operation was refused -/
  | file (fault : FileFault)
  /-- some artifacts could not be created -/
  | artifacts (faults : List ArtifactFault)
  /-- a text is no duration -/
  | duration (error : Duration.ReadError)
  /-- a command line asks for something impossible -/
  | usage (detail : Bytes)
  /-- a fault described by its text alone -/
  | other (text : Bytes)
  /-- a fault with what was being done when it occurred -/
  | during (context : Bytes) (fault : Fault)
  deriving DecidableEq

namespace Fault

/-- The wording of a fault. -/
def message : Fault → Bytes
  | .noJobs => lit "no jobs"
  | .duplicateJob line id first =>
    lit "line " ++ decimal line ++ lit ": " ++ id.quoted ++ lit " already listed on line " ++ decimal first ++
      lit ": duplicate job"
  | .duplicateResult id => lit "job " ++ id.quoted ++ lit ": result already recorded"
  | .malformedUsage none => lit "malformed resource usage output"
  | .malformedUsage (some detail) => lit "malformed resource usage output: " ++ detail
  | .unparseableDiagnosis line text =>
    lit "line " ++ decimal line ++ lit ": " ++ text.quoted ++ lit ": unparseable diagnosis"
  | .noWorkers none => lit "worker count must be at least 1"
  | .noWorkers (some n) => integer n.toInt ++ lit ": worker count must be at least 1"
  | .lineTooLong => lit "bufio.Scanner: token too long"
  | .missingCommand path => lit "requirements failed: " ++ path
  | .timedOut path limit => lit "timeout: " ++ path ++ lit " after " ++ limit.text
  | .commandFailed path fault => lit "command failed: " ++ path ++ lit ": " ++ fault.message
  | .canceled => lit "context canceled"
  | .file fault => fault.message
  | .artifacts faults => [newline].intercalate (faults.map ArtifactFault.message)
  | .duration error => error.message
  | .usage detail => lit "invalid arguments: " ++ detail
  | .other text => text
  | .during context fault => context ++ lit ": " ++ fault.message

/-- The cause of a fault, without the contexts it is reported in. -/
def cause : Fault → Fault
  | .during _ fault => fault.cause
  | fault => fault

/-- Whether the resource usage of a run could not be read. -/
def isMalformedUsage (f : Fault) : Bool :=
  match f.cause with
  | .malformedUsage _ => true
  | _ => false

/-- Whether the run was canceled. -/
def isCanceled (f : Fault) : Bool :=
  match f.cause with
  | .canceled => true
  | .commandFailed _ .canceled => true
  | _ => false

/-- Whether a command line asks for something impossible. -/
def isUsage (f : Fault) : Bool :=
  match f.cause with
  | .usage _ => true
  | _ => false

/-- Whether a process ended by itself, but not with status zero. -/
def isExit (f : Fault) : Bool :=
  match f.cause with
  | .commandFailed _ (.ended _) => true
  | _ => false

end Fault

end CrateAudit
