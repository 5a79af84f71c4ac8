import CrateAudit.Execution
import CrateAudit.Log
import CrateAudit.Log.Target
import CrateAudit.Timestamp

/-!
# Sessions

A session is one invocation of the program at work: the world it works in, what it has written to the
standard streams, and how it logs. Until logging is configured, log records go to the error stream as plain
lines. A log line that cannot be written is lost.
-/

namespace CrateAudit

open Bytes

/-- What a session is told by its surroundings. -/
structure Host where
  /-- the time that log lines carry -/
  clock : Bytes
  /-- the moment that documents carry -/
  moment : Timestamp
  process : Int
  /-- a name for the run that no other run has -/
  runId : Bytes

/-- The standard streams. -/
inductive Stream where
  | output
  | error
  deriving DecidableEq

/-- What is written to a stream. -/
inductive Writing where
  /-- text for a person or another program -/
  | text (bs : Bytes)
  /-- a log line -/
  | record (line : Bytes)
  /-- a log line from before logging was configured -/
  | plainRecord (line : Bytes)
  deriving DecidableEq

/-- The bytes that are written. -/
def Writing.bytes : Writing → Bytes
  | .text bs | .record bs | .plainRecord bs => bs

/-- One invocation of the program at work. -/
structure Session where
  host : Host
  world : World
  logging : Option (Log.Target × Log.Logger) := none
  written : List (Stream × Writing) := []

namespace Session

/-- Everything that was written to a stream. -/
def stream (s : Session) (stream : Stream) : Bytes :=
  (s.written.filter (·.1 = stream)).flatMap (·.2.bytes)

/-- The session after something was written. -/
def write (s : Session) (stream : Stream) (w : Writing) : Session :=
  { s with written := s.written ++ [(stream, w)] }

/-- The session with another file tree. -/
def withTree (s : Session) (t : FileTree) : Session := { s with world := { s.world with tree := t } }

/-- The session after a record was logged. -/
def logged (s : Session) (context : Log.Context) (record : Log.Record) : Session :=
  match s.logging with
  | none => s.write .error (.plainRecord (record.plainLine ++ [newline]))
  | some (target, logger) =>
    let line := logger.line s.host.clock context record
    if line.isEmpty then s
    else match target with
      | .stderr => s.write .error (.record line)
      | .stdout => s.write .output (.record line)
      | .discard => s
      | .file path => s.withTree (Log.appendLine path line s.world.tree).1

end Session

/-- A step of a session that may fail. -/
abbrev Step := ExceptT Fault (StateM Session)

namespace Step

/-- Writes to the output stream. -/
def print (bs : Bytes) : Step Unit := modify (·.write .output (.text bs))

/-- Logs a record. -/
def log (context : Log.Context) (record : Log.Record) : Step Unit := modify (·.logged context record)

/-- Does something in the world. -/
def inWorld {α : Type} (f : World → α × World) : Step α :=
  modifyGet fun s =>
    let (a, w) := f s.world
    (a, { s with world := w })

/-- Does something with the file tree that may be refused. What was done before stays. -/
def onTree (f : FileTree → FileTree × Option Fault) : Step Unit := do
  let fault ← modifyGet fun s =>
    let (t, fault) := f s.world.tree
    (fault, s.withTree t)
  match fault with
  | some fault => throw fault
  | none => return

/-- Goes on with a value, or fails within a context. -/
def during {α : Type} (context : Bytes) (r : Except Fault α) : Step α :=
  match r with
  | .ok a => return a
  | .error fault => throw (.during context fault)

/-- Opens a file for reading. -/
def openFile (context : String) (path : Bytes) : Step Entry := do
  during (lit context) (((← get).world.tree.openRead path).mapError .file)

end Step

end CrateAudit
