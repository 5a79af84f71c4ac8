import CrateAudit.FileTree

/-!
# Where log lines go

Log lines go to one of the standard streams, nowhere, or to the end of a file. The directory of a log file
is made at once, the file itself with the first line.
-/

namespace CrateAudit.Log

open Bytes

/-- Where log lines go. -/
inductive Target where
  | stderr
  | stdout
  | discard
  | file (path : Bytes)
  deriving DecidableEq

namespace Target

/-- The target that a setting names; a name that stands for no other target is a file. -/
def ofSetting (setting : Bytes) : Target :=
  if setting.isEmpty || setting = lit "stderr" then .stderr
  else if setting = lit "stdout" then .stdout
  else if setting = lit "discard" then .discard
  else .file setting

/-- Prepares a target: makes the directory of a file. -/
def prepare (target : Target) (t : FileTree) : FileTree × Option FileFault :=
  match target with
  | .file path => t.makeDirectories (Path.parent path)
  | _ => (t, none)

end Target

/-- Starts a log file. -/
def startFile (path line : Bytes) (t : FileTree) : FileTree × Option Fault :=
  match t.makeDirectories (Path.parent path) with
  | (t, some fault) => (t, some (.during (lit "can't make directories for new logfile") (.file fault)))
  | (t, none) =>
    match t.create path line with
    | .ok t => (t, none)
    | .error fault => (t, some (.during (lit "can't open new logfile") (.file fault)))

/-- Writes a line to the end of a log file. -/
def appendLine (path line : Bytes) (t : FileTree) : FileTree × Option Fault :=
  match t.stat path with
  | .error fault =>
    if fault.refusal = .notFound then startFile path line t
    else (t, some (.during (lit "error getting log file info") (.file fault)))
  | .ok _ =>
    match t.edit path (· ++ line) with
    | .ok t => (t, none)
    | .error fault => (t, some (.during (lit "can't open new logfile") (.file fault)))

end CrateAudit.Log
