import CrateAudit.Bytes.Lines
import CrateAudit.Bytes.Space
import CrateAudit.Fault
import CrateAudit.Path

/-!
# Jobs

A job is one crate to audit: its name, and the directory that the commands run in. Jobs come from a list
file, one name a line with white space around it ignored. A name may be listed once only.
-/

namespace CrateAudit

open Bytes

/-- One crate to audit. -/
structure Job where
  id : Bytes
  dir : Bytes
  deriving DecidableEq

namespace Job

/-- The job of a crate below a directory. -/
def below (dir id : Bytes) : Job := ⟨id, Path.join dir id⟩

/-- The names found so far with their lines, the last one first, or the fault that stopped the
reading. -/
abbrev Found := Except Fault (List (Bytes × Nat))

/-- Reads one line of a list file. -/
def readLine (found : Found) : ListLine × Nat → Found
  | (.tooLong, _) => do
    let _ ← found
    throw (.during (lit "reading job list") .lineTooLong)
  | (.line text, n) => do
    let seen ← found
    let id := trim text
    if id.isEmpty then return seen
    match seen.find? (·.1 = id) with
    | some (_, first) => throw (.duplicateJob n id first)
    | none => return (id, n) :: seen

/-- The jobs of a list file, in its order, below a directory. -/
def readList (dir text : Bytes) : Except Fault (List Job) := do
  let seen ← ((listLines text).zipIdx 1).foldl readLine (.ok [])
  if seen.isEmpty then throw .noJobs
  return seen.reverse.map fun (id, _) => below dir id

end Job

end CrateAudit
