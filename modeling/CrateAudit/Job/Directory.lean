import CrateAudit.FileTree
import CrateAudit.Job

/-!
# Jobs from a directory

The crates of a directory are the directories directly in it. A symbolic link is no directory, also if it
leads to one.
-/

namespace CrateAudit.Job

/-- The jobs of the crates in a directory, in ascending order of their names. -/
def ofDirectory (t : FileTree) (dir : Bytes) : Except Fault (List Job) := do
  let entries ← (t.list dir).mapError fun fault => .during (Bytes.lit "listing crates") (.file fault)
  match entries.filter (·.2.isDirectory) with
  | [] => throw .noJobs
  | crates => return crates.map fun (name, _) => below dir name

end CrateAudit.Job
