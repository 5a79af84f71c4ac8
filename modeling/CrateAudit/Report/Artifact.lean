import CrateAudit.Bom.Document
import CrateAudit.Config.Basic
import CrateAudit.FileTree
import CrateAudit.Report.Narrative
import CrateAudit.Report.Table

/-!
# Artifacts

What a run leaves behind: the table, the narrative and the bill of materials, below the output directory.
An artifact that cannot be created does not keep the others from being written.
-/

namespace CrateAudit

open Bytes

/-- A file that is to be written. -/
structure Artifact where
  path : Bytes
  content : Bytes

namespace Artifact

/-- The artifacts of some results; a bill of materials needs a name. -/
def ofResults (names : OutputNames) (results : List Result) (bom : Option Bom) : List Artifact :=
  let below := fun name content => (⟨Path.join names.dir name, content⟩ : Artifact)
  [below names.table (Table.write results), below names.narrative (Narrative.write results)] ++
  match bom with
  | some b => if names.bom.isEmpty then [] else [below names.bom b.write]
  | none => []

/-- Writes one artifact after others. -/
def write (done : FileTree × List ArtifactFault) (a : Artifact) : FileTree × List ArtifactFault :=
  match done.1.create a.path a.content with
  | .ok t => (t, done.2)
  | .error fault => (done.1, done.2 ++ [⟨a.path, fault⟩])

/-- Makes the output directory and writes the artifacts of some results. -/
def writeAll (names : OutputNames) (results : List Result) (bom : Option Bom) (t : FileTree) :
    FileTree × Option Fault :=
  match t.makeDirectories names.dir with
  | (t, some fault) => (t, some (.during (lit "creating output directory") (.file fault)))
  | (t, none) =>
    match (ofResults names results bom).foldl write (t, []) with
    | (t, []) => (t, none)
    | (t, faults) => (t, some (.artifacts faults))

end Artifact

end CrateAudit
