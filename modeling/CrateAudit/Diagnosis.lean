import CrateAudit.Bytes.Lines
import CrateAudit.Fault
import CrateAudit.Severity

/-!
# Diagnoses

The analyzer prints one diagnosis a line. A line carries its severity behind the marker
`", seriousness: "`, as the letters, digits and underscores that follow the first occurrence of the
marker. The lenient mode looks at the first three of them and takes a line without a marker for a
serious one, with a warning; the strict mode wants one of the three names in full and refuses the whole
text otherwise.
-/

namespace CrateAudit

open Bytes

/-- How lines without a recognised severity are handled. -/
inductive Mode where
  | lenient
  | strict
  deriving DecidableEq

/-- The name of a mode. -/
def Mode.name : Mode → Bytes
  | .lenient => lit "lenient"
  | .strict => lit "strict"

namespace Diagnosis

/-- What stands in front of a severity. -/
def marker : Bytes := lit ", seriousness: "

/-- The word behind the first marker of a line, if the line has one. -/
def word? (line : Bytes) : Option Bytes := (afterFirst? marker line).map (·.takeWhile isWord)

/-- The severity that a mode recognises in the word behind the marker. -/
def ofWord? : Mode → Bytes → Option Severity
  | .lenient, w =>
    let start := w.take 3
    some (if start = lit "Low" then .low else if start = lit "Med" then .medium else .high)
  | .strict, w =>
    if w = lit "Low" then some .low
    else if w = lit "Medium" then some .medium
    else if w = lit "High" then some .high
    else none

/-- The severity that a mode recognises in a line. -/
def severity? (mode : Mode) (line : Bytes) : Option Severity := word? line >>= ofWord? mode

/-- The severity of a line; a line in which none is recognised is serious. -/
def severity (mode : Mode) (line : Bytes) : Severity := (severity? mode line).getD .high

/-- The lines of a text with their numbers, counted from one; empty lines are counted, but they are no
diagnoses. -/
def numbered (text : Bytes) : List (Nat × Bytes) :=
  ((lines text).zipIdx 1).filterMap fun (line, n) => if line.isEmpty then none else some (n, line)

/-- The findings of a text: its counts, and the numbers of the lines that count as serious only because
they have no marker. -/
structure Findings where
  counts : SeverityCounts := {}
  unmarked : List Nat := []
  deriving DecidableEq

/-- The warning about a line without a marker. -/
def warning (line : Nat) : Bytes :=
  lit "line " ++ decimal line ++ lit ": no severity marker, counted as High"

/-- The warnings of a text. -/
def Findings.warnings (f : Findings) : List Bytes := f.unmarked.map warning

/-- Counts one diagnosis in the lenient mode. -/
def Findings.count (f : Findings) : Nat × Bytes → Findings
  | (n, line) => {
      counts := f.counts.count (severity .lenient line)
      unmarked := if (severity? .lenient line).isNone then n :: f.unmarked else f.unmarked }

/-- The findings of a text in a mode. The strict mode refuses the text at the first line that it does
not recognise. -/
def classify (mode : Mode) (text : Bytes) : Except Fault Findings :=
  let all := numbered text
  match mode with
  | .lenient =>
    let f := all.foldl Findings.count {}
    .ok { f with unmarked := f.unmarked.reverse }
  | .strict =>
    match all.find? fun (_, line) => (severity? .strict line).isNone with
    | some (n, line) => .error (.unparseableDiagnosis n line)
    | none => .ok { counts := all.foldl (fun c (_, line) => c.count (severity .strict line)) {} }

end Diagnosis

end CrateAudit
