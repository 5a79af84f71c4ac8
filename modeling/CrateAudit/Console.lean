import CrateAudit.Bytes.Lines
import CrateAudit.Display.Width
import CrateAudit.Job
import CrateAudit.Number.Decimal
import CrateAudit.Report.Summary
import CrateAudit.ResultSet

/-!
# What a run prints

The lines by which a run tells a person how it goes on. Text that is highlighted on a terminal is laid
out as a block: tabs become blanks, and when it has several lines they are filled up with blanks to the
same width.
-/

namespace CrateAudit.Console

open Bytes

/-- The text of a highlighted block. -/
def block (text : Bytes) : Bytes :=
  let text := replaceAll (lit "\r\n") (lit "\n") (replaceAll (lit "\t") (lit "    ") text)
  let rows := pieces newline text
  if rows.length ≤ 1 then text
  else
    let widths := rows.map Display.width
    let widest := widths.foldl max 0
    [newline].intercalate
      (List.zipWith (fun row width => row ++ List.replicate (widest - width) 0x20) rows widths)

/-- A highlighted block on lines of its own. -/
def blockLine (text : Bytes) : Bytes := block text ++ [newline]

/-- What is printed before a run. -/
def plan (jobs workers : Int) : Bytes :=
  blockLine (integer jobs ++ lit " tasks in total, run in " ++ integer workers ++ lit " threads")

/-- What is printed when a job is started. -/
def started (id : Bytes) : Bytes := blockLine (lit "Evaluating " ++ id)

/-- A warning. -/
def warn (message : Bytes) : Bytes := blockLine message

/-- What is printed about a job that was analyzed. -/
def analyzed (r : Result) : Bytes :=
  (if r.diagnostics.isEmpty then []
   else blockLine (lit "Bug Detected!") ++ blockLine r.id ++ (lines r.diagnostics).flatMap blockLine) ++
  (match r.classifyFault with
   | some fault => blockLine (lit "Could not classify diagnostics of crate " ++ r.id ++ lit ": " ++ fault.message)
   | none => []) ++
  blockLine (lit "Finish analyzing crate " ++ r.id)

/-- What is printed when a job is done. -/
def finished (r : Result) (done total : Int) : Bytes :=
  (match r.status with
   | .ok | .unclassified => analyzed r
   | .timeout => blockLine (lit "Timeout while analyzing crate " ++ r.id)
   | .malformed => blockLine (lit "Error while analyzing crate " ++ r.id ++ lit ": unreadable resource usage")
   | .failed => blockLine (lit "Error while analyzing crate " ++ r.id ++
      match r.fault with
      | some fault => lit ": " ++ fault.message
      | none => [])) ++
  lit "Progress: " ++ integer done ++ lit " / " ++ integer total ++ [newline]

/-- What is printed at the end of a run. -/
def summary (s : Summary) : Bytes :=
  blockLine (lit "Results:") ++
  lit "crates: " ++ decimal s.jobs ++ [newline] ++
  s.byStatus.flatMap (fun (status, n) => lit "  " ++ status.name ++ lit ": " ++ decimal n ++ [newline]) ++
  lit "findings: high " ++ integer s.findings.high.toInt ++ lit ", mid " ++ integer s.findings.medium.toInt ++
    lit ", low " ++ integer s.findings.low.toInt ++ [newline] ++
  if s.measured = 0 then []
  else
    lit "time: mean " ++ s.mean.fixed 2 ++ lit "s, median " ++ s.median.fixed 2 ++ lit "s, max " ++
      s.longest.fixed 2 ++ lit "s over " ++ decimal s.measured ++ lit " crates\n" ++
    lit "peak memory: " ++ s.peakMB.fixed 2 ++ lit " MB\n"

end CrateAudit.Console
