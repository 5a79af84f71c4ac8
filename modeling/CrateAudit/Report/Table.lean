import CrateAudit.Bytes.Space
import CrateAudit.Number.Decimal
import CrateAudit.Outcome

/-!
# The table of results

One row for each result in the format of comma-separated values. A field stands between quotes, with
the quotes inside it doubled, when it holds a comma, a quote or a line end, when it starts with white
space, and when it is the end mark `\.` of other tools.
-/

namespace CrateAudit.Table

open Bytes

/-- Whether a field has to stand between quotes. -/
def needsQuotes (field : Bytes) : Bool :=
  field = lit "\\." || field.any (fun b => b = newline || b = carriageReturn || b = 0x22 || b = 0x2c) ||
    0 < leadingSpace field

/-- A field as it is written. -/
def field (bs : Bytes) : Bytes :=
  if needsQuotes bs then lit "\"" ++ bs.flatMap (fun b => if b = 0x22 then [b, b] else [b]) ++ lit "\""
  else bs

/-- A row as it is written. -/
def row (fields : List Bytes) : Bytes := (lit ",").intercalate (fields.map field) ++ [newline]

/-- The names of the columns. -/
def header : List Bytes :=
  [lit "Package", lit "high", lit "mid", lit "low", lit "time", lit "memory"]

/-- The fields of a result: seconds and megabytes are written with the fewest digits that read back. -/
def fields (r : Result) : List Bytes :=
  [r.id, integer r.counts.high.toInt, integer r.counts.medium.toInt, integer r.counts.low.toInt,
   r.elapsed.shortest, r.peakMB.shortest]

/-- The table of some results. -/
def write (results : List Result) : Bytes := row header ++ results.flatMap fun r => row (fields r)

end CrateAudit.Table
