import CrateAudit.Bytes.Quoted
import CrateAudit.Bytes.Space
import CrateAudit.Fault
import CrateAudit.Number.Reading

/-!
# Resource usage

The measuring wrapper ends what it writes to the error stream with two words: the peak memory in
kilobytes and the elapsed time in seconds. Whatever the measured command wrote in front of them is
ignored.
-/

namespace CrateAudit

open Bytes

/-- The resources that a command used. -/
structure Usage where
  peakKB : Int64
  elapsed : Binary64
  deriving DecidableEq

namespace Usage

/-- The fault of a text that holds no usage. -/
def malformed (detail : Bytes) : Fault := .malformedUsage (some detail)

/-- Reads the usage at the end of an error stream. -/
def read (text : Bytes) : Except Fault Usage := do
  let words := fields text
  match words.reverse with
  | time :: memory :: _ =>
    let some peak := (toInt64? memory).filter (0 ≤ ·)
      | throw (malformed (lit "peak memory " ++ memory.quoted ++ lit " is not a KB count"))
    let some elapsed := (Binary64.read? time).filter (!·.isNegative)
      | throw (malformed (lit "elapsed time " ++ time.quoted ++ lit " is not a number of seconds"))
    return ⟨peak, elapsed⟩
  | _ => throw (malformed (lit "expected 2 trailing tokens, got " ++ decimal words.length))

/-- The usage of a process measured by the system itself. -/
def measured (duration : Duration) (maxKB : Int64) : Usage := ⟨maxKB, duration.seconds⟩

end Usage

end CrateAudit
