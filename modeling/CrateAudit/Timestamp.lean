import CrateAudit.Bytes.Basic

/-!
# Timestamps

A moment is counted in seconds from the beginning of 1970 and written in universal time as
`2006-01-02T15:04:05Z`. Days are counted in eras of four hundred years that start in March, so that the
day that leap years add comes last.
-/

namespace CrateAudit

/-- A moment, in seconds from the beginning of 1970. -/
structure Timestamp where
  seconds : Int

namespace Timestamp

open Bytes

/-- The year, month and day of a day counted from the beginning of 1970. -/
def civil (day : Int) : Int × Nat × Nat :=
  -- days from the first of March of the year zero
  let d := day + 719468
  let era := d.fdiv 146097
  let ofEra := (d.fmod 146097).toNat
  let year := (ofEra - ofEra / 1460 + ofEra / 36524 - ofEra / 146096) / 365
  let ofYear := ofEra - (365 * year + year / 4 - year / 100)
  let month := (5 * ofYear + 2) / 153
  let dayOfMonth := ofYear - (153 * month + 2) / 5 + 1
  let calendarMonth := if month < 10 then month + 3 else month - 9
  (era * 400 + year + (if calendarMonth ≤ 2 then 1 else 0), calendarMonth, dayOfMonth)

/-- A number with zeros in front up to a width. -/
def padded (width n : Nat) : Bytes :=
  let digits := decimal n
  List.replicate (width - digits.length) 0x30 ++ digits

/-- The text of a moment. -/
def text (t : Timestamp) : Bytes :=
  let (year, month, day) := civil (t.seconds.fdiv 86400)
  let second := (t.seconds.fmod 86400).toNat
  (if year < 0 then lit "-" else []) ++ padded 4 year.natAbs ++ lit "-" ++ padded 2 month ++ lit "-" ++
    padded 2 day ++ lit "T" ++ padded 2 (second / 3600) ++ lit ":" ++ padded 2 (second / 60 % 60) ++ lit ":" ++
    padded 2 (second % 60) ++ lit "Z"

end Timestamp

end CrateAudit
