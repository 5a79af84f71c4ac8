import CrateAudit.Bytes.Basic

/-!
# Names and versions of crates

A crate's directory is named after the crate and its version, with a dash between them. The version is
what follows the last dash, when it starts with a digit and something stands in front of the dash.
-/

namespace CrateAudit.Crate

open Bytes

/-- The name and the version in the name of a crate's directory; the version is empty if there is
none. -/
def split (id : Bytes) : Bytes × Bytes :=
  match splitLast? 0x2d id with
  | some (name, version) =>
    if !name.isEmpty && (version.head?).any isDigit then (name, version) else (id, [])
  | none => (id, [])

end CrateAudit.Crate
