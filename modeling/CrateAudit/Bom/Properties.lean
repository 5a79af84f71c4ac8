import CrateAudit.Bytes.Basic

/-!
# Properties

The properties of a component are a list of named values in which every name occurs once. Setting a
property again changes its value in place, and setting it to nothing does nothing.
-/

namespace CrateAudit

/-- Named values, in the order in which their names were first set. There is no list until something is
set. -/
structure Properties where
  list? : Option (List (Bytes × Bytes)) := none
  deriving DecidableEq

namespace Properties

/-- The named values; without a list there are none. -/
def entries (p : Properties) : List (Bytes × Bytes) := p.list?.getD []

/-- Puts a value in the place of the first one with the same name, or at the end. -/
def upsert (name value : Bytes) : List (Bytes × Bytes) → List (Bytes × Bytes)
  | [] => [(name, value)]
  | e :: rest => if e.1 = name then (name, value) :: rest else e :: upsert name value rest

/-- Sets a property. -/
def set (p : Properties) (name value : Bytes) : Properties :=
  if value.isEmpty then p else ⟨some (upsert name value p.entries)⟩

/-- Sets some properties in turn. -/
def setAll (p : Properties) (entries : List (Bytes × Bytes)) : Properties :=
  entries.foldl (fun p e => p.set e.1 e.2) p

end Properties

end CrateAudit
