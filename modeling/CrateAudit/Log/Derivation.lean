import CrateAudit.Log

/-!
# Derived loggers and contexts

While a program runs, it derives loggers and contexts from those that it has, again and again. All of them stay in use,
so a registry numbers them in the order in which they came into being.

The attributes of a context are a slice, that is the first cells of an array. Slices of one array see each other's
cells, and appending to a slice writes into the cells behind it as long as the array has some to spare. Therefore a
context is derived from a slice that has been clipped, as if its array ended with it.
-/

namespace CrateAudit.Log

/-! ### Slices -/

/-- The first cells of an array, and the number of cells that appending may use. -/
structure Slice where
  array : Nat
  length : Nat
  capacity : Nat

/-- The slice without cells to spare. -/
def Slice.clip (s : Slice) : Slice := { s with capacity := s.length }

/-- The arrays of attributes that have been allocated, and how many cells to spare a new one gets when a slice has
outgrown its own. -/
structure Memory where
  spare : Nat → Nat
  arrays : List (List Attr) := []

namespace Memory

/-- The attributes of a slice. -/
def read (m : Memory) (s : Slice) : List Attr := ((m.arrays[s.array]?).getD []).take s.length

/-- What a cell holds that was not written to. -/
def blank : Attr := ([], .document .null)

/-- A slice of a new array. -/
def allocate (m : Memory) (attrs : List Attr) (spare : Nat) : Slice × Memory :=
  (⟨m.arrays.length, attrs.length, attrs.length + spare⟩,
   { m with arrays := m.arrays ++ [attrs ++ List.replicate spare blank] })

/-- Writes behind a slice. -/
def write (m : Memory) (s : Slice) (attrs : List Attr) : Memory :=
  { m with arrays := m.arrays.modify s.array fun cells =>
      cells.take s.length ++ attrs ++ cells.drop (s.length + attrs.length) }

/-- Appends to a slice, in its own array if that has the cells to spare. -/
def append (m : Memory) (s : Slice) (attrs : List Attr) : Slice × Memory :=
  let length := s.length + attrs.length
  if length ≤ s.capacity then ({ s with length }, m.write s attrs)
  else m.allocate (m.read s ++ attrs) (m.spare length)

/-- The slice of a context with more attributes; the context that all others are derived from has none. -/
def derive (m : Memory) (parent? : Option Slice) (attrs : List Attr) : Slice × Memory :=
  match parent? with
  | some s => m.append s.clip attrs
  | none =>
    let (s, m) := m.allocate [] attrs.length
    m.append s.clip attrs

end Memory

/-! ### Registries -/

/-- One more logger or context, derived from one that there is. -/
inductive Derivation where
  | context (parent : Nat) (attrs : List Attr)
  | logger (parent : Nat) (layer : Layer)

/-- The loggers and contexts that there are. Number zero is the logger or context that all others are derived from. -/
structure Registry where
  verbose : Bool
  memory : Memory
  loggers : List Logger := [{ verbose }]
  contexts : List (Option Slice) := [none]

namespace Registry

/-- A registry before anything was derived. -/
def start (verbose : Bool) (spare : Nat → Nat) : Registry := { verbose, memory := { spare } }

/-- The logger with a number. -/
def logger (r : Registry) (i : Nat) : Logger := (r.loggers[i]?).getD { verbose := r.verbose }

/-- The context with a number. -/
def context (r : Registry) (i : Nat) : Context := ⟨(((r.contexts[i]?).join).map r.memory.read).getD []⟩

/-- The registry after a derivation. -/
def derive (r : Registry) : Derivation → Registry
  | .context parent attrs =>
    let (s, memory) := r.memory.derive (r.contexts[parent]?).join attrs
    { r with memory, contexts := r.contexts ++ [some s] }
  | .logger parent (.attrs attrs) => { r with loggers := r.loggers ++ [(r.logger parent).withAttrs attrs] }
  | .logger parent (.group name) => { r with loggers := r.loggers ++ [(r.logger parent).withGroup name] }

/-- The line that the logger with a number writes for a record at a time, in the context with a number. -/
def line (r : Registry) (logger context : Nat) (now : Bytes) (record : Record) : Bytes :=
  (r.logger logger).line now (r.context context) record

end Registry

end CrateAudit.Log
