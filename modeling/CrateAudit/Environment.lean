import CrateAudit.Bytes.Basic

/-!
# Environment variables

Settings may refer to environment variables as `$NAME` or `${NAME}`. References to unknown variables
disappear, a dollar sign that starts no reference stays, and what a variable holds is not expanded
again. In the braced form everything up to the closing brace is the name; an empty name or a missing
brace is dropped.
-/

namespace CrateAudit

/-- The variables of an environment; the last setting of a name counts. -/
structure Environment where
  bindings : List (Bytes × Bytes)

namespace Environment

/-- The value of a variable, if it is set. -/
def get? (env : Environment) (name : Bytes) : Option Bytes :=
  (env.bindings.reverse.find? fun v => v.1 = name).map (·.2)

/-- The value of a variable, empty if it is not set. -/
def get (env : Environment) (name : Bytes) : Bytes := (env.get? name).getD []

/-- The environment with one more setting. -/
def set (env : Environment) (name value : Bytes) : Environment :=
  ⟨env.bindings ++ [(name, value)]⟩

/-- The variables whose name is a single sign or digit. -/
def isSpecialName (b : UInt8) : Bool := Bytes.isDigit b || (Bytes.lit "*#$@!?-").contains b

/-- What stands behind a dollar sign: how many bytes belong to the reference, and its name. There is no
name if the dollar sign stands for itself (no byte belongs to it) or if the reference is broken. -/
def reference (bs : Bytes) : Nat × Option Bytes :=
  match bs with
  | 0x7b :: rest =>
    match rest with
    | s :: 0x7d :: _ => if isSpecialName s then (3, some [s]) else braced rest
    | _ => braced rest
  | b :: rest =>
    if isSpecialName b then (1, some [b])
    else
      let name := (b :: rest).takeWhile Bytes.isWord
      (name.length, if name.isEmpty then none else some name)
  | [] => (0, none)
where
  /-- The reference behind an opening brace. -/
  braced (rest : Bytes) : Nat × Option Bytes :=
    let name := rest.takeWhile (· ≠ 0x7d)
    if name.length = rest.length then (1, none)
    else if name.isEmpty then (2, none)
    else (name.length + 2, some name)

/-- Expands the references; `skip` bytes of one are still to be passed over, and `done` is the text so
far, reversed. -/
def expandGo (env : Environment) : Nat → Bytes → Bytes → Bytes
  | _, [], done => done.reverse
  | skip + 1, _ :: rest, done => expandGo env skip rest done
  | 0, b :: rest, done =>
    if b = 0x24 && !rest.isEmpty then
      match reference rest with
      | (0, _) => expandGo env 0 rest (b :: done)
      | (size, none) => expandGo env size rest done
      | (size, some name) => expandGo env size rest ((env.get name).reverse ++ done)
    else expandGo env 0 rest (b :: done)

/-- The text with its references replaced by the variables' values. -/
def expand (env : Environment) (bs : Bytes) : Bytes := expandGo env 0 bs []

end Environment

end CrateAudit
