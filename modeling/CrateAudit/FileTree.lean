import CrateAudit.Path
import CrateAudit.Program

/-!
# File trees

The files that a run works on: a tree of directories, files, symbolic links and programs, with a current
directory at which relative paths start. Every operation gives either the new tree or the reason why it is
refused, and a refused operation changes nothing.

A path is followed name by name. What a symbolic link names takes the link's place; more than forty links
on one path are refused.
-/

namespace CrateAudit

open Bytes

/-- What stands at a place of a file tree. -/
inductive Entry where
  | directory
  | file (content : Bytes)
  | link (target : Bytes)
  | program (program : Program)

/-- Whether an entry is a directory. -/
def Entry.isDirectory : Entry → Bool
  | .directory => true
  | _ => false

/-- A file tree. Its root is always a directory. -/
structure FileTree where
  entries : List (Location × Entry) := []
  /-- where relative paths start -/
  current : Location := []

namespace FileTree

/-- What stands at a place. -/
def get? (t : FileTree) (place : Location) : Option Entry :=
  if place.isEmpty then some .directory else (t.entries.find? fun e => e.1 = place).map (·.2)

/-- The tree with something else at a place. -/
def put (t : FileTree) (place : Location) (entry : Entry) : FileTree :=
  { t with entries := (place, entry) :: t.entries.filter fun e => e.1 ≠ place }

/-- The tree with another current directory. -/
def inside (t : FileTree) (place : Location) : FileTree := { t with current := place }

/-- The names in a directory with what they stand for, in ascending order. -/
def children (t : FileTree) (place : Location) : List (Bytes × Entry) :=
  (t.entries.filterMap fun (p, e) =>
    match p.getLast? with
    | some name => if p.dropLast = place then some (name, e) else none
    | none => none).mergeSort fun a b => Bytes.le a.1 b.1

/-! ### Following paths -/

/-- The number of bytes that a name may have. -/
def nameLimit : Nat := 255

/-- The number of bytes that a path may not reach. -/
def pathLimit : Nat := 4096

/-- The number of symbolic links that a path may lead through. -/
def linkLimit : Nat := 40

/-- The names of a path; a separator at its end asks for a directory, as a dot there does. -/
def names (path : Bytes) : List Bytes :=
  Path.elements path ++ if path.getLast? = some Path.slash then [lit "."] else []

/-- How far a path was followed. -/
inductive Walk where
  /-- to its end, where something may stand or not -/
  | arrived (place : Location) (entry : Option Entry)
  /-- to a link in a directory, with some names left -/
  | link (directory : Location) (target : Bytes) (rest : List Bytes)

/-- Follows names from a directory up to the next link; a link at the end is followed only if `follow`
says so. -/
def walk (t : FileTree) (follow : Bool) : Location → List Bytes → Except Refusal Walk
  | place, [] => .ok (.arrived place (some .directory))
  | place, name :: rest =>
    if name = lit "." then walk t follow place rest
    else if name = lit ".." then walk t follow place.dropLast rest
    else if nameLimit < name.length then .error .nameTooLong
    else
      let next := place ++ [name]
      match t.get? next with
      | none => if rest.isEmpty then .ok (.arrived next none) else .error .notFound
      | some .directory => walk t follow next rest
      | some (.link target) =>
        if rest.isEmpty && !follow then .ok (.arrived next (some (.link target)))
        else .ok (.link place target rest)
      | some entry => if rest.isEmpty then .ok (.arrived next (some entry)) else .error .notDirectory

/-- Where a path starts. -/
def start (place : Location) (path : Bytes) : Location := if Path.isRooted path then [] else place

/-- Follows names through a limited number of links. -/
def walkLinks (t : FileTree) (follow : Bool) : Nat → Location → List Bytes →
    Except Refusal (Location × Option Entry)
  | links, place, ns => do
    match ← walk t follow place ns with
    | .arrived place entry => return (place, entry)
    | .link directory target rest =>
      match links with
      | 0 => throw .tooManyLinks
      | links + 1 => walkLinks t follow links (start directory target) (names target ++ rest)

/-- Where a path leads, and what stands there. -/
def locate (t : FileTree) (follow : Bool) (path : Bytes) : Except Refusal (Location × Option Entry) :=
  if path.contains 0 then .error .invalidArgument
  else if path.isEmpty then .error .notFound
  else if pathLimit ≤ path.length then .error .nameTooLong
  else walkLinks t follow linkLimit (start t.current path) (names path)

/-- What stands at the end of a path. -/
def find (t : FileTree) (follow : Bool) (path : Bytes) : Except Refusal (Location × Entry) := do
  match ← t.locate follow path with
  | (place, some entry) => return (place, entry)
  | (_, none) => throw .notFound

/-! ### Operations -/

/-- Names an operation and its path in a refusal. -/
def reporting {α : Type} (operation : String) (path : Bytes) (r : Except Refusal α) : Except FileFault α :=
  r.mapError fun refusal => ⟨lit operation, path, refusal⟩

/-- What stands at the end of a path, links followed. -/
def stat (t : FileTree) (path : Bytes) : Except FileFault Entry :=
  reporting "stat" path do return (← t.find true path).2

/-- Opens what stands at the end of a path for reading. -/
def openRead (t : FileTree) (path : Bytes) : Except FileFault Entry :=
  reporting "open" path do return (← t.find true path).2

/-- The content of an entry that was opened at a path. -/
def content (path : Bytes) : Entry → Except FileFault Bytes
  | .directory => .error ⟨lit "read", path, .isDirectory⟩
  | .file content => .ok content
  | .link _ | .program _ => .ok []

/-- The names in the directory at the end of a path. -/
def list (t : FileTree) (path : Bytes) : Except FileFault (List (Bytes × Entry)) :=
  reporting "open" path do
    let (place, entry) ← t.find true path
    if entry.isDirectory then return t.children place else throw .notDirectory

/-- Writes a file at the end of a path; `change` gives the new content from the present one. -/
def edit (t : FileTree) (path : Bytes) (change : Bytes → Bytes) : Except FileFault FileTree :=
  reporting "open" path do
    let (place, entry) ← t.locate true path
    match entry with
    | some .directory => throw .isDirectory
    | some (.file content) => return t.put place (.file (change content))
    | _ => return t.put place (.file (change []))

/-- Writes a file with a content of its own. -/
def create (t : FileTree) (path content : Bytes) : Except FileFault FileTree := t.edit path fun _ => content

/-- Removes what stands at the end of a path, and all that is below it. -/
def remove (t : FileTree) (path : Bytes) : FileTree :=
  match t.locate false path with
  | .ok (place, some _) => { t with entries := t.entries.filter fun e => !place.isPrefixOf e.1 }
  | _ => t

/-- Makes one directory. -/
def makeDirectory (t : FileTree) (path : Bytes) : Except FileFault FileTree :=
  reporting "mkdir" path do
    let bare := (path.reverse.dropWhile (· = Path.slash)).reverse
    let (place, entry) ← t.locate false (if bare.isEmpty then path else bare)
    let last := (names bare).getLast?
    if entry.isSome || last = none || last = some (lit ".") || last = some (lit "..") then throw .exists
    return t.put place .directory

/-- A path without its last name and the separators around it. -/
def above (path : Bytes) : Bytes :=
  let before := (path.reverse.dropWhile (· = Path.slash)).dropWhile (· ≠ Path.slash)
  (before.drop 1).reverse

/-- Makes a directory when those that lead to it were made, unless that was refused. A directory that is there
already is as good as a new one. -/
def makeLast (path : Bytes) : FileTree × Option FileFault → FileTree × Option FileFault
  | (t, some fault) => (t, some fault)
  | (t, none) =>
    match t.makeDirectory path with
    | .ok t => (t, none)
    | .error fault =>
      match t.find false path with
      | .ok (_, .directory) => (t, none)
      | _ => (t, some fault)

/-- Makes a directory if nothing is there; `parents` is what making those that lead to it gives. -/
def makeMissing (t : FileTree) (path : Bytes) (parents : FileTree × Option FileFault) :
    FileTree × Option FileFault :=
  match t.stat path with
  | .ok .directory => (t, none)
  | .ok _ => (t, some ⟨lit "mkdir", path, .notDirectory⟩)
  | .error _ => makeLast path parents

/-- Makes a directory and all that lead to it, with as many steps as the path has bytes. What was made
stays when a later step is refused. -/
def makeDirectoriesGo : Nat → FileTree → Bytes → FileTree × Option FileFault
  | 0, t, path => t.makeMissing path (t, none)
  | steps + 1, t, path =>
    t.makeMissing path (if (above path).isEmpty then (t, none) else makeDirectoriesGo steps t (above path))

/-- Makes a directory and all that lead to it. -/
def makeDirectories (t : FileTree) (path : Bytes) : FileTree × Option FileFault :=
  makeDirectoriesGo path.length t path

/-- Makes an empty file and the directories that lead to it, as far as they can be made. -/
def touch (t : FileTree) (path : Bytes) : FileTree :=
  let t := (t.makeDirectories (Path.parent path)).1
  match t.create path [] with
  | .ok t => t
  | .error _ => t

end FileTree

end CrateAudit
