import CrateAudit.Bytes.Basic

/-!
# Paths

Paths are byte strings with `/` between their elements. `clean` gives the shortest path that names the
same place when no element is a symbolic link, and `join` puts one path below another.
-/

namespace CrateAudit.Path

open Bytes

/-- The separator. -/
def slash : UInt8 := 0x2f

/-- Whether a path starts at the root. -/
def isRooted (p : Bytes) : Bool := p.head? = some slash

/-- The elements of a path, empty ones left out. -/
def elements (p : Bytes) : List Bytes := (pieces slash p).filter (!·.isEmpty)

/-- Walks over one element: `.` stays, `..` goes back one element if there is one to go back over. The
elements so far are reversed. -/
def walk (rooted : Bool) (seen : List Bytes) (e : Bytes) : List Bytes :=
  if e = lit "." then seen
  else if e = lit ".." then
    match seen with
    | [] => if rooted then [] else [e]
    | last :: before => if last = lit ".." then e :: seen else before
  else e :: seen

/-- A path from its elements. -/
def ofElements (rooted : Bool) (es : List Bytes) : Bytes :=
  if rooted then slash :: [slash].intercalate es
  else if es.isEmpty then lit "." else [slash].intercalate es

/-- The path without empty elements, `.`, and every `..` that follows a name. -/
def clean (p : Bytes) : Bytes :=
  let rooted := isRooted p
  ofElements rooted ((elements p).foldl (walk rooted) []).reverse

/-- The path `p` below the directory `base`. -/
def join (base p : Bytes) : Bytes :=
  if base.isEmpty && p.isEmpty then []
  else if base.isEmpty then clean p
  else clean (base ++ [slash] ++ p)

/-- The last element of a path. -/
def base (p : Bytes) : Bytes :=
  if p.isEmpty then lit "." else ((elements p).getLast?).getD [slash]

/-- Everything in front of the last element of a path. -/
def parent (p : Bytes) : Bytes :=
  match splitLast? slash p with
  | none => lit "."
  | some (before, _) => clean (before ++ [slash])

end CrateAudit.Path
