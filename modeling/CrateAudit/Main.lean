import CrateAudit.Session.Invoke
import Std.Time.DateTime.Timestamp

/-!
# The command line

The program reads the files that a command line may need into a file tree, invokes the session on it and
writes back what has changed. An invocation is a function of its session, so it is made twice: the first
one only shows which files it writes, and those that are there already are read before the second one, whose
result counts. Thus a log file is continued and not replaced.

Programs are not started from here and directories are not listed: the tree holds neither, so every command
counts as one that cannot be found. A file that cannot be read counts as one that is not there.
-/

namespace CrateAudit.Main

open Bytes

/-- The files that a command line may need. -/
def neededFiles (env : Environment) (args : List Bytes) : List Bytes :=
  let config := (Setup.userDirectory? env).toList.map (Path.join · Setup.configFile)
  let fixed := [Setup.environmentFile, Setup.configFile] ++ config ++ (env.get? Setup.configVariable).toList
  fixed ++ match CommandLine.read args with
    | .ok (.run list .., options) => [options.config, list]
    | .ok (_, options) => [options.config, options.known]
    | .error _ => []

/-- The names of the variables that a text may refer to. -/
def mentionedVariables (bs : Bytes) : List Bytes :=
  ((pieces 0x24 bs).drop 1).map fun p => (p.dropWhile (· = 0x7b)).takeWhile isWord

/-- The tree with a file at a path and all directories that lead to it. -/
def withFile (t : FileTree) (path content : Bytes) : FileTree :=
  let t := (t.makeDirectories (Path.parent path)).1
  match t.create path content with
  | .ok t => t
  | .error _ => t

/-- The name of a run from a random number. -/
def runName (n : Nat) : Bytes :=
  let digits := hex 32 n
  (lit "-").intercalate [digits.take 8, (digits.drop 8).take 4, lit "4" ++ (digits.drop 13).take 3,
    lit "8" ++ (digits.drop 17).take 3, digits.drop 20]

/-- The text of bytes. -/
def string (bs : Bytes) : String := (String.fromUTF8? ⟨bs.toArray⟩).getD ""

/-- The variables among some names that are set. -/
def bindings (names : List Bytes) : IO (List (Bytes × Bytes)) :=
  names.filterMapM fun name => do
    return (← IO.getEnv (string name)).map fun v => (name, lit v)

/-- The content of a file, if it can be read. -/
def content? (path : Bytes) : IO (Option Bytes) := do
  try
    return some (← IO.FS.readBinFile (string path)).toList
  catch _ => return none

/-- Writes an entry of a file tree to the disk, unless it was there before. -/
def writeBack (old : FileTree) (place : Location) (entry : Entry) : IO Unit := do
  let path := string (Path.ofElements true place)
  match entry, old.get? place with
  | .directory, none => IO.FS.createDirAll path
  | .file content, before =>
    let same : Bool := match before with
      | some (.file b) => b == content
      | _ => false
    unless same do
      IO.FS.writeBinFile path ⟨content.toArray⟩
  | _, _ => return

/-- The session of a command line. -/
def session (args : List Bytes) : IO Session := do
  let fixed ← bindings [lit "HOME", lit "XDG_CONFIG_HOME", lit "PWD", Setup.configVariable]
  let env : Environment := ⟨fixed⟩
  let here := env.get (lit "PWD")
  let t := ((({} : FileTree).makeDirectories here).1).inside (Path.elements here)
  let files ← ((neededFiles env args).filter (!·.isEmpty)).filterMapM fun path => do
    return (← content? path).map (path, ·)
  let mentioned ← bindings (files.flatMap fun f => mentionedVariables f.2)
  let moment := (← Std.Time.Timestamp.now).toSecondsSinceUnixEpoch.val
  let host : Host := ⟨Timestamp.text ⟨moment⟩, ⟨moment⟩, 0, runName (← IO.rand 0 (Nat.pow 16 32 - 1))⟩
  return { host, world := { tree := files.foldl (fun t f => withFile t f.1 f.2) t
                            environment := ⟨fixed ++ mentioned⟩ } }

/-- The session with those files of another tree that are on the disk and that it does not know yet. -/
def withFilesOf (s : Session) (t : FileTree) : IO Session := do
  let places := (t.entries.filter fun e => (s.world.tree.get? e.1).isNone).map (Path.ofElements true ·.1)
  let files ← places.filterMapM fun path => do
    return (← content? path).map (path, ·)
  return s.withTree (files.foldl (fun t f => withFile t f.1 f.2) s.world.tree)

end CrateAudit.Main

open CrateAudit in
/-- Invokes the program. -/
def main (args : List String) : IO UInt32 := do
  let args := args.map Bytes.lit
  let first ← Main.session args
  let before ← Main.withFilesOf first (invoke args first).2.world.tree
  let (status, after) := invoke args before
  for (place, entry) in after.world.tree.entries.reverse do
    Main.writeBack before.world.tree place entry
  (← IO.getStdout).write ⟨(after.stream .output).toArray⟩
  (← IO.getStderr).write ⟨(after.stream .error).toArray⟩
  return status.toUInt32
