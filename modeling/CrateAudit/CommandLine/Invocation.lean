import CrateAudit.CommandLine.Flag
import CrateAudit.Fault

/-!
# Invocations

The first argument that is neither a flag nor the value of one names a command. Which arguments are
values is decided before the command is known, so every flag that is not known to be a switch takes the
argument behind it. The other arguments of a command are checked before anything is done.
-/

namespace CrateAudit.CommandLine

open Bytes

/-- A command. -/
inductive Command where
  | run
  | preprocess
  | config
  | version
  | completion
  | help
  deriving DecidableEq

namespace Command

/-- The name of a command. -/
def name : Command → Bytes
  | .run => lit "run"
  | .preprocess => lit "preprocess"
  | .config => lit "config"
  | .version => lit "version"
  | .completion => lit "completion"
  | .help => lit "help"

/-- The commands that are suggested in place of an unknown one. -/
def suggested : List Command := [.run, .preprocess, .config, .version, .completion]

/-- All commands. -/
def all : List Command := suggested ++ [.help]

/-- The command of a name. -/
def ofName? (name : Bytes) : Option Command := all.find? (·.name = name)

end Command

/-! ### Suggestions -/

/-- One row of the table of edit distances: the distances of a text that ends with `b` to the beginnings of
another text, from the distances without `b`. -/
def distanceRow (b : UInt8) (text : Bytes) (row : List Nat) : List Nat :=
  match row with
  | [] => []
  | corner :: above =>
    let step := fun (left diagonal : Nat) (c : UInt8) (up : Nat) =>
      if b = c then diagonal else min (min left up) diagonal + 1
    let (_, _, cells) := (text.zip above).foldl (fun (left, diagonal, cells) (c, up) =>
      let cell := step left diagonal c up
      (cell, up, cell :: cells)) (corner + 1, corner, [])
    (corner + 1) :: cells.reverse

/-- How many bytes have to be put in, left out or changed to get from one text to the other. -/
def distance (a b : Bytes) : Nat :=
  (a.foldl (fun row c => distanceRow c b row) (List.range (b.length + 1))).getLast?.getD 0

/-- A name without the difference between capital and small letters; stray bytes become the replacement
character. -/
def folded (bs : Bytes) : Bytes :=
  ((Utf8.pieces bs).flatMap fun
    | .char c => String.utf8EncodeChar c
    | .stray _ => lit "\ufffd").map lowerByte

/-- The commands that may be meant by a name: those that differ in two bytes at most, and those that
start with it. -/
def suggestions (typed : Bytes) : List Bytes :=
  (Command.suggested.map Command.name).filter fun name =>
    distance (folded typed) name ≤ 2 || (folded typed).isPrefixOf name

/-! ### Finding the command -/

/-- The flags of every command. -/
def commonFlags : List Flag := [.config, .verbose, .logFile]

/-- The flags of a command. -/
def Command.flags (c : Command) : List Flag :=
  (match c with
   | .run => [.strict]
   | .preprocess => [.known, .timeout]
   | _ => []) ++ commonFlags ++ [.help]

/-- Whether an argument takes the one behind it for its value. -/
def takesNext (a : Bytes) : Bool :=
  !a.contains 0x3d && match a with
    | 0x2d :: 0x2d :: name => !commonFlags.any fun f => f.name = name && f.isSwitch
    | [0x2d, _] => true
    | _ => false

/-- The arguments that are neither flags nor values. -/
def plain : List Bytes → List Bytes
  | [] => []
  | a :: rest =>
    if a = lit "--" then []
    else if takesNext a then
      match rest with
      | _ :: b :: rest => plain (b :: rest)
      | _ => []
    else if a.isEmpty || a.head? = some dash then plain rest
    else a :: plain rest

/-- The arguments without the first one that is a given name and no value. -/
def without (name : Bytes) : List Bytes → List Bytes
  | [] => []
  | a :: rest =>
    if a = lit "--" then a :: rest
    else if takesNext a then
      match rest with
      | value :: rest => a :: value :: without name rest
      | [] => [a]
    else if a = name then rest
    else a :: without name rest

/-- The command of a command line, and its own arguments. -/
def find (args : List Bytes) : Except Error (Command × List Bytes) :=
  match plain args with
  | [] => .ok (.help, args)
  | name :: _ =>
    match Command.ofName? name with
    | some c => .ok (c, without name args)
    | none => .error (.unknownCommand name (suggestions name))

/-! ### Invocations -/

/-- What a command line asks for. -/
inductive Invocation where
  | run (list dir : Bytes) (workers seconds : Int64)
  | preprocess (dir : Bytes) (workers : Int64)
  | config
  | version
  | help

/-- A positive number among the arguments. -/
def positive (name : String) (argument : Bytes) : Except Fault Int64 :=
  match (toInt64? argument).filter (0 < ·) with
  | some n => .ok n
  | none => .error (.usage (lit name ++ lit " must be a positive integer, got " ++ argument.quoted))

/-- The invocation of a command with arguments. -/
def Command.invocation (c : Command) (arguments : List Bytes) : Except Fault Invocation :=
  match c, arguments with
  | .run, [list, dir, workers, seconds] => do
    return .run list dir (← positive "workers" workers) (← positive "timeout_sec" seconds)
  | .run, _ => .error (.usage (lit "need four arguments to specify the crate list, the crate directory, " ++
      lit "the size of the worker pool and the timeout in seconds\n" ++
      lit "usage example:   crateval run crate_list.txt ../crates_with_bugs 8 240"))
  | .preprocess, [dir, workers] => do
    return .preprocess dir (← positive "workers" workers)
  | .preprocess, _ => .error (.usage (lit "need two arguments to specify the crate directory and the " ++
      lit "size of the worker pool\n" ++
      lit "usage example:   crateval preprocess ../crates 8 --known crates_all.txt > output.txt"))
  | .config, [] => .ok .config
  | .config, a :: _ => .error (.other (Error.unexpected a c.name).message)
  | .version, _ => .ok .version
  | .completion, _ | .help, _ => .ok .help

/-- Reads a command line. -/
def read (args : List Bytes) : Except Fault (Invocation × Options) := do
  let wrong := fun (e : Error) => Fault.other e.message
  let (command, args) ← (find args).mapError wrong
  let p ← (Parsed.read command.flags {} args).mapError wrong
  if p.options.help then return (.help, p.options)
  return (← command.invocation p.arguments, p.options)

end CrateAudit.CommandLine
