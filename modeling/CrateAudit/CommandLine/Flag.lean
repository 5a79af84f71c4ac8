import CrateAudit.Bytes.Quoted
import CrateAudit.Number.Whole

/-!
# Flags

Flags are set by `--name value` or `--name=value`; a switch needs no value. They may stand anywhere
between the other arguments, and all arguments behind `--` are no flags.
-/

namespace CrateAudit.CommandLine

open Bytes

/-- A flag. -/
inductive Flag where
  | config
  | verbose
  | logFile
  | strict
  | known
  | timeout
  | help
  deriving DecidableEq

namespace Flag

/-- The name of a flag. -/
def name : Flag → Bytes
  | .config => lit "config"
  | .verbose => lit "verbose"
  | .logFile => lit "log-file"
  | .strict => lit "strict"
  | .known => lit "known"
  | .timeout => lit "timeout"
  | .help => lit "help"

/-- The short name of a flag. -/
def short? : Flag → Option UInt8
  | .help => some 0x68
  | _ => none

/-- Whether a flag needs no value. -/
def isSwitch : Flag → Bool
  | .verbose | .strict | .help => true
  | _ => false

/-- A flag as it is named in messages. -/
def shown (f : Flag) : Bytes :=
  (match f.short? with
   | some b => lit "-" ++ [b] ++ lit ", "
   | none => []) ++ lit "--" ++ f.name

end Flag

/-- What the flags of a command line say. -/
structure Options where
  config : Bytes := []
  verbose : Bool := false
  logFile : Bytes := []
  strict : Bool := false
  known : Bytes := []
  timeout : Int64 := 0
  help : Bool := false
  deriving DecidableEq

/-- What is wrong with a command line. -/
inductive Error where
  | unknownFlag (name : Bytes)
  | unknownShort (b : UInt8) (rest : Bytes)
  | malformedFlag (argument : Bytes)
  | missingValue (name : Bytes)
  | badValue (flag : Flag) (value reason : Bytes)
  /-- an argument that should be a command, with the commands that may be meant -/
  | unknownCommand (name : Bytes) (suggestions : List Bytes)
  /-- an argument for a command that takes none -/
  | unexpected (argument command : Bytes)

/-- A character between single quotes. -/
def quotedChar (c : Char) : Bytes :=
  lit "'" ++ (if c = '\'' then lit "\\'" else if c = '"' then lit "\"" else Quoted.char c) ++ lit "'"

/-- The wording of an error. -/
def Error.message : Error → Bytes
  | .unknownFlag name => lit "unknown flag: --" ++ name
  | .unknownShort b rest =>
    lit "unknown shorthand flag: " ++ quotedChar (Char.ofNat b.toNat) ++ lit " in -" ++ rest
  | .malformedFlag argument => lit "bad flag syntax: " ++ argument
  | .missingValue name => lit "flag needs an argument: --" ++ name
  | .badValue flag value reason =>
    lit "invalid argument " ++ value.quoted ++ lit " for " ++ flag.shown.quoted ++ lit " flag: " ++ reason
  | .unknownCommand name suggestions =>
    lit "unknown command " ++ name.quoted ++ lit " for \"crateval\"" ++
      if suggestions.isEmpty then []
      else lit "\n\nDid you mean this?\n" ++ suggestions.flatMap fun s => lit "\t" ++ s ++ lit "\n"
  | .unexpected argument command =>
    lit "unknown command " ++ argument.quoted ++ lit " for " ++ (lit "crateval " ++ command).quoted

/-! ### Values -/

/-- The value of a switch. -/
def switch? (value : Bytes) : Option Bool :=
  if ["1", "t", "T", "TRUE", "true", "True"].any (lit · = value) then some true
  else if ["0", "f", "F", "FALSE", "false", "False"].any (lit · = value) then some false
  else none

/-- The reason why a value is refused. -/
def reason (reader : String) (value cause : Bytes) : Bytes :=
  lit "strconv." ++ lit reader ++ lit ": parsing " ++ value.quoted ++ lit ": " ++ cause

/-- Sets a flag. -/
def Options.set (o : Options) (f : Flag) (value : Bytes) : Except Error Options := do
  let on := fun (set : Bool → Options) => match switch? value with
    | some b => .ok (set b)
    | none => .error (Error.badValue f value (reason "ParseBool" value (lit "invalid syntax")))
  match f with
  | .config => return { o with config := value }
  | .logFile => return { o with logFile := value }
  | .known => return { o with known := value }
  | .verbose => on fun b => { o with verbose := b }
  | .strict => on fun b => { o with strict := b }
  | .help => on fun b => { o with help := b }
  | .timeout =>
    match Whole.read value with
    | .ok n => return { o with timeout := n }
    | .error e => throw (.badValue f value (reason "ParseInt" value e.message))

/-! ### Arguments -/

/-- The dash that flags start with. -/
def dash : UInt8 := 0x2d

/-- Splits a flag at its first equals sign. -/
def splitValue (bs : Bytes) : Bytes × Option Bytes :=
  let name := bs.takeWhile (· ≠ 0x3d)
  (name, if name.length = bs.length then none else some (bs.drop (name.length + 1)))

/-- What reading a command line has found so far. -/
structure Parsed where
  options : Options := {}
  arguments : List Bytes := []

namespace Parsed

/-- Sets a flag. -/
def set (p : Parsed) (f : Flag) (value : Bytes) : Except Error Parsed := do
  return { p with options := ← p.options.set f value }

/-- Reads short flags. Flags of the form `-test.` are ignored. -/
def short (flags : List Flag) : Parsed → Bytes → Except Error Parsed
  | p, [] => .ok p
  | p, b :: rest =>
    if (lit "test.").isPrefixOf (b :: rest) then .ok p
    else match flags.find? (·.short? = some b) with
      | none => .error (.unknownShort b (b :: rest))
      | some f =>
        match rest with
        | 0x3d :: v :: value => p.set f (v :: value)
        | rest => do short flags (← p.set f (lit "true")) rest

/-- Reads arguments. -/
def read (flags : List Flag) : Parsed → List Bytes → Except Error Parsed
  | p, [] => .ok p
  | p, a :: rest =>
    match a with
    | 0x2d :: 0x2d :: long =>
      if long.isEmpty then .ok { p with arguments := p.arguments ++ rest }
      else if long.head? = some dash || long.head? = some 0x3d then .error (.malformedFlag a)
      else
        let (name, value?) := splitValue long
        match flags.find? (·.name = name) with
        | none => .error (.unknownFlag name)
        | some f =>
          match value?, f.isSwitch, rest with
          | some value, _, rest => do read flags (← p.set f value) rest
          | none, true, rest => do read flags (← p.set f (lit "true")) rest
          | none, false, value :: rest => do read flags (← p.set f value) rest
          | none, false, [] => .error (.missingValue name)
    | 0x2d :: c :: shorts => do read flags (← short flags p (c :: shorts)) rest
    | _ => read flags { p with arguments := p.arguments ++ [a] } rest

end Parsed

end CrateAudit.CommandLine
