import CrateAudit.Duration
import CrateAudit.Environment
import CrateAudit.Json

/-!
# Configurations

A configuration names the commands that an audit runs, what it writes and how it logs. Every setting has
a default. Settings may refer to environment variables; `Config.expand` replaces the references.
-/

namespace CrateAudit

open Bytes

/-- An external command: the executable, its arguments, and settings of environment variables that are
added to the inherited ones. -/
structure Command where
  path : Bytes
  args : List Bytes
  env : List Bytes := []
  deriving DecidableEq

/-- The names of what a run writes: the files are below the directory, and a bill of materials without a
name is not written. -/
structure OutputNames where
  dir : Bytes := lit "outputs"
  table : Bytes := lit "result.csv"
  narrative : Bytes := lit "result.txt"
  bom : Bytes := lit "result.cdx.json"
  deriving DecidableEq

/-- How a run logs. -/
structure Logging where
  verbose : Bool := false
  target : Bytes := lit "stderr"
  deriving DecidableEq

/-- A configuration. -/
structure Config where
  version : Int := 0
  analyzer : Command := ⟨lit "cargo-ffi-checker", [lit "ffi-checker"], []⟩
  preprocess : Command := ⟨lit "cargo-ffi-checker", [lit "ffi-checker-preprocess"], []⟩
  cleanup : Command := ⟨lit "cargo", [lit "clean"], []⟩
  /-- measures the analyzer; without a path the system measures it -/
  wrapper : Command := ⟨lit "/usr/bin/time", [lit "-f", lit "%M\n%e"], []⟩
  /-- how long a command that is to be ended may take before it is killed -/
  killGrace : Duration := Duration.ofSeconds 5
  strict : Bool := false
  output : OutputNames := {}
  logging : Logging := {}
  deriving DecidableEq

/-- The command with its references to environment variables replaced. -/
def Command.expand (env : Environment) (c : Command) : Command :=
  ⟨env.expand c.path, c.args.map env.expand, c.env.map env.expand⟩

namespace Config

/-- The configuration with its references to environment variables replaced: those of the commands, of
the output directory and of the log file. -/
def expand (env : Environment) (c : Config) : Config :=
  { c with
    analyzer := c.analyzer.expand env
    preprocess := c.preprocess.expand env
    cleanup := c.cleanup.expand env
    wrapper := c.wrapper.expand env
    output := { c.output with dir := env.expand c.output.dir }
    logging := { c.logging with target := env.expand c.logging.target } }

/-- A command as a document. -/
def commandJson (c : Command) : Json :=
  .object [(lit "path", .text c.path), (lit "args", .array (c.args.map .text)), (lit "env", .array (c.env.map .text))]

/-- A configuration as a document. -/
def toJson (c : Config) : Json :=
  .object [
    (lit "version", .number c.version),
    (lit "analyzer", commandJson c.analyzer),
    (lit "preprocess", commandJson c.preprocess),
    (lit "cleanup", commandJson c.cleanup),
    (lit "wrapper", commandJson c.wrapper),
    (lit "kill_grace", .text c.killGrace.text),
    (lit "classify", .object [(lit "strict", .bool c.strict)]),
    (lit "output", .object [(lit "dir", .text c.output.dir), (lit "table", .text c.output.table),
      (lit "narrative", .text c.output.narrative), (lit "bom", .text c.output.bom)]),
    (lit "service", .object [(lit "verbose", .bool c.logging.verbose), (lit "log", .text c.logging.target)])]

end Config

end CrateAudit
