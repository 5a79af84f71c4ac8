import CrateAudit.CommandLine.Invocation
import CrateAudit.Config.Schema
import CrateAudit.Environment.File
import CrateAudit.Session

/-!
# Setting up a session

Before a command does its work, the environment file is read, the configuration is found and loaded, and
logging is configured. An environment variable names the configuration file, or else a flag; without either
it is looked for in the current directory and then in the directory for the settings of the user. Flags win
over the configuration.
-/

namespace CrateAudit.Setup

open Bytes Step

/-- The name of the environment file. -/
def environmentFile : Bytes := lit ".env"

/-- The name of the configuration file. -/
def configFile : Bytes := lit "crateval.yaml"

/-- The environment variable that names the configuration file. -/
def configVariable : Bytes := lit "CRATEVALCONFIG"

/-- The directory for the settings of the user. -/
def userDirectory? (env : Environment) : Option Bytes :=
  let settings := env.get (lit "XDG_CONFIG_HOME")
  let home := env.get (lit "HOME")
  let base :=
    if !settings.isEmpty then if Path.isRooted settings then some settings else none
    else if home.isEmpty then none else some (home ++ lit "/.config")
  base.map (Path.join · (lit "crateval"))

/-- Reads the environment file, if there is one. -/
def loadEnvironment : Step Unit := do
  let world := (← get).world
  match world.tree.openRead environmentFile with
  | .error fault =>
    if fault.refusal ≠ .notFound then throw (.during (lit "loading .env") (.file fault))
  | .ok entry =>
    let content ← during (lit "loading .env") ((FileTree.content environmentFile entry).mapError .file)
    let vars ← during (lit "loading .env") ((EnvironmentFile.read content).mapError (.other ·.message))
    modify fun s => { s with world :=
      { s.world with environment := EnvironmentFile.extend s.world.environment vars } }

/-- Whether a path leads to a file that is no directory. -/
def isFile (t : FileTree) (path : Bytes) : Bool :=
  match t.stat path with
  | .ok entry => !entry.isDirectory
  | .error _ => false

/-- The path of the configuration file; empty if there is none. -/
def configPath (w : World) (options : CommandLine.Options) (user : Option Bytes) : Bytes :=
  match w.environment.get? configVariable with
  | some path => path
  | none =>
    if !options.config.isEmpty then options.config
    else
      let candidates := (lit "." :: user.toList).map (Path.join · configFile)
      (candidates.find? (isFile w.tree)).getD []

/-- Loads the configuration file at a path. -/
def loadConfig (path : Bytes) : Step Config := do
  if path.isEmpty then return {}
  let entry ← openFile "opening config file" path
  let env := (← get).world.environment
  let config := match FileTree.content path entry with
    | .ok content => Config.load env content
    | .error _ => .error [Config.unreadable]
  match config with
  | .ok c => return c
  | .error issues =>
    let details := Config.details issues
    for d in details do
      log {} ⟨.error, d.text, [d.attr "detail"]⟩
    throw (.during (lit "parsing config " ++ path) (.other ([newline].intercalate (details.map (·.text)))))

/-- The configuration with what the flags say. -/
def withOptions (c : Config) (options : CommandLine.Options) : Config :=
  { c with logging :=
    { verbose := c.logging.verbose || options.verbose
      target := if options.logFile.isEmpty then c.logging.target else options.logFile } }

/-- Configures logging. -/
def configureLogging (l : Logging) : Step Unit := do
  let target := Log.Target.ofSetting l.target
  onTree fun t =>
    let (t, fault) := target.prepare t
    (t, fault.map fun f => .during (lit "opening log output " ++ l.target) (.file f))
  modify fun s => { s with logging := some (target, { verbose := l.verbose }) }

/-- Sets up a session: gives the path of the configuration file and the configuration. -/
def setUp (options : CommandLine.Options) : Step (Bytes × Config) := do
  let user := userDirectory? (← get).world.environment
  loadEnvironment
  let path := configPath (← get).world options user
  let config := withOptions (← loadConfig path) options
  configureLogging config.logging
  log {} (Log.record .debug "crateval run" [.text "configPath" path])
  log {} (Log.record .debug "crateval run" [(lit "config", .document config.toJson)])
  return (path, config)

end CrateAudit.Setup
