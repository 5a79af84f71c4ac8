import CrateAudit.Session.Prepare
import CrateAudit.Session.Run
import CrateAudit.Session.Setup
import CrateAudit.Yaml.Printer

/-!
# Invoking the program

An invocation reads its command line, sets up the session and does what the command line asks for. It
ends with status zero, or with status one after its fault was logged; a command line that asks for
something impossible is told on the error stream as well.
-/

namespace CrateAudit

open Bytes Step

/-- What the version command prints. -/
def versionText (configPath : Bytes) : Bytes :=
  (if configPath.isEmpty then [] else lit "config:   " ++ configPath ++ [newline]) ++ lit "crateval: (devel)\n\n"

/-- Does what a command line asks for. -/
def perform (args : List Bytes) : Step Unit := do
  let (invocation, options) ← CommandLine.read args
  if let .help := invocation then return
  let (path, config) ← Setup.setUp options
  match invocation with
  | .run list dir workers seconds =>
    let mode : Mode := if config.strict || options.strict then .strict else .lenient
    Run.run config ⟨list, dir, workers, seconds, mode⟩
  | .preprocess dir workers => Prepare.run config ⟨dir, workers, options.known, options.timeout⟩
  | .config => print (Yaml.print config.toJson)
  | .version => print (versionText path)
  | .help => return

/-- The end of a session that failed. -/
def Session.failed (s : Session) (fault : Fault) : Session :=
  let s := if fault.isUsage then s.write .error (.text (fault.message ++ [newline])) else s
  s.logged {} (Log.record .error "crateval failed" [.text "err" fault.message])

/-- Invokes the program: gives its exit status and the session at its end. -/
def invoke (args : List Bytes) (s : Session) : UInt8 × Session :=
  match (perform args).run s with
  | (.ok _, s) => (0, s)
  | (.error fault, s) => (1, s.failed fault)

end CrateAudit
