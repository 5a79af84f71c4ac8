import CrateAudit.Config.Basic
import CrateAudit.Config.Issue
import CrateAudit.Yaml.Tree

/-!
# Reading configurations

The fields of a document are laid over the defaults. A document is refused when a value has the wrong
type or breaks the rule of its field; when there is nothing else to object to, unknown fields are
objected to. A field that is given more than once must have the same value each time, and sections that
are given more than once are put together.
-/

namespace CrateAudit.Config

open Bytes Yaml

/-- The file that issues refer to. -/
def fileName : Bytes := lit "config.yaml"

/-- The place of a mark. -/
def place (m : Mark) : Position := ⟨fileName, m.line + 1, m.column + 1⟩

/-- The places of a value; a record that is not empty has none. -/
def places : Tree → List Position
  | .record m fields => if fields.isEmpty then [place m] else []
  | t => [place t.mark]

/-! ### Issues -/

/-- A value does not fit its field. -/
def conflict (path : List Bytes) (t : Tree) : Issue := ⟨lit "conflicting values", path, places t⟩

/-- Neither the default of a field nor its rule admits a value. -/
def noAlternative (path : List Bytes) : Issue := ⟨lit "2 errors in empty disjunction:", path, []⟩

/-- A field is not known. -/
def unknownField (parents : List Bytes) (l : Label) : Issue :=
  ⟨lit "field not allowed", parents ++ [shownName l.name], [place l.mark]⟩

/-- The document cannot be read. -/
def unreadable : Issue := ⟨[], [], []⟩

/-- A value that was read with what there is to object to it. -/
structure Checked (α : Type) where
  value : α
  /-- values that do not fit -/
  conflicts : List Issue := []
  /-- fields that are not known -/
  unknown : List Issue := []

/-! ### Leaves -/

/-- The text of a value. -/
def text? : Tree → Option Bytes
  | .scalar _ (.text s) => some s
  | _ => none

/-- The truth value of a value. -/
def flag? : Tree → Option Bool
  | .scalar _ (.bool b) => some b
  | _ => none

/-- The texts of a list. -/
def texts? : Tree → Option (List Bytes)
  | .list _ items => items.mapM text?
  | _ => none

/-- Whether all given values are the same. -/
def agree {α : Type} [DecidableEq α] : List α → Bool
  | [] => true
  | a :: rest => rest.all (· = a)

/-- What of a value is to blame: the first item of a list of texts that is no text, or the whole. -/
def culprit : Tree → Tree
  | .list m items => (items.find? fun t => (text? t).isNone).getD (.list m items)
  | t => t

/-- A field with a default and a rule. `blame` tells what of a value that breaks the rule is to blame. -/
def leaf {α : Type} [DecidableEq α] (path : List Bytes) (rule : Tree → Option α) (fallback : α)
    (blame : Tree → Tree) (given : List Tree) : Checked α :=
  let wrong := given.filter fun t => (rule t).isNone
  let values := given.filterMap rule
  if !wrong.isEmpty then ⟨fallback, noAlternative path :: wrong.map fun t => conflict path (blame t), []⟩
  else match given, values with
    | t :: _, v :: _ =>
      if agree values then ⟨v, [], []⟩ else ⟨v, [noAlternative path, conflict path t], []⟩
    | _, _ => ⟨fallback, [], []⟩

/-- A text that is not empty. -/
def filled? (t : Tree) : Option Bytes := (text? t).filter (!·.isEmpty)

/-- The path of a command: a text, which must obey a rule. -/
def commandPath (path : List Bytes) (rule : Tree → Option Bytes) (fallback : Bytes) (given : List Tree) :
    Checked Bytes :=
  let wrong := given.filter fun t => (text? t).isNone
  if wrong.isEmpty then leaf path rule fallback id given
  else ⟨fallback, wrong.map (conflict path), []⟩

/-- The items of a list that are no texts. -/
def itemConflicts (path : List Bytes) (items : List Tree) : List Issue :=
  items.zipIdx.filterMap fun (t, i) =>
    if (text? t).isNone then some (conflict (path ++ [decimal i]) t) else none

/-- What there is to object to a list of arguments. -/
def argsConflicts (path : List Bytes) : Tree → List Issue
  | .list _ items => itemConflicts path items
  | t => [conflict path t]

/-- The arguments of a command: a list of texts. -/
def commandArgs (path : List Bytes) (fallback : List Bytes) (given : List Tree) : Checked (List Bytes) :=
  let wrong := given.flatMap (argsConflicts path)
  if !wrong.isEmpty then ⟨fallback, wrong, []⟩
  else match given, given.filterMap texts? with
    | t :: _, v :: rest => ⟨v, if agree (v :: rest) then [] else [conflict path t], []⟩
    | _, _ => ⟨fallback, [], []⟩

/-- The version: zero. -/
def versionConflicts (given : List Tree) : List Issue :=
  (given.filter fun
    | .scalar _ (.int i) => i ≠ 0
    | _ => true).map (conflict [lit "version"])

/-- The units of the kill grace. -/
def graceUnits : List Bytes := [lit "ns", lit "us", lit "ms", lit "s", lit "m", lit "h"]

/-- A kill grace: digits with a unit. -/
def grace? (t : Tree) : Option Bytes :=
  (text? t).filter fun s =>
    !(s.takeWhile isDigit).isEmpty && graceUnits.contains (s.dropWhile isDigit)

/-! ### Sections -/

/-- The values that some fields give to a name. -/
def given (fields : List (Label × Tree)) (name : String) : List Tree :=
  (fields.filter (·.1.name = lit name)).map (·.2)

/-- The fields of a section: those of all records that are given for it. -/
def sectionFields (trees : List Tree) : List (Label × Tree) :=
  trees.flatMap fun
    | .record _ fields => fields
    | _ => []

/-- The values given for a section that are no records. -/
def sectionConflicts (path : List Bytes) (trees : List Tree) : List Issue :=
  (trees.filter fun
    | .record .. => false
    | _ => true).map (conflict path)

/-- The fields that are not known, each name once. -/
def unknownFields (parents : List Bytes) (known : List String) (fields : List (Label × Tree)) : List Issue :=
  let strange := (fields.map (·.1)).filter fun l => !known.any (lit · = l.name)
  (strange.foldl (fun seen l => if seen.any (·.name = l.name) then seen else seen ++ [l]) []).map
    (unknownField parents)

/-- Reads a section with some known fields, unless something else is given in its place. -/
def inSection {α : Type} (name : String) (known : List String) (fallback : α)
    (read : List (Label × Tree) → Checked α) (fields : List (Label × Tree)) : Checked α :=
  let trees := given fields name
  let path := [lit name]
  match sectionConflicts path trees with
  | [] =>
    let inner := sectionFields trees
    let c := read inner
    ⟨c.value, c.conflicts, unknownFields path known inner ++ c.unknown⟩
  | conflicts => ⟨fallback, conflicts, []⟩

/-- Reads the section of a command. -/
def command (name : String) (rule : Tree → Option Bytes) (fallback : Command)
    (fields : List (Label × Tree)) : Checked Command :=
  inSection name ["path", "args", "env"] fallback (fun inner =>
    let path := commandPath [lit name, lit "path"] rule fallback.path (given inner "path")
    let args := commandArgs [lit name, lit "args"] fallback.args (given inner "args")
    let env := leaf [lit name, lit "env"] texts? fallback.env culprit (given inner "env")
    ⟨⟨path.value, args.value, env.value⟩, path.conflicts ++ args.conflicts ++ env.conflicts, []⟩) fields

/-- Reads the section about classification. -/
def classification (fallback : Bool) (fields : List (Label × Tree)) : Checked Bool :=
  inSection "classify" ["strict"] fallback
    (fun inner => leaf [lit "classify", lit "strict"] flag? fallback id (given inner "strict")) fields

/-- Reads the section about what is written. -/
def outputNames (fallback : OutputNames) (fields : List (Label × Tree)) : Checked OutputNames :=
  inSection "output" ["dir", "table", "narrative", "bom"] fallback (fun inner =>
    let name := fun (field : String) rule fallback =>
      leaf [lit "output", lit field] rule fallback id (given inner field)
    let dir := name "dir" filled? fallback.dir
    let table := name "table" filled? fallback.table
    let narrative := name "narrative" filled? fallback.narrative
    let bom := name "bom" text? fallback.bom
    ⟨⟨dir.value, table.value, narrative.value, bom.value⟩,
      dir.conflicts ++ table.conflicts ++ narrative.conflicts ++ bom.conflicts, []⟩) fields

/-- Reads the section about logging. -/
def loggingSettings (fallback : Logging) (fields : List (Label × Tree)) : Checked Logging :=
  inSection "service" ["verbose", "log"] fallback (fun inner =>
    let verbose := leaf [lit "service", lit "verbose"] flag? fallback.verbose id (given inner "verbose")
    let target := leaf [lit "service", lit "log"] filled? fallback.target id (given inner "log")
    ⟨⟨verbose.value, target.value⟩, verbose.conflicts ++ target.conflicts, []⟩) fields

/-! ### The whole document -/

/-- The fields of a configuration. -/
def knownFields : List String :=
  ["version", "analyzer", "preprocess", "cleanup", "wrapper", "kill_grace", "classify", "output", "service"]

/-- A configuration as it was read: the kill grace is still a text. -/
structure Draft where
  config : Config
  grace : Bytes

/-- Reads the fields of a document. -/
def draft (fields : List (Label × Tree)) : Checked Draft :=
  let d : Config := {}
  let analyzer := command "analyzer" filled? d.analyzer fields
  let preprocess := command "preprocess" filled? d.preprocess fields
  let cleanup := command "cleanup" filled? d.cleanup fields
  let wrapper := command "wrapper" text? d.wrapper fields
  let grace := leaf [lit "kill_grace"] grace? d.killGrace.text id (given fields "kill_grace")
  let strict := classification d.strict fields
  let output := outputNames d.output fields
  let logging := loggingSettings d.logging fields
  { value :=
      { config := { version := 0
                    analyzer := analyzer.value
                    preprocess := preprocess.value
                    cleanup := cleanup.value
                    wrapper := wrapper.value
                    strict := strict.value
                    output := output.value
                    logging := logging.value }
        grace := grace.value }
    conflicts := versionConflicts (given fields "version") ++ analyzer.conflicts ++ preprocess.conflicts ++
      cleanup.conflicts ++ wrapper.conflicts ++ grace.conflicts ++ strict.conflicts ++ output.conflicts ++
      logging.conflicts
    unknown := analyzer.unknown ++ preprocess.unknown ++ cleanup.unknown ++ wrapper.unknown ++
      strict.unknown ++ output.unknown ++ logging.unknown ++ unknownFields [] knownFields fields }

/-- Reads the fields of a document in an environment. -/
def ofFields (env : Environment) (fields : List (Label × Tree)) : Except (List Issue) Config :=
  let c := draft fields
  if !c.conflicts.isEmpty then .error c.conflicts
  else if !c.unknown.isEmpty then .error c.unknown
  else match Duration.read env c.value.grace with
    | .error _ => .error [unreadable]
    | .ok grace => .ok ({ c.value.config with killGrace := grace }.expand env)

/-- Reads documents in an environment: none stands for one without fields, and there may be only
one. -/
def ofTrees (env : Environment) : List Tree → Except (List Issue) Config
  | [] => ofFields env []
  | [.record _ fields] => ofFields env fields
  | [t] => .error [conflict [] t]
  | _ => .error [⟨lit "conflicting values", [], []⟩]

/-- Reads the text of a configuration in an environment. -/
def load (env : Environment) (bs : Bytes) : Except (List Issue) Config :=
  match Yaml.parse bs with
  | .error _ => .error [unreadable]
  | .ok trees => ofTrees env trees

end CrateAudit.Config
