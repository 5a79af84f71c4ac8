import CrateAudit.Bom.Crate
import CrateAudit.Bom.Properties
import CrateAudit.Json
import CrateAudit.Number.Decimal
import CrateAudit.Outcome
import CrateAudit.Timestamp

/-!
# Bills of materials

The bill of materials of a run lists a component for every crate and a vulnerability for every diagnosis,
which refers to the component by its name in the document. Vulnerabilities are rated leniently in every
mode, so that lines which the strict mode refused to count have a rating too.
-/

namespace CrateAudit

open Bytes

/-- A crate in a bill of materials. -/
structure Component where
  ref : Bytes
  name : Bytes
  version : Bytes
  url : Bytes
  properties : Properties
  deriving DecidableEq

/-- A diagnosis in a bill of materials. -/
structure Vulnerability where
  ref : Bytes
  id : Bytes
  severity : Severity
  description : Bytes
  /-- the name of the component that it affects -/
  affects : Bytes
  deriving DecidableEq

/-- A bill of materials. -/
structure Bom where
  serial : Bytes
  timestamp : Timestamp
  components : List Component := []
  vulnerabilities : List Vulnerability := []
  properties : List (Bytes × Bytes) := []

namespace Component

/-- The component of a result. -/
def ofResult (r : Result) : Component :=
  let (name, version) := Crate.split r.id
  { ref := lit "crate/" ++ r.id
    name := name
    version := version
    url := if version.isEmpty then [] else lit "pkg:cargo/" ++ name ++ lit "@" ++ version
    properties := Properties.setAll {}
      [(lit "crateval:status", r.status.name),
       (lit "crateval:elapsed_seconds", r.elapsed.shortest),
       (lit "crateval:peak_memory_kb", integer r.peakKB.toInt),
       (lit "crateval:error", (r.fault.map Fault.message).getD []),
       (lit "crateval:classify_error", (r.classifyFault.map Fault.message).getD [])] }

end Component

namespace Vulnerability

/-- The vulnerability of a diagnosis: a line of the diagnostics of a job, with its number. -/
def ofDiagnosis (id : Bytes) (line : Nat) (text : Bytes) : Vulnerability where
  ref := lit "crate/" ++ id ++ lit "#" ++ decimal line
  id := lit "FFI-" ++ id ++ lit "-" ++ decimal line
  severity := Diagnosis.severity .lenient text
  description := text
  affects := lit "crate/" ++ id

/-- The vulnerabilities of a result. -/
def ofResult (r : Result) : List Vulnerability :=
  (Diagnosis.numbered r.diagnostics).map fun (line, text) => ofDiagnosis r.id line text

end Vulnerability

namespace Bom

/-- The bill of materials with some results added. -/
def addResults (b : Bom) (results : List Result) : Bom :=
  { b with
    components := b.components ++ results.map Component.ofResult
    vulnerabilities := b.vulnerabilities ++ results.flatMap Vulnerability.ofResult }

/-- The bill of materials with some properties of its own added. -/
def addProperties (b : Bom) (properties : List (Bytes × Bytes)) : Bom :=
  { b with properties := b.properties ++ properties }

/-! ### As a document -/

/-- A member that holds text. -/
def member (name : String) (value : Bytes) : Bytes × Json := (lit name, .text value)

/-- A member that is left out when its text is empty. -/
def optional (name : String) (value : Bytes) : List (Bytes × Json) :=
  if value.isEmpty then [] else [member name value]

/-- Properties as a document. -/
def propertiesJson (entries : List (Bytes × Bytes)) : Json :=
  .array (entries.map fun (name, value) => .object [member "name" name, member "value" value])

/-- A component as a document. -/
def componentJson (c : Component) : Json :=
  .object (optional "bom-ref" c.ref ++ [member "type" (lit "library"), member "name" c.name] ++
    optional "version" c.version ++ optional "purl" c.url ++
    (c.properties.list?.map fun entries => (lit "properties", propertiesJson entries)).toList)

/-- The rating of a severity. -/
def rating : Severity → Bytes
  | .high => lit "high"
  | .medium => lit "medium"
  | .low => lit "low"

/-- A vulnerability as a document. -/
def vulnerabilityJson (v : Vulnerability) : Json :=
  .object (optional "bom-ref" v.ref ++ optional "id" v.id ++
    [(lit "source", .object [member "name" (lit "cargo-ffi-checker")]),
     (lit "ratings", .array [.object [member "severity" (rating v.severity), member "method" (lit "other")]])] ++
    optional "description" v.description ++
    [(lit "affects", .array [.object [member "ref" v.affects]])])

/-- A bill of materials as a document. -/
def toJson (b : Bom) : Json :=
  .object [
    member "$schema" (lit "https://cyclonedx.org/schema/bom-1.6.schema.json"),
    member "bomFormat" (lit "CycloneDX"),
    member "specVersion" (lit "1.6"),
    member "serialNumber" (lit "urn:uuid:" ++ b.serial),
    (lit "version", .number 1),
    (lit "metadata", .object [
      member "timestamp" b.timestamp.text,
      (lit "lifecycles", .array [.object [member "phase" (lit "operations")]]),
      (lit "component", .object [member "type" (lit "application"), member "name" (lit "crateval"),
        member "version" (lit "(devel)")])]),
    (lit "components", .array (b.components.map componentJson)),
    (lit "properties", propertiesJson b.properties),
    (lit "vulnerabilities", .array (b.vulnerabilities.map vulnerabilityJson))]

/-- Bills of materials may stand inside markup. -/
def layout : Json.Layout := Json.indented { markup := true, shortControls := true }

/-- The text of a bill of materials. -/
def write (b : Bom) : Bytes := Json.write layout 0 b.toJson ++ [newline]

end Bom

end CrateAudit
