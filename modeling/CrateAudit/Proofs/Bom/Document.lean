import CrateAudit.Proofs.Bom.Utf8

/-!
# Bills of materials read back

What a bill of materials holds can be looked up in its document by the names of members: a name occurs once,
or not at all where the text is empty. The decoders ask for the names only and not for the order of the
members, and they refuse names that occur twice.

Main result: `exists_read?_write`. The text of a bill of materials is a document whose components,
vulnerabilities and properties are those of the bill of materials, one by one and in the same order.
-/

namespace CrateAudit

open Bytes
open Utf8 (lit_inj)

variable {b : Bom}

/-! ### Looking into documents -/

namespace Json

variable {name : String} {value : Bytes} {j : Json}

/-- The values of the members of an object with a name. -/
def named? (name : String) : Json → Option (List Json)
  | .object members => some ((members.filter fun m => m.1 = lit name).map Prod.snd)
  | _ => none

/-- The value of the only member with a name. -/
def member? (name : String) (j : Json) : Option Json :=
  match j.named? name with
  | some [value] => some value
  | _ => none

/-- The text of a member; an absent member stands for the empty text. -/
def text? (name : String) (j : Json) : Option Bytes :=
  match j.named? name with
  | some [] => some []
  | some [.text s] => some s
  | _ => none

/-- The only item of an array. -/
def only? : Json → Option Json
  | .array [item] => some item
  | _ => none

theorem member?_of_named? {value : Json} (h : j.named? name = some [value]) :
    j.member? name = some value := by
  rw [member?, h]

theorem text?_of_named? (h : j.named? name = some [.text value]) : j.text? name = some value := by
  rw [text?, h]

theorem text?_of_optional (h : j.named? name = some ((Bom.optional name value).map Prod.snd)) :
    j.text? name = some value := by
  rw [text?, h, Bom.optional]
  split_ifs with hempty
  · rw [List.isEmpty_iff.mp hempty]
    rfl
  · rfl

end Json

/-! ### Decoders -/

namespace Bom

/-- The property that a document stands for. -/
def property? (j : Json) : Option (Bytes × Bytes) := do
  return (← j.text? "name", ← j.text? "value")

/-- The properties that an array stands for. -/
def properties? : Json → Option (List (Bytes × Bytes))
  | .array items => items.mapM property?
  | _ => none

/-- The severity of a rating. -/
def ofRating? (text : Bytes) : Option Severity := [.high, .medium, .low].find? (rating · = text)

end Bom

/-- The component that a document stands for; it may do without properties. -/
def Component.ofJson? (j : Json) : Option Component := do
  guard ((← j.text? "type") = lit "library")
  let list? ← match ← j.named? "properties" with
    | [] => some none
    | [properties] => (Bom.properties? properties).map some
    | _ => none
  return { ref := ← j.text? "bom-ref", name := ← j.text? "name", version := ← j.text? "version",
           url := ← j.text? "purl", properties := ⟨list?⟩ }

/-- The vulnerability that a document stands for; it has one rating and affects one component. -/
def Vulnerability.ofJson? (j : Json) : Option Vulnerability := do
  guard ((← (← j.member? "source").text? "name") = lit "cargo-ffi-checker")
  let rating ← (← j.member? "ratings").only?
  guard ((← rating.text? "method") = lit "other")
  let affected ← (← j.member? "affects").only?
  return { ref := ← j.text? "bom-ref", id := ← j.text? "id",
           severity := ← Bom.ofRating? (← rating.text? "severity"),
           description := ← j.text? "description", affects := ← affected.text? "ref" }

/-! ### Decoding what is written -/

namespace Bom

theorem filter_optional (name name' : String) (value : Bytes) :
    ((optional name value).filter fun m => m.1 = lit name') =
      if name = name' then optional name value else [] := by
  rw [optional]
  split_ifs <;> simp_all [member, lit_inj]

theorem property?_object (e : Bytes × Bytes) :
    property? (.object [member "name" e.1, member "value" e.2]) = some e := by
  have hname : Json.text? "name" (.object [member "name" e.1, member "value" e.2]) = some e.1 :=
    Json.text?_of_named? (by simp [Json.named?, member, lit_inj])
  have hvalue : Json.text? "value" (.object [member "name" e.1, member "value" e.2]) = some e.2 :=
    Json.text?_of_named? (by simp [Json.named?, member, lit_inj])
  rw [property?, hname, hvalue]
  rfl

theorem properties?_propertiesJson (entries : List (Bytes × Bytes)) :
    properties? (propertiesJson entries) = some entries := by
  rw [propertiesJson, properties?]
  induction entries with
  | nil => rfl
  | cons e entries ih =>
    rw [List.map_cons, List.mapM_cons, ih]
    show (property? (.object [member "name" e.1, member "value" e.2])).bind _ = _
    rw [property?_object]
    rfl

theorem ofRating?_rating (s : Severity) : ofRating? (rating s) = some s := by
  cases s <;> decide

end Bom

theorem Component.ofJson?_componentJson (c : Component) : ofJson? (Bom.componentJson c) = some c := by
  obtain ⟨htype, href, hname, hversion, hurl⟩ :
      (Bom.componentJson c).text? "type" = some (lit "library") ∧
      (Bom.componentJson c).text? "bom-ref" = some c.ref ∧
      (Bom.componentJson c).text? "name" = some c.name ∧
      (Bom.componentJson c).text? "version" = some c.version ∧
      (Bom.componentJson c).text? "purl" = some c.url := by
    refine ⟨Json.text?_of_named? ?_, Json.text?_of_optional ?_, Json.text?_of_named? ?_,
      Json.text?_of_optional ?_, Json.text?_of_optional ?_⟩
    all_goals simp [Json.named?, Bom.componentJson, Bom.filter_optional, Bom.member, lit_inj]
  have hproperties : (Bom.componentJson c).named? "properties" =
      some (c.properties.list?.map Bom.propertiesJson).toList := by
    cases hlist : c.properties.list? <;>
      simp [Json.named?, Bom.componentJson, Bom.filter_optional, Bom.member, lit_inj, hlist]
  rw [ofJson?, htype, href, hname, hversion, hurl, hproperties]
  obtain ⟨ref, name, version, url, ⟨list?⟩⟩ := c
  cases list? with
  | none => rfl
  | some entries => simp [Bom.properties?_propertiesJson]

theorem Vulnerability.ofJson?_vulnerabilityJson (v : Vulnerability) :
    ofJson? (Bom.vulnerabilityJson v) = some v := by
  obtain ⟨hsource, hratings, haffects⟩ :
      (Bom.vulnerabilityJson v).member? "source" =
        some (.object [Bom.member "name" (lit "cargo-ffi-checker")]) ∧
      (Bom.vulnerabilityJson v).member? "ratings" =
        some (.array [.object [Bom.member "severity" (Bom.rating v.severity),
          Bom.member "method" (lit "other")]]) ∧
      (Bom.vulnerabilityJson v).member? "affects" = some (.array [.object [Bom.member "ref" v.affects]]) := by
    refine ⟨Json.member?_of_named? ?_, Json.member?_of_named? ?_, Json.member?_of_named? ?_⟩
    all_goals simp [Json.named?, Bom.vulnerabilityJson, Bom.filter_optional, Bom.member, lit_inj]
  obtain ⟨href, hid, hdescription⟩ :
      (Bom.vulnerabilityJson v).text? "bom-ref" = some v.ref ∧
      (Bom.vulnerabilityJson v).text? "id" = some v.id ∧
      (Bom.vulnerabilityJson v).text? "description" = some v.description := by
    refine ⟨Json.text?_of_optional ?_, Json.text?_of_optional ?_, Json.text?_of_optional ?_⟩
    all_goals simp [Json.named?, Bom.vulnerabilityJson, Bom.filter_optional, Bom.member, lit_inj]
  rw [ofJson?, hsource, hratings, haffects, href, hid, hdescription]
  simp [Json.only?, Json.text?, Json.named?, Bom.member, lit_inj, Bom.ofRating?_rating]

namespace Bom

/-- The text of a bill of materials in UTF-8 reads as its document. -/
theorem read?_write_eq_toJson (h : b.IsUtf8) : Json.read? b.write = some b.toJson := by
  have hl : layout.IsSpacing := Json.isSpacing_indented _
  rw [write, Json.read?_write_append hl b.toJson 0 rfl, Json.repair_eq_self (isUtf8_toJson h)]

/-- **Bills of materials read back**. If all texts are UTF-8, the text of a bill of materials is a document in
which the components, the vulnerabilities and the properties are arrays, also if there are none. What the
items of these arrays stand for is what the bill of materials holds, item by item and in the same order, and
the serial number and the moment are there too. -/
theorem exists_read?_write {results : List Result} {serial : Bytes} {properties : List (Bytes × Bytes)}
    (hresults : ∀ r ∈ results, r.IsUtf8) (hserial : Utf8.isValid serial = true)
    (hproperties : Properties.AreUtf8 properties) (timestamp : Timestamp) :
    let b := (Bom.addResults { serial, timestamp } results).addProperties properties
    ∃ document components vulnerabilities entries,
      Json.read? b.write = some document ∧
      document.text? "serialNumber" = some (lit "urn:uuid:" ++ serial) ∧
      (document.member? "metadata").bind (Json.text? "timestamp") = some timestamp.text ∧
      document.member? "components" = some (.array components) ∧
      components.map Component.ofJson? = b.components.map some ∧
      document.member? "vulnerabilities" = some (.array vulnerabilities) ∧
      vulnerabilities.map Vulnerability.ofJson? = b.vulnerabilities.map some ∧
      document.member? "properties" = some (.array entries) ∧
      entries.map property? = b.properties.map some := by
  intro b
  have hnew : Bom.IsUtf8 { serial, timestamp } := ⟨hserial, by simp, by simp, by simp [Properties.AreUtf8]⟩
  have hb : b.IsUtf8 := (hnew.addResults hresults).addProperties hproperties
  refine ⟨b.toJson, b.components.map componentJson, b.vulnerabilities.map vulnerabilityJson,
    b.properties.map fun e => .object [member "name" e.1, member "value" e.2],
    read?_write_eq_toJson hb, ?_, ?_, ?_, ?_, ?_, ?_, ?_, ?_⟩
  · simp [Json.text?, Json.named?, toJson, member, lit_inj, b, addResults, addProperties]
  · simp [Json.text?, Json.member?, Json.named?, toJson, member, lit_inj, b, addResults, addProperties]
  · exact Json.member?_of_named? (by simp [Json.named?, toJson, member, lit_inj])
  · rw [List.map_map]
    exact List.map_congr_left fun c _ => Component.ofJson?_componentJson c
  · exact Json.member?_of_named? (by simp [Json.named?, toJson, member, lit_inj])
  · rw [List.map_map]
    exact List.map_congr_left fun v _ => Vulnerability.ofJson?_vulnerabilityJson v
  · exact Json.member?_of_named? (by simp [Json.named?, toJson, member, lit_inj, propertiesJson])
  · rw [List.map_map]
    exact List.map_congr_left fun e _ => property?_object e

/-- A result with everything in its texts that must be escaped: quotes, backslashes, markup, controls and the
separators of lines and paragraphs. -/
def awkward : Result :=
  { id := lit "<a&\"b\">-1.0"
    diagnostics := lit "C:\\\t\"\x01\", seriousness: Low\n\n\u2028é"
    fault := some (.other (lit "\u2029\x08\x0c")) }

theorem exists_read?_write_awkward :
    (∀ r ∈ [awkward], r.IsUtf8) ∧
      ∃ document components vulnerabilities,
        Json.read? ((blank.addResults [awkward]).addProperties [(lit "note", [])]).write = some document ∧
        document.member? "components" = some (.array components) ∧
        components.map Component.ofJson? = [some (Component.ofResult awkward)] ∧
        document.member? "vulnerabilities" = some (.array vulnerabilities) ∧
        vulnerabilities.map Vulnerability.ofJson? = (Vulnerability.ofResult awkward).map some := by
  have hresults : ∀ r ∈ [awkward], r.IsUtf8 := by
    refine List.forall_mem_singleton.mpr ⟨Utf8.isValid_lit _, Utf8.isValid_lit _, ?_, nofun⟩
    rintro f ⟨⟩
    exact Utf8.isValid_lit _
  have hproperties : Properties.AreUtf8 [(lit "note", [])] :=
    List.forall_mem_singleton.mpr ⟨Utf8.isValid_lit _, rfl⟩
  have hserial : Utf8.isValid [] = true := rfl
  obtain ⟨document, components, vulnerabilities, -, hread, -, -, hcarray, hcs, hvarray, hvs, -⟩ :=
    exists_read?_write hresults hserial hproperties ⟨0⟩
  refine ⟨hresults, document, components, vulnerabilities, hread, hcarray, hcs, hvarray, ?_⟩
  rw [hvs]
  simp [addResults, addProperties]

end Bom

end CrateAudit
