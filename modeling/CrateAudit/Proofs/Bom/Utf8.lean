import CrateAudit.Proofs.Bom.Properties
import CrateAudit.Proofs.Bom.Traces
import CrateAudit.Proofs.Json.RoundTrip

/-!
# Bills of materials in UTF-8

The texts of a bill of materials come from the results, cut at dashes and line feeds and put together with
texts of the library. Cutting at an ASCII character breaks no other character, so a bill of materials of
results in UTF-8 is in UTF-8 (`Bom.IsUtf8.addResults`), and so is its document (`Bom.isUtf8_toJson`).
-/

namespace CrateAudit

open Bytes
open Utf8 (isValid isValid_append isValid_append_left isValid_append_cons_iff isValid_lit isValid_of_all_isDigit)

variable {results : List Result} {r : Result} {b : Bom}

/-! ### Parts of texts -/

theorem Bytes.LineAt.isValid {text line : Bytes} {n : Nat} (h : LineAt text n line)
    (htext : isValid text = true) : isValid line = true := by
  obtain ⟨-, front, back, rfl, -, hfront, hback⟩ := h
  rw [List.append_assoc] at htext
  -- cut off what stands in front of the line, then what follows it
  have hline : Utf8.isValid (line ++ back) = true := by
    rcases hfront with rfl | hlast
    · exact htext
    · obtain ⟨front, rfl⟩ := List.getLast?_eq_some_iff.mp hlast
      rw [List.append_assoc, List.singleton_append] at htext
      exact ((isValid_append_cons_iff (by decide)).mp htext).2
  rcases hback with rfl | hhead
  · rwa [List.append_nil] at hline
  · obtain ⟨back, rfl⟩ := List.head?_eq_some_iff.mp hhead
    exact ((isValid_append_cons_iff (by decide)).mp hline).1

theorem Crate.isValid_split {id : Bytes} (h : isValid id = true) :
    isValid (split id).1 = true ∧ isValid (split id).2 = true := by
  rw [split]
  split
  · rename_i name version hsplit
    split
    · rw [eq_of_splitLast? hsplit] at h
      exact (isValid_append_cons_iff (by decide)).mp h
    · exact ⟨h, rfl⟩
  · exact ⟨h, rfl⟩

theorem isValid_zeros_decimal (k n : Nat) : isValid (List.replicate k 0x30 ++ decimal n) = true :=
  isValid_of_all_isDigit (digitsValue_zeros_append k n).1

theorem isValid_decimal (n : Nat) : isValid (decimal n) = true :=
  isValid_of_all_isDigit (all_isDigit_decimal n)

theorem Binary64.isValid_shortest (x : Binary64) : isValid x.shortest = true := by
  have hpositional : ∀ digits places, isValid (positional digits places) = true := by
    intro digits places
    rw [positional]
    split
    · exact isValid_decimal _
    · exact isValid_append (isValid_append (isValid_decimal _) (isValid_lit _)) (isValid_zeros_decimal _ _)
  rw [shortest, written.eq_def]
  split
  · exact isValid_lit _
  · exact isValid_lit _
  · refine isValid_append ?_ ?_
    · split
      · exact isValid_lit _
      · rfl
    · split
      · exact isValid_lit _
      · dsimp only
        split
        · exact isValid_decimal _
        · exact hpositional _ _

theorem Timestamp.isValid_text (t : Timestamp) : isValid t.text = true := by
  have hpadded : ∀ width n, isValid (padded width n) = true := fun width n => isValid_zeros_decimal _ n
  rw [text]
  split
  rename_i year month day _
  have hsign : isValid (if year < 0 then lit "-" else []) = true := by
    split
    · exact isValid_lit _
    · rfl
  simp only [List.append_assoc, isValid_append_left, hsign, hpadded, isValid_lit]

/-! ### Results, components and vulnerabilities -/

/-- A result whose texts are UTF-8. -/
structure Result.IsUtf8 (r : Result) : Prop where
  id : isValid r.id = true
  diagnostics : isValid r.diagnostics = true
  fault : ∀ f ∈ r.fault, isValid f.message = true
  classifyFault : ∀ f ∈ r.classifyFault, isValid f.message = true

/-- Named values in UTF-8. -/
def Properties.AreUtf8 (entries : List (Bytes × Bytes)) : Prop :=
  ∀ e ∈ entries, isValid e.1 = true ∧ isValid e.2 = true

/-- A component whose texts are UTF-8. -/
structure Component.IsUtf8 (c : Component) : Prop where
  ref : isValid c.ref = true
  name : isValid c.name = true
  version : isValid c.version = true
  url : isValid c.url = true
  properties : Properties.AreUtf8 c.properties.entries

/-- A vulnerability whose texts are UTF-8. -/
structure Vulnerability.IsUtf8 (v : Vulnerability) : Prop where
  ref : isValid v.ref = true
  id : isValid v.id = true
  description : isValid v.description = true
  affects : isValid v.affects = true

/-- A bill of materials whose texts are UTF-8. -/
structure Bom.IsUtf8 (b : Bom) : Prop where
  serial : isValid b.serial = true
  components : ∀ c ∈ b.components, c.IsUtf8
  vulnerabilities : ∀ v ∈ b.vulnerabilities, v.IsUtf8
  properties : Properties.AreUtf8 b.properties

namespace Properties

variable {p : Properties} {name value : Bytes} {entries : List (Bytes × Bytes)}

theorem AreUtf8.set (hp : AreUtf8 p.entries) (hname : isValid name = true) (hvalue : isValid value = true) :
    AreUtf8 (p.set name value).entries := by
  rw [Properties.set]
  split
  · exact hp
  · intro e he
    obtain rfl | hmem := mem_of_mem_upsert he
    · exact ⟨hname, hvalue⟩
    · exact hp e hmem

theorem AreUtf8.setAll (hp : AreUtf8 p.entries) (h : AreUtf8 entries) :
    AreUtf8 (p.setAll entries).entries := by
  induction entries generalizing p with
  | nil => exact hp
  | cons e entries ih =>
    obtain ⟨⟨hname, hvalue⟩, hrest⟩ := List.forall_mem_cons.mp h
    exact ih (hp.set hname hvalue) hrest

end Properties

theorem Status.isValid_name (s : Status) : isValid s.name = true := by
  cases s <;> exact isValid_lit _

theorem isValid_message {fault : Option Fault} (h : ∀ f ∈ fault, isValid f.message = true) :
    isValid ((fault.map Fault.message).getD []) = true := by
  cases fault with
  | none => rfl
  | some f => exact h f rfl

theorem Result.IsUtf8.component (h : r.IsUtf8) : (Component.ofResult r).IsUtf8 := by
  obtain ⟨hname, hversion⟩ := Crate.isValid_split h.id
  refine ⟨isValid_append (isValid_lit _) h.id, hname, hversion, ?_, Properties.AreUtf8.setAll nofun ?_⟩
  · show isValid (if (Crate.split r.id).2.isEmpty then []
      else lit "pkg:cargo/" ++ (Crate.split r.id).1 ++ lit "@" ++ (Crate.split r.id).2) = true
    split
    · rfl
    · simp only [List.append_assoc, isValid_append_left, isValid_lit, hname, hversion]
  · simp [Properties.AreUtf8, isValid_lit, Status.isValid_name, Binary64.isValid_shortest,
      Json.isValid_integer, isValid_message h.fault, isValid_message h.classifyFault]

theorem Result.IsUtf8.vulnerability (h : r.IsUtf8) {v : Vulnerability} (hv : v ∈ Vulnerability.ofResult r) :
    v.IsUtf8 := by
  obtain ⟨⟨n, line⟩, hmem, rfl⟩ := List.mem_map.mp hv
  have hline := (Diagnosis.mem_numbered_iff.mp hmem).1.isValid h.diagnostics
  refine ⟨?_, ?_, hline, isValid_append (isValid_lit _) h.id⟩
  all_goals simp only [Vulnerability.ofDiagnosis, List.append_assoc, isValid_append_left, isValid_lit, h.id,
    isValid_decimal]

theorem Bom.IsUtf8.addResults (h : b.IsUtf8) (hresults : ∀ r ∈ results, r.IsUtf8) :
    (b.addResults results).IsUtf8 where
  serial := h.serial
  components := by
    refine List.forall_mem_append.mpr ⟨h.components, ?_⟩
    intro c hc
    obtain ⟨r, hr, rfl⟩ := List.mem_map.mp hc
    exact (hresults r hr).component
  vulnerabilities := by
    refine List.forall_mem_append.mpr ⟨h.vulnerabilities, ?_⟩
    intro v hv
    obtain ⟨r, hr, hv⟩ := List.mem_flatMap.mp hv
    exact (hresults r hr).vulnerability hv
  properties := h.properties

theorem Bom.IsUtf8.addProperties (h : b.IsUtf8) {properties : List (Bytes × Bytes)}
    (hproperties : Properties.AreUtf8 properties) : (b.addProperties properties).IsUtf8 where
  serial := h.serial
  components := h.components
  vulnerabilities := h.vulnerabilities
  properties := List.forall_mem_append.mpr ⟨h.properties, hproperties⟩

/-! ### The document -/

namespace Bom

theorem forall_mem_optional {P : Bytes × Json → Prop} {name : String} {value : Bytes}
    (h : P (member name value)) : ∀ m ∈ optional name value, P m := by
  rw [optional]
  split
  · exact nofun
  · exact List.forall_mem_singleton.mpr h

theorem isUtf8_propertiesJson {entries : List (Bytes × Bytes)} (h : Properties.AreUtf8 entries) :
    (propertiesJson entries).IsUtf8 := by
  rw [propertiesJson, Json.isUtf8_array_iff]
  intro j hj
  obtain ⟨⟨name, value⟩, he, rfl⟩ := List.mem_map.mp hj
  simpa [member, isValid_lit] using h _ he

theorem isUtf8_componentJson {c : Component} (h : c.IsUtf8) : (componentJson c).IsUtf8 := by
  rw [componentJson, Json.isUtf8_object_iff]
  simp only [List.forall_mem_append]
  refine ⟨⟨⟨⟨forall_mem_optional ?_, ?_⟩, forall_mem_optional ?_⟩, forall_mem_optional ?_⟩, ?_⟩
  · simp [member, isValid_lit, h.ref]
  · simp [member, isValid_lit, h.name]
  · simp [member, isValid_lit, h.version]
  · simp [member, isValid_lit, h.url]
  · intro m hm
    obtain ⟨entries, hentries, rfl⟩ := Option.map_eq_some_iff.mp (Option.mem_toList.mp hm)
    have hutf8 := h.properties
    rw [Properties.entries_of_list?_eq_some hentries] at hutf8
    exact ⟨isValid_lit _, isUtf8_propertiesJson hutf8⟩

theorem isValid_rating (s : Severity) : isValid (rating s) = true := by
  cases s <;> exact isValid_lit _

theorem isUtf8_vulnerabilityJson {v : Vulnerability} (h : v.IsUtf8) : (vulnerabilityJson v).IsUtf8 := by
  rw [vulnerabilityJson, Json.isUtf8_object_iff]
  simp only [List.forall_mem_append]
  refine ⟨⟨⟨⟨forall_mem_optional ?_, forall_mem_optional ?_⟩, ?_⟩, forall_mem_optional ?_⟩, ?_⟩
  · simp [member, isValid_lit, h.ref]
  · simp [member, isValid_lit, h.id]
  · simp [member, isValid_lit, isValid_rating]
  · simp [member, isValid_lit, h.description]
  · simp [member, isValid_lit, h.affects]

/-- **The document** of a bill of materials in UTF-8 is in UTF-8. -/
theorem isUtf8_toJson (h : b.IsUtf8) : b.toJson.IsUtf8 := by
  have hserial := isValid_append (isValid_lit "urn:uuid:") h.serial
  have hcomponents : ∀ c ∈ b.components, (componentJson c).IsUtf8 := fun c hc =>
    isUtf8_componentJson (h.components c hc)
  have hvulnerabilities : ∀ v ∈ b.vulnerabilities, (vulnerabilityJson v).IsUtf8 := fun v hv =>
    isUtf8_vulnerabilityJson (h.vulnerabilities v hv)
  simpa [toJson, member, isValid_lit, hserial, Timestamp.isValid_text, isUtf8_propertiesJson h.properties]
    using And.intro hcomponents hvulnerabilities

end Bom

end CrateAudit
