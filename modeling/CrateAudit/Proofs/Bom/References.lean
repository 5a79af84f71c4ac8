import CrateAudit.Bom.Document
import CrateAudit.Proofs.Bytes.Decimal
import CrateAudit.Proofs.Diagnosis
import CrateAudit.Proofs.Job
import Mathlib.Data.List.Nodup
import Mathlib.Data.List.Pairwise

/-!
# References in bills of materials

The elements of a bill of materials are referred to by names that are made from the names of the jobs: a
component has the name of its job, and a vulnerability that name with a number sign and the number of its
line behind it. The names of components differ because those of the jobs do, and the names of
vulnerabilities differ because the last number sign tells the job from the line
(`Vulnerability.lineName_inj`).

Names of the two kinds may meet, though, since a number sign may stand in the name of a job. Main results:
`nodup_references_iff`, which tells exactly when they meet, and `references_meet`, a list of crates for which
they do.
-/

namespace CrateAudit

open Bytes

variable {results : List Result} {r : Result}

/-! ### Names of elements -/

/-- The name of the component of a job. -/
def Component.reference (id : Bytes) : Bytes := lit "crate/" ++ id

/-- A line of a job as it is called in names: by the name of the job and the number of the line. -/
def Vulnerability.lineName (id : Bytes) (line : Nat) : Bytes := id ++ lit "#" ++ decimal line

theorem Component.ref_ofResult (r : Result) : (ofResult r).ref = reference r.id := rfl

theorem Vulnerability.ref_ofDiagnosis (id : Bytes) (line : Nat) (text : Bytes) :
    (ofDiagnosis id line text).ref = Component.reference (lineName id line) := by
  simp only [ofDiagnosis, lineName, Component.reference, List.append_assoc]

theorem Component.reference_injective : Function.Injective reference := by
  intro id id' h
  exact List.append_cancel_left h

/-- The name of a vulnerability tells its job and its line. -/
theorem Vulnerability.lineName_inj {id id' : Bytes} {line line' : Nat} :
    lineName id line = lineName id' line' ↔ id = id' ∧ line = line' := by
  have hsep : lit "#" = [0x23] := by decide
  rw [lineName, lineName, hsep, List.append_assoc, List.append_assoc]
  exact append_decimal_inj (by decide)

/-! ### Where vulnerabilities come from -/

/-- The job and the line of every diagnosis of some results. -/
def Bom.origins (results : List Result) : List (Bytes × Nat) :=
  results.flatMap fun r => (Diagnosis.numbered r.diagnostics).map fun d => (r.id, d.1)

/-- Different jobs and different lines are different origins. -/
theorem Bom.nodup_origins (h : (results.map (·.id)).Nodup) : (origins results).Nodup := by
  rw [origins, List.nodup_flatMap]
  constructor
  · intro r _
    refine List.Nodup.of_map Prod.snd ?_
    rw [List.map_map]
    exact Diagnosis.nodup_fst_numbered r.diagnostics
  · refine (List.pairwise_map.mp h).imp ?_
    intro r r' hne o ho ho'
    obtain ⟨d, -, rfl⟩ := List.mem_map.mp ho
    obtain ⟨d', -, heq⟩ := List.mem_map.mp ho'
    exact hne (congrArg Prod.fst heq).symm

theorem Vulnerability.map_ref_ofResult (r : Result) :
    (ofResult r).map (·.ref) =
      (Diagnosis.numbered r.diagnostics).map fun d => Component.reference (lineName r.id d.1) := by
  rw [ofResult, List.map_map]
  refine List.map_congr_left ?_
  intro d _
  exact ref_ofDiagnosis r.id d.1 d.2

theorem Vulnerability.affects_of_mem_ofResult {v : Vulnerability} (h : v ∈ ofResult r) :
    v.affects = Component.reference r.id := by
  obtain ⟨d, -, rfl⟩ := List.mem_map.mp h
  rfl

theorem Bom.map_ref_vulnerabilities (results : List Result) :
    (results.flatMap Vulnerability.ofResult).map (·.ref) =
      (origins results).map fun o => Component.reference (Vulnerability.lineName o.1 o.2) := by
  rw [origins, List.map_flatMap, List.map_flatMap]
  refine List.flatMap_congr ?_
  intro r _
  rw [Vulnerability.map_ref_ofResult, List.map_map]
  rfl

/-! ### All references of a document -/

namespace Bom

/-- The names of all elements. -/
def references (b : Bom) : List Bytes := b.components.map (·.ref) ++ b.vulnerabilities.map (·.ref)

theorem nodup_ref_components (h : (results.map (·.id)).Nodup) :
    ((results.map Component.ofResult).map (·.ref)).Nodup := by
  have hmap : (results.map Component.ofResult).map (·.ref) = (results.map (·.id)).map Component.reference := by
    rw [List.map_map, List.map_map]
    rfl
  rw [hmap]
  exact h.map Component.reference_injective

theorem nodup_ref_vulnerabilities (h : (results.map (·.id)).Nodup) :
    ((results.flatMap Vulnerability.ofResult).map (·.ref)).Nodup := by
  rw [map_ref_vulnerabilities]
  refine (nodup_origins h).map ?_
  intro o o' heq
  have hinj := Vulnerability.lineName_inj.mp (Component.reference_injective heq)
  exact Prod.ext hinj.1 hinj.2

/-- The name of a job's component is that of no vulnerability, unless a line of another job reads like it. -/
theorem reference_mem_vulnerabilities {id : Bytes} :
    Component.reference id ∈ (results.flatMap Vulnerability.ofResult).map (·.ref) ↔
      ∃ o ∈ origins results, Vulnerability.lineName o.1 o.2 = id := by
  rw [map_ref_vulnerabilities, List.mem_map]
  refine exists_congr fun o => and_congr_right fun _ => ?_
  exact Component.reference_injective.eq_iff

/-- Of several components with different names one only has a given one. -/
theorem filter_ref_components (h : (results.map (·.id)).Nodup) (hr : r ∈ results) :
    (results.map Component.ofResult).filter (·.ref = Component.reference r.id) = [Component.ofResult r] := by
  induction results with
  | nil => exact absurd hr List.not_mem_nil
  | cons first rest ih =>
    rw [List.map_cons, List.nodup_cons] at h
    obtain rfl | hrest := List.mem_cons.mp hr
    · have hother : (rest.map Component.ofResult).filter (·.ref = Component.reference r.id) = [] := by
        refine List.filter_eq_nil_iff.mpr ?_
        intro c hc heq
        obtain ⟨r', hr', rfl⟩ := List.mem_map.mp hc
        have hid : r'.id = r.id := Component.reference_injective (of_decide_eq_true heq)
        exact h.1 (List.mem_map.mpr ⟨r', hr', hid⟩)
      rw [List.map_cons, List.filter_cons_of_pos (by simp [Component.ref_ofResult]), hother]
    · have hne : (Component.ofResult first).ref ≠ Component.reference r.id := by
        intro heq
        have hid : first.id = r.id := Component.reference_injective heq
        exact h.1 (List.mem_map.mpr ⟨r, hrest, hid.symm⟩)
      rw [List.map_cons, List.filter_cons_of_neg (by simpa using hne)]
      exact ih h.2 hrest

/-- **References**. Of the elements that the results of a list of crates add to a document, no two components
have the same name, and no two vulnerabilities. All names differ exactly if no crate is called like a line of
a crate, that is, by the name of a crate with a number sign and the number of one of its diagnoses. The name
that a vulnerability refers to is that of one component, the one of its own crate, and it is the name of no
vulnerability under the same condition on that crate. -/
theorem nodup_references_iff {dir text : Bytes} {jobs : List Job} {b : Bom}
    (hjobs : Job.readList dir text = .ok jobs) (hresults : results.map (·.id) = jobs.map (·.id))
    (hcomponents : b.components = []) (hvulnerabilities : b.vulnerabilities = []) :
    ((b.addResults results).components.map (·.ref)).Nodup ∧
      ((b.addResults results).vulnerabilities.map (·.ref)).Nodup ∧
      ((b.addResults results).references.Nodup ↔
        ∀ o ∈ origins results, Vulnerability.lineName o.1 o.2 ∉ jobs.map (·.id)) ∧
      ∀ r ∈ results, ∀ v ∈ Vulnerability.ofResult r,
        (b.addResults results).components.filter (·.ref = v.affects) = [Component.ofResult r] ∧
          (v.affects ∉ (b.addResults results).vulnerabilities.map (·.ref) ↔
            ∀ o ∈ origins results, Vulnerability.lineName o.1 o.2 ≠ r.id) := by
  have hnodup : (results.map (·.id)).Nodup := hresults ▸ Job.nodup_id_of_readList hjobs
  have hcs : (b.addResults results).components = results.map Component.ofResult := by
    rw [addResults, hcomponents, List.nil_append]
  have hvs : (b.addResults results).vulnerabilities = results.flatMap Vulnerability.ofResult := by
    rw [addResults, hvulnerabilities, List.nil_append]
  rw [references, hcs, hvs]
  refine ⟨nodup_ref_components hnodup, nodup_ref_vulnerabilities hnodup, ?_, ?_⟩
  · rw [List.nodup_append', and_iff_right (nodup_ref_components hnodup),
      and_iff_right (nodup_ref_vulnerabilities hnodup), ← hresults]
    constructor
    · intro hdisjoint o ho hmem
      obtain ⟨r, hr, hid⟩ := List.mem_map.mp hmem
      refine hdisjoint (a := Component.reference r.id) ?_ (reference_mem_vulnerabilities.mpr ⟨o, ho, hid.symm⟩)
      exact List.mem_map.mpr ⟨_, List.mem_map_of_mem hr, rfl⟩
    · intro hfree name hcomponent hvulnerability
      obtain ⟨_, hc, rfl⟩ := List.mem_map.mp hcomponent
      obtain ⟨r, hr, rfl⟩ := List.mem_map.mp hc
      obtain ⟨o, ho, hid⟩ := reference_mem_vulnerabilities.mp hvulnerability
      exact hfree o ho (hid ▸ List.mem_map_of_mem hr)
  · intro r hr v hv
    rw [Vulnerability.affects_of_mem_ofResult hv]
    refine ⟨filter_ref_components hnodup hr, ?_⟩
    rw [reference_mem_vulnerabilities, not_exists]
    exact forall_congr' fun o => not_and

/-- The results of two crates, of which the first reports a diagnosis in its first and in its third line. -/
def neighbours (second : Bytes) : List Result :=
  [{ id := lit "a", diagnostics := lit "leak\n\nfree\n" }, { id := second }]

/-- A document without elements. -/
def blank : Bom := { serial := [], timestamp := ⟨0⟩ }

/-- An empty line is no diagnosis, so a crate may be called like one. -/
theorem nodup_references_emptyLine :
    Job.readList [] (lit "a\na#2\n") = .ok [Job.below [] (lit "a"), Job.below [] (lit "a#2")] ∧
      (blank.addResults (neighbours (lit "a#2"))).references.Nodup := by
  have hjobs : Job.readList [] (lit "a\na#2\n") = .ok [Job.below [] (lit "a"), Job.below [] (lit "a#2")] := by
    rfl
  refine ⟨hjobs, (nodup_references_iff hjobs rfl rfl rfl).2.2.1.mpr ?_⟩
  decide

/-- A crate that is called like a diagnosis of another has the same name in the document as that diagnosis. -/
theorem references_meet :
    (∃ jobs, Job.readList [] (lit "a\na#1\n") = .ok jobs ∧
        (neighbours (lit "a#1")).map (·.id) = jobs.map (·.id)) ∧
      ¬(blank.addResults (neighbours (lit "a#1"))).references.Nodup := by
  refine ⟨⟨[Job.below [] (lit "a"), Job.below [] (lit "a#1")], rfl, rfl⟩, ?_⟩
  decide

end Bom

end CrateAudit
