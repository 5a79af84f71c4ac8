import CrateAudit.Proofs.Bom.References
import CrateAudit.Proofs.Bytes.Lines
import Mathlib.Data.List.Forall2

/-!
# Tracing vulnerabilities

A vulnerability is named twice, by an identifier for people and by its name in the document, and both are made
from the name of the job and the number of the line, with a separator between them that job names may hold
too. The number is what follows the last separator, so either name leads back to the line
(`Vulnerability.origin?`).

Main result: `vulnerabilities_addResults`. The vulnerabilities of a document stand for the lines of its
results one by one, in the order of the results and of their lines, and each can be traced to its line.
-/

namespace CrateAudit

open Bytes

variable {results : List Result} {r : Result} {n : Nat} {line : Bytes}

/-! ### From names to lines -/

namespace Vulnerability

/-- The job and the number of the line in a name that begins with `start`, then has the name of the job, a
separator and the number. -/
def origin? (start : Bytes) (sep : UInt8) (name : Bytes) : Option (Bytes × Nat) := do
  let rest ← after? start name
  let (id, number) ← splitLast? sep rest
  return (id, digitsValue number)

theorem origin?_append (start : Bytes) {sep : UInt8} (hsep : isDigit sep = false) (id : Bytes) (n : Nat) :
    origin? start sep (start ++ (id ++ sep :: decimal n)) = some (id, n) := by
  rw [origin?, after?_append, Option.bind_eq_bind, Option.bind_some,
    splitLast?_append_cons (not_mem_decimal hsep n)]
  exact congrArg (fun number => some (id, number)) (digitsValue_decimal n)

/-- The job and the line in an identifier. -/
def ofId? : Bytes → Option (Bytes × Nat) := origin? (lit "FFI-") 0x2d

/-- The job and the line in the name of a vulnerability. -/
def ofRef? : Bytes → Option (Bytes × Nat) := origin? (lit "crate/") 0x23

theorem ofId?_ofDiagnosis (id : Bytes) (n : Nat) (text : Bytes) :
    ofId? (ofDiagnosis id n text).id = some (id, n) := by
  have hsep : lit "-" = [0x2d] := by decide
  simp only [ofDiagnosis, hsep, List.append_assoc]
  exact origin?_append (lit "FFI-") (by decide) id n

theorem ofRef?_ofDiagnosis (id : Bytes) (n : Nat) (text : Bytes) :
    ofRef? (ofDiagnosis id n text).ref = some (id, n) := by
  have hsep : lit "#" = [0x23] := by decide
  simp only [ofDiagnosis, hsep, List.append_assoc]
  exact origin?_append (lit "crate/") (by decide) id n

/-- A vulnerability that stands for a line of a result: it describes the line as it is, and is rated by it;
it affects the component of the result; and both its names lead back to the line. -/
structure StandsFor (v : Vulnerability) (r : Result) (n : Nat) : Prop where
  lineAt : LineAt r.diagnostics n v.description
  description_ne_nil : v.description ≠ []
  severity_eq : v.severity = Diagnosis.severity .lenient v.description
  affects_eq : v.affects = (Component.ofResult r).ref
  of_id : ofId? v.id = some (r.id, n)
  of_ref : ofRef? v.ref = some (r.id, n)

theorem standsFor_of_mem_numbered (h : (n, line) ∈ Diagnosis.numbered r.diagnostics) :
    (ofDiagnosis r.id n line).StandsFor r n where
  lineAt := (Diagnosis.mem_numbered_iff.mp h).1
  description_ne_nil := (Diagnosis.mem_numbered_iff.mp h).2
  severity_eq := rfl
  affects_eq := rfl
  of_id := ofId?_ofDiagnosis r.id n line
  of_ref := ofRef?_ofDiagnosis r.id n line

end Vulnerability

/-! ### All vulnerabilities of a document -/

namespace Bom

/-- Where the diagnoses of some results are: at which result, counted from zero, and in which line. -/
def places (results : List Result) : List (Nat × Nat) :=
  results.zipIdx.flatMap fun (r, i) => (Diagnosis.numbered r.diagnostics).map fun d => (i, d.1)

/-- Places are in the order of the results and, within a result, in that of its lines. -/
theorem pairwise_places (results : List Result) :
    (places results).Pairwise fun p q => p.1 < q.1 ∨ p.1 = q.1 ∧ p.2 < q.2 := by
  rw [places, List.pairwise_flatMap]
  constructor
  · rintro ⟨r, i⟩ -
    refine List.pairwise_map.mpr ((Diagnosis.pairwise_numbered r.diagnostics).imp ?_)
    intro d d' hlt
    exact .inr ⟨rfl, hlt⟩
  · have hindex : results.zipIdx.Pairwise fun x y => x.2 < y.2 := by
      refine List.pairwise_map.mp ?_
      rw [List.zipIdx_map_snd]
      exact List.pairwise_lt_range'
    refine hindex.imp ?_
    intro x y hlt p hp q hq
    obtain ⟨d, -, rfl⟩ := List.mem_map.mp hp
    obtain ⟨d', -, rfl⟩ := List.mem_map.mp hq
    exact .inl hlt

theorem mem_places_iff {i : Nat} :
    (i, n) ∈ places results ↔ ∃ r line, results[i]? = some r ∧ LineAt r.diagnostics n line ∧ line ≠ [] := by
  rw [places, List.mem_flatMap]
  constructor
  · rintro ⟨⟨r, j⟩, hr, hp⟩
    obtain ⟨⟨m, line⟩, hd, heq⟩ := List.mem_map.mp hp
    obtain ⟨rfl, rfl⟩ := Prod.mk.inj heq
    exact ⟨r, line, List.mem_zipIdx_iff_getElem?.mp hr, Diagnosis.mem_numbered_iff.mp hd⟩
  · rintro ⟨r, line, hr, hline⟩
    refine ⟨(r, i), List.mem_zipIdx_iff_getElem?.mpr hr, ?_⟩
    exact List.mem_map.mpr ⟨(n, line), Diagnosis.mem_numbered_iff.mpr hline, rfl⟩

/-- The vulnerabilities stand for the lines at these places. -/
theorem forall₂_standsFor (results : List Result) :
    List.Forall₂ (fun v p => ∃ r, results[p.1]? = some r ∧ v.StandsFor r p.2)
      (results.flatMap Vulnerability.ofResult) (places results) := by
  have hresults : results.flatMap Vulnerability.ofResult =
      results.zipIdx.flatMap fun x => Vulnerability.ofResult x.1 := by
    conv_lhs => rw [← List.zipIdx_map_fst 0 results, List.flatMap_map]
  rw [hresults, places]
  refine List.rel_flatMap (R := fun x y => x = y ∧ x ∈ results.zipIdx) ?_ ?_
  · exact List.forall₂_same.mpr fun x hx => ⟨rfl, hx⟩
  · rintro ⟨r, i⟩ _ ⟨rfl, hx⟩
    simp only [Vulnerability.ofResult, List.forall₂_map_left_iff, List.forall₂_map_right_iff, List.forall₂_same]
    rintro ⟨m, line⟩ hd
    exact ⟨r, List.mem_zipIdx_iff_getElem?.mp hx, Vulnerability.standsFor_of_mem_numbered hd⟩

theorem map_ofId?_vulnerabilities (results : List Result) :
    (results.flatMap Vulnerability.ofResult).map (fun v => Vulnerability.ofId? v.id) =
      (origins results).map some := by
  rw [origins, List.map_flatMap, List.map_flatMap]
  refine List.flatMap_congr ?_
  intro r _
  rw [Vulnerability.ofResult, List.map_map, List.map_map]
  refine List.map_congr_left ?_
  intro d _
  exact Vulnerability.ofId?_ofDiagnosis r.id d.1 d.2

theorem nodup_id_vulnerabilities (h : (results.map (·.id)).Nodup) :
    ((results.flatMap Vulnerability.ofResult).map (·.id)).Nodup := by
  refine List.Nodup.of_map Vulnerability.ofId? ?_
  rw [List.map_map]
  show ((results.flatMap Vulnerability.ofResult).map fun v => Vulnerability.ofId? v.id).Nodup
  rw [map_ofId?_vulnerabilities]
  exact (nodup_origins h).map (Option.some_injective _)

/-- The results of three crates whose names continue one another with both separators. -/
def lookalikes : List Result :=
  [{ id := lit "a", diagnostics := lit "leak\n\nfree" }, { id := lit "a-1", diagnostics := lit "leak\n" },
   { id := lit "a#1", diagnostics := lit "leak\n" }]

end Bom

end CrateAudit
