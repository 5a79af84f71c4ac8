import CrateAudit.Proofs.FileTree.Layout
import CrateAudit.Report.Artifact
import Mathlib.Data.List.Induction

/-!
# Artifacts that fail

Artifacts are written one after another, and one that cannot be created is left out and reported. Whether it can be
created is decided by the layout of the tree, which no artifact changes. So in the end every place holds the artifact
that it admits, or what it held before, and the report names the artifacts whose paths admit no place
(`Artifact.written_foldl`). If the artifacts have different places, none is spoiled by another
(`Artifact.writeAll_isolates`).
-/

namespace CrateAudit

open Bytes FileTree

namespace Artifact

variable {t u made : FileTree} {names : OutputNames} {results : List Result} {bom : Option Bom} {path content : Bytes}

/-! ### One artifact after another -/

/-- An artifact is written at the place that its path admits, or it is reported. -/
theorem write_cases (t : FileTree) (faults : List ArtifactFault) (a : Artifact) :
    (∃ place, t.Admits a.path place ∧ write (t, faults) a = (t.put place (.file a.content), faults)) ∨
    (∀ place, ¬ t.Admits a.path place) ∧
      ∃ refusal, write (t, faults) a = (t, faults ++ [⟨a.path, ⟨lit "open", a.path, refusal⟩⟩]) := by
  unfold write
  obtain ⟨place, hplace, hcreate⟩ | ⟨hnone, refusal, hcreate⟩ := t.create_cases a.path a.content
  · exact .inl ⟨place, hplace, by rw [hcreate]⟩
  · exact .inr ⟨hnone, refusal, by rw [hcreate]⟩

/-- What is left behind after some artifacts were to be written in a tree. -/
structure Written (t : FileTree) (as : List Artifact) (done : FileTree × List ArtifactFault) : Prop where
  layout : t.SameLayout done.1
  /-- a place holds an artifact that it admits; any other place is as it was -/
  get? : ∀ place,
    (∃ a ∈ as, t.Admits a.path place ∧ done.1.get? place = some (.file a.content)) ∨
    (∀ a ∈ as, ¬ t.Admits a.path place) ∧ done.1.get? place = t.get? place
  mem_paths_iff : ∀ path,
    path ∈ done.2.map (·.path) ↔ (∃ a ∈ as, a.path = path) ∧ ∀ place, ¬ t.Admits path place
  opening : ∀ f ∈ done.2, f.fault.operation = lit "open" ∧ f.fault.path = f.path

theorem written_nil (t : FileTree) : Written t [] (t, []) where
  layout := .refl t
  get? _ := .inr ⟨by simp, rfl⟩
  mem_paths_iff := by simp
  opening := by simp

/-- A place that one more artifact neither is admitted to nor changes is told of as before. -/
theorem Written.get?_concat {as : List Artifact} {faults : List ArtifactFault} (h : Written t as (u, faults))
    {a : Artifact} {place : Location} (ha : ¬ t.Admits a.path place) {v : FileTree} (hv : v.get? place = u.get? place) :
    (∃ b ∈ as ++ [a], t.Admits b.path place ∧ v.get? place = some (.file b.content)) ∨
    (∀ b ∈ as ++ [a], ¬ t.Admits b.path place) ∧ v.get? place = t.get? place := by
  rw [hv]
  obtain ⟨b, hb, hbplace, hget⟩ | ⟨hother, hget⟩ := h.get? place
  · exact .inl ⟨b, List.mem_append_left _ hb, hbplace, hget⟩
  · refine .inr ⟨?_, hget⟩
    simp only [List.mem_append, List.mem_singleton]
    rintro b (hb | rfl)
    · exact hother b hb
    · exact ha

/-- What was left behind is added to by one more artifact. -/
theorem Written.concat {as : List Artifact} {faults : List ArtifactFault} (h : Written t as (u, faults)) (a : Artifact) :
    Written t (as ++ [a]) (write (u, faults) a) := by
  obtain ⟨N, hN, hwrite⟩ | ⟨hnone, refusal, hwrite⟩ := write_cases u faults a
  · have hadmits : ∀ place, t.Admits a.path place ↔ place = N := by
      intro place
      rw [h.layout.admits_iff]
      exact ⟨fun hplace => hplace.eq hN, fun heq => heq ▸ hN⟩
    rw [hwrite]
    -- what is written changes no layout, so paths lead where they led before
    refine ⟨h.layout.trans (hN.plain.sameLayout_put a.content), fun place => ?_, fun path => ?_, h.opening⟩
    · have hget := get?_put u hN.plain.ne_root (.file a.content) place
      by_cases hplace : place = N
      · exact .inl ⟨a, by simp, (hadmits place).mpr hplace, hget.trans (if_pos hplace)⟩
      · exact h.get?_concat (mt (hadmits place).mp hplace) (hget.trans (if_neg hplace))
    · rw [h.mem_paths_iff]
      refine and_congr_left fun hpath => ?_
      have hne : a.path ≠ path := by
        rintro rfl
        exact hpath N ((hadmits N).mpr rfl)
      simp [or_and_right, exists_or, hne]
  · simp only [← h.layout.admits_iff] at hnone
    rw [hwrite]
    -- nothing is written, and the path is added to those that failed
    refine ⟨h.layout, fun place => h.get?_concat (hnone place) rfl, fun path => ?_, ?_⟩
    · rw [List.map_append, List.mem_append, h.mem_paths_iff]
      constructor
      · rintro (⟨⟨b, hb, rfl⟩, hpath⟩ | hpath)
        · exact ⟨⟨b, List.mem_append_left _ hb, rfl⟩, hpath⟩
        · obtain rfl : path = a.path := by simpa using hpath
          exact ⟨⟨a, by simp, rfl⟩, hnone⟩
      · rintro ⟨⟨b, hb, rfl⟩, hpath⟩
        rcases List.mem_append.mp hb with hb | hb
        · exact .inl ⟨⟨b, hb, rfl⟩, hpath⟩
        · rw [List.mem_singleton.mp hb]
          exact .inr (by simp)
    · simp only [List.mem_append, List.mem_singleton]
      rintro f (hf | rfl)
      · exact h.opening f hf
      · exact ⟨rfl, rfl⟩

/-- **What is left behind** by a number of artifacts. -/
theorem written_foldl (t : FileTree) (as : List Artifact) : Written t as (as.foldl write (t, [])) := by
  induction as using List.reverseRecOn with
  | nil => exact written_nil t
  | append_singleton as a ih =>
    rw [List.foldl_append]
    exact ih.concat a

theorem Written.holds_iff {as : List Artifact} {faults : List ArtifactFault} (h : Written t as (u, faults))
    (hdistinct : ∀ a ∈ as, ∀ b ∈ as, ∀ place, t.Admits a.path place → t.Admits b.path place → a = b) {a : Artifact}
    (ha : a ∈ as) : u.Holds a.path a.content ↔ ∃ place, t.Admits a.path place := by
  constructor
  · rintro ⟨place, hfind⟩
    exact ⟨place, h.layout.admits_iff.mpr (find_eq_file_iff.mp hfind).1⟩
  · rintro ⟨place, hplace⟩
    refine ⟨place, find_eq_file_iff.mpr ⟨h.layout.admits hplace, ?_⟩⟩
    obtain ⟨b, hb, hbplace, hget⟩ | ⟨hnone, -⟩ := h.get? place
    · rwa [hdistinct a ha b hb place hplace hbplace]
    · exact absurd hplace (hnone a ha)

theorem Written.faults_eq_nil_iff {as : List Artifact} {faults : List ArtifactFault} (h : Written t as (u, faults)) :
    faults = [] ↔ ∀ a ∈ as, ∃ place, t.Admits a.path place := by
  have hpaths : faults = [] ↔ ∀ path, path ∉ faults.map (·.path) := by
    rw [← List.eq_nil_iff_forall_not_mem, List.map_eq_nil_iff]
  rw [hpaths]
  simp only [h.mem_paths_iff, not_and, not_forall, not_not, forall_exists_index, and_imp]
  exact ⟨fun hall a ha => hall a.path a ha rfl, fun hall path a ha heq => heq ▸ hall a ha⟩

/-- What is reported for a path at which no file could be created. -/
def refused (failed : Bytes × Refusal) : Bytes :=
  lit "creating " ++ failed.1 ++ lit ": open " ++ failed.1 ++ lit ": " ++ failed.2.message

theorem Written.message_eq {as : List Artifact} {faults : List ArtifactFault} (h : Written t as (u, faults)) :
    (Fault.artifacts faults).message =
      [newline].intercalate ((faults.map fun f => (f.path, f.fault.refusal)).map refused) := by
  rw [Fault.message, List.map_map]
  congr 1
  refine List.map_congr_left fun f hf => ?_
  obtain ⟨hoperation, hpath⟩ := h.opening f hf
  have hopen : lit ": open " = lit ": " ++ lit "open" ++ lit " " := by decide
  simp only [ArtifactFault.message, FileFault.message, hoperation, hpath, Function.comp_apply, refused, hopen,
    List.append_assoc]

/-! ### The artifacts of a run -/

/-- The artifacts that a run has to leave behind. -/
inductive Due (names : OutputNames) (results : List Result) (bom : Option Bom) : Artifact → Prop where
  | table : Due names results bom ⟨Path.join names.dir names.table, Table.write results⟩
  | narrative : Due names results bom ⟨Path.join names.dir names.narrative, Narrative.write results⟩
  | bom {b : Bom} (hbom : bom = some b) (hname : names.bom ≠ []) :
      Due names results bom ⟨Path.join names.dir names.bom, b.write⟩

theorem mem_ofResults_iff {a : Artifact} : a ∈ ofResults names results bom ↔ Due names results bom a := by
  unfold ofResults
  constructor
  · intro ha
    rcases List.mem_append.mp ha with ha | ha
    · simp only [List.mem_cons, List.not_mem_nil, or_false] at ha
      obtain rfl | rfl := ha
      · exact .table
      · exact .narrative
    · cases bom with
      | none => cases ha
      | some b =>
        dsimp only at ha
        split_ifs at ha with hempty
        · cases ha
        · rw [List.mem_singleton.mp ha]
          exact .bom rfl (by simpa using hempty)
  · rintro (_ | _ | ⟨rfl, hname⟩)
    · simp
    · simp
    · simp [hname]

theorem writeAll_of_made (h : t.makeDirectories names.dir = (made, none)) (results : List Result) (bom : Option Bom) :
    ∃ faults, Written made (ofResults names results bom) ((writeAll names results bom t).1, faults) ∧
      (writeAll names results bom t).2 = if faults = [] then none else some (.artifacts faults) := by
  have hwritten := written_foldl made (ofResults names results bom)
  unfold writeAll
  rw [h]
  dsimp only
  revert hwritten
  generalize (ofResults names results bom).foldl write (made, []) = done
  intro hwritten
  obtain ⟨v, faults⟩ := done
  refine ⟨faults, ?_⟩
  cases faults with
  | nil => exact ⟨hwritten, rfl⟩
  | cons f faults => exact ⟨hwritten, rfl⟩

theorem writeAll_of_unmade {fault : FileFault} (h : t.makeDirectories names.dir = (made, some fault))
    (results : List Result) (bom : Option Bom) :
    writeAll names results bom t = (made, some (.during (lit "creating output directory") (.file fault))) := by
  rw [writeAll, h]

/-- Everything outside the places of the artifacts is as it was, new directories apart. -/
theorem get?_writeAll {unmade : Option FileFault} (h : t.makeDirectories names.dir = (made, unmade))
    (results : List Result) (bom : Option Bom) (place : Location)
    (hplace : unmade = none → ∀ a, Due names results bom a → ¬ made.Admits a.path place) :
    (writeAll names results bom t).1.get? place = t.get? place ∨
      t.get? place = none ∧ (writeAll names results bom t).1.get? place = some .directory := by
  have hgrows := (t.grows_univ_makeDirectories names.dir).get? place
  rw [h] at hgrows
  have hget : (writeAll names results bom t).1.get? place = made.get? place := by
    cases unmade with
    | some fault => rw [writeAll_of_unmade h]
    | none =>
      obtain ⟨faults, hwritten, -⟩ := writeAll_of_made h results bom
      obtain ⟨a, ha, haplace, -⟩ | ⟨-, hget⟩ := hwritten.get? place
      · exact absurd haplace (hplace rfl a (mem_ofResults_iff.mp ha))
      · exact hget
  rw [hget]
  exact hgrows.imp_right And.right

/-- A tree with a directory in the place of the table, and with an older narrative. -/
def blocked : FileTree where
  entries := [([lit "outputs"], .directory), ([lit "outputs", lit "result.csv"], .directory),
    ([lit "outputs", lit "result.txt"], .file (lit "old")), ([lit "notes"], .file (lit "kept"))]

/-- The usual names, with a bill of materials in a directory that is not there. -/
def astray : OutputNames where
  bom := lit "missing/result.cdx.json"

/-- A bill of materials without entries. -/
def emptyBom : Bom where
  serial := []
  timestamp := ⟨0⟩

end Artifact

end CrateAudit
