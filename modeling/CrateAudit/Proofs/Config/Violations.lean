import CrateAudit.Proofs.Config.Details
import CrateAudit.Proofs.Config.Overlay
import Mathlib.Data.List.Nodup

/-!
# Violations of the schema

The values of a document that violate the schema are found by the names that lead to them (`Violates`). Documents with
violations are refused, and what is shown then tells them: the paths are those of the violations
(`exists_path_draft_iff`), and a path is shown with conflicting values exactly if a violation there has a place
(`exists_conflict_draft_iff`). Without violations there is nothing to object to values (`conflicts_draft_eq_nil_iff`).
-/

namespace CrateAudit.Config

open Bytes Yaml

variable {fields : List (Label × Tree)}

/-! ### What is shown of an objection -/

theorem code_conflict (path : List Bytes) (t : Tree) : (conflict path t).detail.code = lit "conflicting_values" := rfl

theorem code_noAlternative (path : List Bytes) : (noAlternative path).detail.code = lit "validation_error" := rfl

theorem place_ne_default (mark : Mark) : place mark ≠ {} := by
  intro h
  have hfile : fileName = [] := congrArg Position.file h
  exact absurd hfile (by decide)

/-- An objection has a place exactly if the value has one. -/
theorem position_conflict_eq_iff {path : List Bytes} {t : Tree} :
    (conflict path t).detail.position = {} ↔ places t = [] := by
  rcases t with ⟨mark, _⟩ | ⟨mark, _⟩ | ⟨mark, _ | _⟩
  · exact iff_of_false (place_ne_default mark) (List.cons_ne_nil _ _)
  · exact iff_of_false (place_ne_default mark) (List.cons_ne_nil _ _)
  · exact iff_of_false (place_ne_default mark) (List.cons_ne_nil _ _)
  · exact iff_of_true rfl rfl

theorem fieldPath_conflict {path : List Bytes} (h : Plain path) (t : Tree) :
    (conflict path t).fieldPath = joined path :=
  fieldPath_eq fun name hname => h.head_ne name (List.mem_of_mem_head? hname)

theorem fieldPath_noAlternative {path : List Bytes} (h : Plain path) : (noAlternative path).fieldPath = joined path :=
  fieldPath_eq fun name hname => h.head_ne name (List.mem_of_mem_head? hname)

section Accusations

variable {path : List Bytes} {alternative : Bool} {culprits : List (List Bytes × Tree)}

theorem mem_accusations_iff {i : Issue} : i ∈ accusations path alternative culprits ↔
    (alternative = true ∧ i = noAlternative path) ∨ ∃ c ∈ culprits, i = conflict c.1 c.2 := by
  cases alternative <;> simp [accusations, eq_comm]

/-- The place of a mark is in a file without a colon in its name. -/
theorem colon_not_mem_place (mark : Mark) : 0x3a ∉ (place mark).file := by
  show 0x3a ∉ fileName
  decide

theorem noColon_conflict (path : List Bytes) (t : Tree) : (conflict path t).NoColon := by
  intro p hp
  obtain ⟨mark, rfl⟩ : ∃ mark, p = place mark := by
    rcases t with ⟨mark, _⟩ | ⟨mark, _⟩ | ⟨mark, _ | _⟩ <;> simp_all [conflict, places]
  exact colon_not_mem_place mark

theorem noColon_accusations : ∀ i ∈ accusations path alternative culprits, i.NoColon := by
  intro i hi
  obtain ⟨-, rfl⟩ | ⟨c, -, rfl⟩ := mem_accusations_iff.mp hi
  · exact fun p hp => absurd hp List.not_mem_nil
  · exact noColon_conflict c.1 c.2

/-- The paths of the values to blame are shown, and no others. -/
theorem exists_path_accusations_iff (hpath : Plain path) (hplain : ∀ c ∈ culprits, Plain c.1)
    (hne : alternative → culprits ≠ []) (halternative : alternative → ∀ c ∈ culprits, c.1 = path) {text : Bytes} :
    (∃ d ∈ details (accusations path alternative culprits), d.path = text) ↔
      ∃ c ∈ culprits, joined c.1 = text := by
  simp only [exists_path_details_iff noColon_accusations, mem_accusations_iff]
  constructor
  · rintro ⟨i, ⟨halt, rfl⟩ | ⟨c, hc, rfl⟩, rfl⟩
    · obtain ⟨c, hc⟩ := List.exists_mem_of_ne_nil culprits (hne halt)
      exact ⟨c, hc, by rw [halternative halt c hc, fieldPath_noAlternative hpath]⟩
    · exact ⟨c, hc, (fieldPath_conflict (hplain c hc) c.2).symm⟩
  · rintro ⟨c, hc, rfl⟩
    exact ⟨_, .inr ⟨c, hc, rfl⟩, fieldPath_conflict (hplain c hc) c.2⟩

/-- A value to blame is shown as a conflict, unless it has no place and fails both the default and the rule. -/
theorem exists_conflict_accusations_iff (hpath : Plain path) (hplain : ∀ c ∈ culprits, Plain c.1)
    (halternative : alternative → ∀ c ∈ culprits, c.1 = path) {text : Bytes} :
    (∃ d ∈ details (accusations path alternative culprits), d.path = text ∧ d.code = lit "conflicting_values") ↔
      ∃ c ∈ culprits, joined c.1 = text ∧ (alternative → places c.2 ≠ []) := by
  constructor
  · rintro ⟨d, hd, rfl, hcode⟩
    obtain ⟨i, hi, rfl⟩ := exists_of_mem_details hd
    obtain ⟨-, rfl⟩ | ⟨c, hc, rfl⟩ := mem_accusations_iff.mp hi
    · rw [code_noAlternative] at hcode
      exact absurd hcode (by decide)
    · refine ⟨c, hc, (fieldPath_conflict (hplain c hc) c.2).symm, ?_⟩
      rintro rfl hplaces
      -- without a place, the objection has been shown as the one to the field as a whole
      have hfirst : (noAlternative path).detail ∈ details (accusations path true culprits) :=
        detail_mem_details_cons _ _
      have hcovers : (noAlternative path).detail.Covers (conflict c.1 c.2).detail := by
        refine ⟨(position_conflict_eq_iff.mpr hplaces).symm, ?_⟩
        rw [path_detail, path_detail, fieldPath_noAlternative hpath, fieldPath_conflict (hplain c hc),
          halternative rfl c hc]
      have heq := eq_of_mem_details hfirst hd hcovers
      rw [← heq, code_noAlternative] at hcode
      exact absurd hcode (by decide)
  · rintro ⟨c, hc, rfl, hplaced⟩
    obtain ⟨d, hd, hposition, hd'⟩ :=
      exists_mem_details noColon_accusations (mem_accusations_iff.mpr (.inr ⟨c, hc, rfl⟩))
    refine ⟨d, hd, hd'.trans (fieldPath_conflict (hplain c hc) c.2), ?_⟩
    obtain ⟨i, hi, rfl⟩ := exists_of_mem_details hd
    obtain ⟨halt, rfl⟩ | ⟨c', -, rfl⟩ := mem_accusations_iff.mp hi
    · exact absurd (position_conflict_eq_iff.mp hposition.symm) (hplaced halt)
    · exact code_conflict _ _

end Accusations

/-! ### Values that violate the schema -/

/-- Nothing but records is given for a section. -/
def Section.Sound (fields : List (Label × Tree)) (sec : Section) : Prop :=
  ∀ t, Gives fields [lit sec.name] t → ∃ m inner, t = .record m inner

/-- **Violations**: values given for a section that are no records, and values to blame of a setting whose section is
sound, each with the names that lead to it. -/
inductive Violates (fields : List (Label × Tree)) : Field → List Bytes → Tree → Prop
  | group {sec : Section} {t : Tree} (hgiven : Gives fields [lit sec.name] t)
      (hrecord : ∀ m inner, t ≠ .record m inner) : Violates fields (.group sec) [lit sec.name] t
  | leaf {s : Setting} {path : List Bytes} {t : Tree} (hsound : ∀ sec, s.section? = some sec → sec.Sound fields)
      (hblames : s.Blames (Gives fields s.names) path t) : Violates fields (.leaf s) path t

/-- A violation that has no place and fails both the default and the rule of its field. -/
def Field.Hides : Field → Tree → Prop
  | .group _, _ => False
  | .leaf s, t => s.Hides t

theorem Section.exists_conflicts_eq (fields : List (Label × Tree)) (sec : Section) :
    ∃ ts : List Tree, sec.conflicts fields = accusations [lit sec.name] false (ts.map fun t => ([lit sec.name], t)) ∧
      ∀ t, t ∈ ts ↔ Gives fields [lit sec.name] t ∧ ∀ m inner, t ≠ .record m inner := by
  refine ⟨_, by simp [Section.conflicts, sectionConflicts, accusations]; rfl, fun t => ?_⟩
  rw [List.mem_filter, mem_given_iff]
  rcases t with _ | _ | _ <;> simp

theorem Section.conflicts_eq_nil_iff {sec : Section} : sec.conflicts fields = [] ↔ sec.Sound fields := by
  obtain ⟨ts, heq, hts⟩ := sec.exists_conflicts_eq fields
  have hnil : sec.conflicts fields = [] ↔ ts = [] := by simp [heq, accusations]
  rw [hnil, List.eq_nil_iff_forall_not_mem]
  simp only [hts, Section.Sound]
  grind

theorem Setting.isReached_iff {s : Setting} :
    s.isReached fields = true ↔ ∀ sec, s.section? = some sec → sec.Sound fields := by
  unfold isReached
  cases s.section? with
  | none => simp
  | some sec => simp [Section.conflicts_eq_nil_iff]

theorem Setting.not_blames {s : Setting} {given : Tree → Prop} {path : List Bytes} {t : Tree} {v : Value}
    (h : ∀ t, given t → s.rule.Admits t v) : ¬s.Blames given path t := by
  intro hblames
  cases hblames with
  | value hgiven hrefused => exact hrefused v (h _ hgiven)
  | item hs hgiven hitem hrefused =>
    have hadmits := rule_of_hasItems hs ▸ h _ hgiven
    obtain ⟨v, hv⟩ := exists_admits_texts_iff.mp ⟨v, hadmits⟩ t (List.mem_of_getElem? hitem)
    exact hrefused v hv
  | divided _ _ hdivided => exact hdivided ⟨v, h⟩

/-- What there is to object to a field are its violations, as far as they have a place. -/
structure Field.Accused (fields : List (Label × Tree)) (f : Field) (alternative : Bool)
    (culprits : List (List Bytes × Tree)) : Prop where
  conflicts_eq : f.conflicts fields = accusations f.names alternative culprits
  ne_nil : alternative → culprits ≠ []
  names : alternative → ∀ c ∈ culprits, c.1 = f.names
  violates : ∀ path, (∃ t, (path, t) ∈ culprits) ↔ ∃ t, Violates fields f path t
  placed : ∀ path, (∃ t, (path, t) ∈ culprits ∧ (alternative → places t ≠ [])) ↔
    ∃ t, Violates fields f path t ∧ ¬f.Hides t

theorem Field.Accused.of_nil {f : Field} (hconflicts : f.conflicts fields = [])
    (h : ∀ path t, ¬Violates fields f path t) : f.Accused fields false [] where
  conflicts_eq := hconflicts
  ne_nil := nofun
  names := nofun
  violates path := by simp [h]
  placed path := by simp [h]

theorem violates_group_iff {sec : Section} {path : List Bytes} {t : Tree} : Violates fields (.group sec) path t ↔
    path = [lit sec.name] ∧ Gives fields [lit sec.name] t ∧ ∀ m inner, t ≠ .record m inner := by
  constructor
  · rintro ⟨hgiven, hrecord⟩
    exact ⟨rfl, hgiven, hrecord⟩
  · rintro ⟨rfl, hgiven, hrecord⟩
    exact .group hgiven hrecord

theorem violates_leaf_iff {s : Setting} {path : List Bytes} {t : Tree} : Violates fields (.leaf s) path t ↔
    s.isReached fields = true ∧ s.Blames (· ∈ s.given fields) path t := by
  have hgiven : (· ∈ s.given fields) = Gives fields s.names := funext fun t => propext Setting.mem_given_iff
  rw [Setting.isReached_iff, hgiven]
  constructor
  · rintro (_ | ⟨hsound, hblames⟩)
    exact ⟨hsound, hblames⟩
  · rintro ⟨hsound, hblames⟩
    exact .leaf hsound hblames

theorem Field.exists_accused (fields : List (Label × Tree)) (f : Field) :
    ∃ alternative culprits, f.Accused fields alternative culprits := by
  cases f with
  | group sec =>
    obtain ⟨ts, heq, hts⟩ := sec.exists_conflicts_eq fields
    have hculprits (path : List Bytes) (t : Tree) :
        (path, t) ∈ ts.map (fun t => ([lit sec.name], t)) ↔ Violates fields (.group sec) path t := by
      rw [violates_group_iff, ← hts, List.mem_map]
      constructor
      · rintro ⟨t, ht, ⟨⟩⟩
        exact ⟨rfl, ht⟩
      · rintro ⟨rfl, ht⟩
        exact ⟨t, ht, rfl⟩
    refine ⟨false, _, heq, nofun, nofun, fun path => ?_, fun path => ?_⟩
    · simp only [hculprits]
    · simp [hculprits, Field.Hides]
  | leaf s =>
    -- a setting is looked at only if its section is there as a mapping
    by_cases hreached : s.isReached fields = true
    · have hconflicts : Field.conflicts fields (.leaf s) = (s.check fields).conflicts := if_pos hreached
      have hviolates (path : List Bytes) (t : Tree) :
          Violates fields (.leaf s) path t ↔ s.Blames (· ∈ s.given fields) path t := by
        rw [violates_leaf_iff, and_iff_right hreached]
      have hverdict := s.verdict_check fields
      generalize s.check fields = checked at hconflicts hverdict
      cases hverdict with
      | absent hnone =>
        have hadmits : ∀ t, t ∈ s.given fields → s.rule.Admits t (.flag true) := by simp [hnone]
        exact ⟨_, _, .of_nil hconflicts fun path t h => Setting.not_blames hadmits ((hviolates path t).mp h)⟩
      | same _ hadmits =>
        exact ⟨_, _, .of_nil hconflicts fun path t h => Setting.not_blames hadmits ((hviolates path t).mp h)⟩
      | refused hne halternative hblames hplaced =>
        refine ⟨_, _, hconflicts, fun _ => hne, halternative, fun path => ?_, fun path => ?_⟩
        · simp only [hblames, hviolates]
        · simp only [hplaced, hviolates, Field.Hides]
    · have hconflicts : Field.conflicts fields (.leaf s) = [] := if_neg hreached
      exact ⟨_, _, .of_nil hconflicts fun path t h => hreached (violates_leaf_iff.mp h).1⟩

/-! ### Objections to different fields -/

theorem Field.plain_names (f : Field) : Plain f.names ∧ f.names.take 2 = f.names := by
  have hall : ∀ f ∈ all, f.names ≠ [] ∧ (∀ name ∈ f.names, 0x2e ∉ name) ∧
      (∀ name ∈ f.names, name.head? ≠ some 0x23) ∧ f.names.take 2 = f.names := by decide
  obtain ⟨hne, hdot, hhead, htake⟩ := hall f f.mem_all
  exact ⟨⟨hne, hdot, hhead⟩, htake⟩

theorem Field.names_injective : Function.Injective names := by
  intro f g h
  have hnodup : (all.map names).Nodup := by decide +kernel
  exact List.inj_on_of_nodup_map hnodup f.mem_all g.mem_all h

theorem Plain.item {path : List Bytes} (h : Plain path) (i : ℕ) : Plain (path ++ [decimal i]) where
  ne_nil := by simp
  dot_not_mem name hname := by
    obtain hname | hname := List.mem_append.mp hname
    · exact h.dot_not_mem name hname
    · rw [List.mem_singleton.mp hname]
      exact not_mem_decimal (by decide) i
  head_ne name hname := by
    obtain hname | hname := List.mem_append.mp hname
    · exact h.head_ne name hname
    · rw [List.mem_singleton.mp hname]
      exact fun hhead => not_mem_decimal (by decide) i (List.mem_of_mem_head? hhead)

/-- The names that lead to a violation begin with those of its field. -/
theorem Violates.take_path {f : Field} {path : List Bytes} {t : Tree} (h : Violates fields f path t) :
    Plain path ∧ path.take 2 = f.names := by
  have hfield : path = f.names → Plain path ∧ path.take 2 = f.names := by
    rintro rfl
    exact f.plain_names
  cases h with
  | group => exact hfield rfl
  | @leaf s _ _ _ hblames =>
    cases hblames with
    | value | divided => exact hfield rfl
    | item hs =>
      obtain ⟨tool, rfl⟩ : ∃ tool, s = .args tool := by cases s <;> simp_all [Setting.hasItems]
      exact ⟨(Field.plain_names (.leaf (.args tool))).1.item _, rfl⟩

theorem Field.Accused.plain {f : Field} {alternative : Bool} {culprits : List (List Bytes × Tree)}
    (h : f.Accused fields alternative culprits) : ∀ c ∈ culprits, Plain c.1 ∧ c.1.take 2 = f.names := by
  intro c hc
  obtain ⟨t, ht⟩ := (h.violates c.1).mp ⟨c.2, hc⟩
  exact ht.take_path

/-- An issue with a field has a path that begins with the names of the field. -/
theorem Field.exists_fieldPath {f : Field} {i : Issue} (hi : i ∈ f.conflicts fields) :
    ∃ path, Plain path ∧ path.take 2 = f.names ∧ i.fieldPath = joined path := by
  obtain ⟨alternative, culprits, haccused⟩ := f.exists_accused fields
  rw [haccused.conflicts_eq, mem_accusations_iff] at hi
  obtain ⟨-, rfl⟩ | ⟨c, hc, rfl⟩ := hi
  · exact ⟨f.names, f.plain_names.1, f.plain_names.2, fieldPath_noAlternative f.plain_names.1⟩
  · obtain ⟨hplain, htake⟩ := haccused.plain c hc
    exact ⟨c.1, hplain, htake, fieldPath_conflict hplain c.2⟩

theorem Field.fieldPath_ne {f g : Field} (hne : f ≠ g) {i j : Issue} (hi : i ∈ f.conflicts fields)
    (hj : j ∈ g.conflicts fields) : i.fieldPath ≠ j.fieldPath := by
  obtain ⟨path, hpath, htake, hi⟩ := exists_fieldPath hi
  obtain ⟨path', hpath', htake', hj⟩ := exists_fieldPath hj
  rw [hi, hj, ne_eq, joined_inj hpath hpath']
  rintro rfl
  exact hne (names_injective (htake.symm.trans htake'))

theorem Field.noColon_of_mem_conflicts {f : Field} : ∀ i ∈ f.conflicts fields, i.NoColon := by
  obtain ⟨alternative, culprits, haccused⟩ := f.exists_accused fields
  rw [haccused.conflicts_eq]
  exact noColon_accusations

theorem noColon_of_mem_conflicts : ∀ i ∈ (draft fields).conflicts, i.NoColon := by
  intro i hi
  rw [conflicts_draft] at hi
  obtain ⟨f, -, hi⟩ := List.mem_flatMap.mp hi
  exact Field.noColon_of_mem_conflicts i hi

theorem Field.key_ne {f g : Field} (hne : f ≠ g) {i j : Issue} (hi : i ∈ f.conflicts fields)
    (hj : j ∈ g.conflicts fields) : i.detail.key ≠ j.detail.key := by
  rw [ne_eq, (noColon_of_mem_conflicts i hi).key_eq_iff (noColon_of_mem_conflicts j hj)]
  exact fun hcovers => fieldPath_ne hne hi hj hcovers.2

/-- The fields of a document are objected to side by side. -/
theorem mem_details_draft_iff {d : Detail} :
    d ∈ details (draft fields).conflicts ↔ ∃ f : Field, d ∈ details (f.conflicts fields) := by
  have hnodup : Field.all.Nodup := by decide
  rw [conflicts_draft, mem_details_flatMap_iff (hnodup.imp fun hne _ hi _ hj => Field.key_ne hne hi hj)]
  simp [Field.mem_all]

theorem exists_mem_details_draft_iff {p : Detail → Prop} :
    (∃ d ∈ details (draft fields).conflicts, p d) ↔ ∃ f : Field, ∃ d ∈ details (f.conflicts fields), p d := by
  constructor
  · rintro ⟨d, hd, hp⟩
    obtain ⟨f, hd⟩ := mem_details_draft_iff.mp hd
    exact ⟨f, d, hd, hp⟩
  · rintro ⟨f, d, hd, hp⟩
    exact ⟨d, mem_details_draft_iff.mpr ⟨f, hd⟩, hp⟩

theorem Field.exists_path_iff (f : Field) {text : Bytes} : (∃ d ∈ details (f.conflicts fields), d.path = text) ↔
    ∃ path t, Violates fields f path t ∧ joined path = text := by
  obtain ⟨alternative, culprits, haccused⟩ := f.exists_accused fields
  rw [haccused.conflicts_eq, exists_path_accusations_iff f.plain_names.1 (fun c hc => (haccused.plain c hc).1)
    haccused.ne_nil haccused.names]
  constructor
  · rintro ⟨c, hc, rfl⟩
    obtain ⟨t, ht⟩ := (haccused.violates c.1).mp ⟨c.2, hc⟩
    exact ⟨c.1, t, ht, rfl⟩
  · rintro ⟨path, t, ht, rfl⟩
    obtain ⟨t', ht'⟩ := (haccused.violates path).mpr ⟨t, ht⟩
    exact ⟨_, ht', rfl⟩

theorem Field.exists_conflict_iff (f : Field) {text : Bytes} :
    (∃ d ∈ details (f.conflicts fields), d.path = text ∧ d.code = lit "conflicting_values") ↔
      ∃ path t, Violates fields f path t ∧ ¬f.Hides t ∧ joined path = text := by
  obtain ⟨alternative, culprits, haccused⟩ := f.exists_accused fields
  rw [haccused.conflicts_eq, exists_conflict_accusations_iff f.plain_names.1 (fun c hc => (haccused.plain c hc).1)
    haccused.names]
  constructor
  · rintro ⟨c, hc, rfl, hplaced⟩
    obtain ⟨t, ht, hshown⟩ := (haccused.placed c.1).mp ⟨c.2, hc, hplaced⟩
    exact ⟨c.1, t, ht, hshown, rfl⟩
  · rintro ⟨path, t, ht, hshown, rfl⟩
    obtain ⟨t', ht', hplaced⟩ := (haccused.placed path).mpr ⟨t, ht, hshown⟩
    exact ⟨_, ht', rfl, hplaced⟩

/-- **Paths of objections** are those of violations. -/
theorem exists_path_draft_iff {text : Bytes} : (∃ d ∈ details (draft fields).conflicts, d.path = text) ↔
    ∃ f path t, Violates fields f path t ∧ joined path = text :=
  exists_mem_details_draft_iff.trans (exists_congr fun f => f.exists_path_iff)

theorem exists_conflict_draft_iff {text : Bytes} :
    (∃ d ∈ details (draft fields).conflicts, d.path = text ∧ d.code = lit "conflicting_values") ↔
      ∃ f path t, Violates fields f path t ∧ ¬f.Hides t ∧ joined path = text :=
  exists_mem_details_draft_iff.trans (exists_congr fun f => f.exists_conflict_iff)

theorem code_ne_of_mem_details_draft {d : Detail} (hd : d ∈ details (draft fields).conflicts) :
    d.code ≠ lit "unknown_field" := by
  obtain ⟨f, hd⟩ := mem_details_draft_iff.mp hd
  obtain ⟨i, hi, rfl⟩ := exists_of_mem_details hd
  obtain ⟨alternative, culprits, haccused⟩ := f.exists_accused fields
  rw [haccused.conflicts_eq, mem_accusations_iff] at hi
  obtain ⟨-, rfl⟩ | ⟨c, -, rfl⟩ := hi
  · rw [code_noAlternative]
    decide
  · rw [code_conflict]
    decide

theorem conflicts_draft_eq_nil_iff : (draft fields).conflicts = [] ↔ ∀ f path t, ¬Violates fields f path t := by
  have hdetails : (∃ i, i ∈ (draft fields).conflicts) ↔ ∃ f path t, Violates fields f path t := by
    constructor
    · rintro ⟨i, hi⟩
      obtain ⟨f, path, t, ht, -⟩ :=
        exists_path_draft_iff.mp ((exists_path_details_iff noColon_of_mem_conflicts).mpr ⟨i, hi, rfl⟩)
      exact ⟨f, path, t, ht⟩
    · rintro ⟨f, path, t, ht⟩
      obtain ⟨i, hi, -⟩ :=
        (exists_path_details_iff noColon_of_mem_conflicts).mp (exists_path_draft_iff.mpr ⟨f, path, t, ht, rfl⟩)
      exact ⟨i, hi⟩
  rw [List.eq_nil_iff_forall_not_mem, ← not_exists, hdetails]
  push Not
  rfl

end CrateAudit.Config
