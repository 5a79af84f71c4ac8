import CrateAudit.Config.Schema
import CrateAudit.Proofs.Bytes.Decimal
import CrateAudit.Proofs.Bytes.Utf8
import Mathlib.Data.List.Find
import Mathlib.Data.List.Induction
import Mathlib.Data.List.Nodup

/-!
# The details of issues

Of all issues with the same key only the first one is shown (`mem_details_iff`). The key is a text, made of the place
and the path, and both can be read from it if no file has a colon in its name (`key_eq_iff`). So every issue is shown by
a detail with its place and path (`exists_mem_details`), every detail shows an issue (`exists_of_mem_details`), and
there are no two details with the same place and path (`eq_of_mem_details`): no issue is lost (`details_lossless`).
Issues about different paths do not get in each other's way (`mem_details_flatMap_iff`).

The path of an issue can be told from its text if it is made of plain names (`joined_inj`).
-/

namespace CrateAudit.Config

open Bytes

variable {issues others : List Issue} {d d' : Detail}

/-! ### Keys -/

/-- A detail has the same place and path as another one. -/
def Detail.Covers (d e : Detail) : Prop := d.position = e.position ∧ d.path = e.path

theorem Detail.Covers.key_eq (h : d.Covers d') : d.key = d'.key := by
  rw [Detail.key, h.1, h.2, Detail.key]

/-- Place and path can be read from a key, if no file has a colon in its name. -/
theorem key_eq_iff (hd : 0x3a ∉ d.position.file) (hd' : 0x3a ∉ d'.position.file) : d.key = d'.key ↔ d.Covers d' := by
  have hkey (d : Detail) : d.key = d.position.file ++
      0x3a :: (integer d.position.line ++ 0x3a :: (integer d.position.column ++ 0x3a :: d.path)) := by
    simp only [Detail.key, show lit ":" = [0x3a] from rfl, List.append_assoc, List.cons_append, List.nil_append]
  have hinteger (i : Int) : 0x3a ∉ integer i := not_mem_integer (by decide) (by decide) i
  constructor
  · intro h
    rw [hkey, hkey, append_cons_inj_of_not_mem_front hd hd',
      append_cons_inj_of_not_mem_front (hinteger _) (hinteger _),
      append_cons_inj_of_not_mem_front (hinteger _) (hinteger _)] at h
    obtain ⟨hfile, hline, hcolumn, hpath⟩ := h
    exact ⟨Position.ext hfile (integer_injective hline) (integer_injective hcolumn), hpath⟩
  · exact Detail.Covers.key_eq

/-- No file that is involved has a colon in its name. -/
def Issue.NoColon (i : Issue) : Prop := ∀ p ∈ i.positions, 0x3a ∉ p.file

theorem Issue.NoColon.position {i : Issue} (h : i.NoColon) : 0x3a ∉ i.detail.position.file := by
  show 0x3a ∉ i.position.file
  unfold Issue.position
  cases hfind : i.positions.find? (!·.file.isEmpty) with
  | none => exact List.not_mem_nil
  | some p => exact h p (List.mem_of_find?_eq_some hfind)

theorem Issue.NoColon.key_eq_iff {i j : Issue} (hi : i.NoColon) (hj : j.NoColon) :
    i.detail.key = j.detail.key ↔ i.detail.Covers j.detail :=
  Config.key_eq_iff hi.position hj.position

/-! ### Issues that are shown -/

theorem details_concat (issues : List Issue) (i : Issue) :
    details (issues ++ [i]) = addDetail (details issues) i.detail := by
  simp [details]

theorem addDetail_cases (ds : List Detail) (d : Detail) :
    (∃ e ∈ ds, e.key = d.key) ∧ addDetail ds d = ds ∨ (∀ e ∈ ds, e.key ≠ d.key) ∧ addDetail ds d = ds ++ [d] := by
  have hany : ds.any (·.key = d.key) = true ↔ ∃ e ∈ ds, e.key = d.key := by simp
  by_cases h : ∃ e ∈ ds, e.key = d.key
  · exact .inl ⟨h, if_pos (hany.mpr h)⟩
  · exact .inr ⟨fun e he hkey => h ⟨e, he, hkey⟩, if_neg (hany.not.mpr h)⟩

/-- There is a first issue with a key. -/
theorem exists_first {i : Issue} (h : i ∈ issues) :
    ∃ first, issues.find? (·.detail.key = i.detail.key) = some first ∧ first.detail.key = i.detail.key := by
  have hsome : (issues.find? (·.detail.key = i.detail.key)).isSome := List.find?_isSome.mpr ⟨i, h, by simp⟩
  obtain ⟨first, hfirst⟩ := Option.isSome_iff_exists.mp hsome
  exact ⟨first, hfirst, by simpa using List.find?_some hfirst⟩

/-- **Details** show the first issues with their keys. -/
theorem mem_details_iff : d ∈ details issues ↔
    ∃ i, issues.find? (·.detail.key = d.key) = some i ∧ i.detail = d := by
  induction issues using List.reverseRecOn generalizing d with
  | nil => simp [details]
  | append_singleton issues i ih =>
    -- the last issue counts only if there was none with its key
    have hlast : (∃ j, (issues ++ [i]).find? (·.detail.key = d.key) = some j ∧ j.detail = d) ↔
        d ∈ details issues ∨ issues.find? (·.detail.key = d.key) = none ∧ i.detail = d := by
      rw [ih, List.find?_append]
      cases issues.find? (·.detail.key = d.key) with
      | some j => simp
      | none =>
        simp only [Option.none_or, reduceCtorEq, false_and, exists_false, false_or, true_and]
        constructor
        · rintro ⟨j, hj, rfl⟩
          rw [List.mem_singleton.mp (List.mem_of_find?_eq_some hj)]
        · rintro rfl
          exact ⟨i, by simp, rfl⟩
    rw [hlast, details_concat]
    obtain ⟨⟨e, he, hkey⟩, heq⟩ | ⟨hnew, heq⟩ := addDetail_cases (details issues) i.detail
    · rw [heq, iff_self_or]
      rintro ⟨hnone, rfl⟩
      obtain ⟨j, hj, -⟩ := ih.mp he
      rw [hkey, hnone] at hj
      contradiction
    · rw [heq, List.mem_append, List.mem_singleton]
      refine or_congr_right ⟨?_, fun h => h.2.symm⟩
      rintro rfl
      refine ⟨List.find?_eq_none.mpr fun j hj hkey => ?_, rfl⟩
      obtain ⟨first, hfirst, hfirstKey⟩ := exists_first hj
      exact hnew _ (ih.mpr ⟨first, by rw [hfirstKey, hfirst], rfl⟩) (hfirstKey.trans (of_decide_eq_true hkey))

/-- Every detail shows an issue. -/
theorem exists_of_mem_details (h : d ∈ details issues) : ∃ i ∈ issues, i.detail = d := by
  obtain ⟨i, hi, hd⟩ := mem_details_iff.mp h
  exact ⟨i, List.mem_of_find?_eq_some hi, hd⟩

/-- The first issue with a key is shown. -/
theorem exists_first_mem_details {i : Issue} (h : i ∈ issues) :
    ∃ first, issues.find? (·.detail.key = i.detail.key) = some first ∧ first.detail ∈ details issues ∧
      first.detail.key = i.detail.key := by
  obtain ⟨first, hfirst, hkey⟩ := exists_first h
  exact ⟨first, hfirst, mem_details_iff.mpr ⟨first, by rw [hkey, hfirst], rfl⟩, hkey⟩

/-- Every issue is shown by a detail with its place and path. -/
theorem exists_mem_details (hissues : ∀ i ∈ issues, i.NoColon) {i : Issue} (h : i ∈ issues) :
    ∃ d ∈ details issues, d.Covers i.detail := by
  obtain ⟨first, hfirst, hmem, hkey⟩ := exists_first_mem_details h
  have hcolon := hissues first (List.mem_of_find?_eq_some hfirst)
  exact ⟨first.detail, hmem, (hcolon.key_eq_iff (hissues i h)).mp hkey⟩

/-- Place and path tell the details from each other. -/
theorem eq_of_mem_details (h : d ∈ details issues) (h' : d' ∈ details issues) (hcovers : d.Covers d') : d = d' := by
  obtain ⟨i, hi, rfl⟩ := mem_details_iff.mp h
  obtain ⟨j, hj, rfl⟩ := mem_details_iff.mp h'
  rw [hcovers.key_eq, hj] at hi
  rw [Option.some.inj hi]

/-- The first issue is shown. -/
theorem detail_mem_details_cons (i : Issue) (issues : List Issue) : i.detail ∈ details (i :: issues) :=
  mem_details_iff.mpr ⟨i, List.find?_cons_of_pos (decide_eq_true rfl), rfl⟩

theorem path_detail (i : Issue) : i.detail.path = i.fieldPath := rfl

/-- The paths that are shown are those of the issues. -/
theorem exists_path_details_iff (hissues : ∀ i ∈ issues, i.NoColon) {path : Bytes} :
    (∃ d ∈ details issues, d.path = path) ↔ ∃ i ∈ issues, i.fieldPath = path := by
  constructor
  · rintro ⟨d, hd, rfl⟩
    obtain ⟨i, hi, rfl⟩ := exists_of_mem_details hd
    exact ⟨i, hi, rfl⟩
  · rintro ⟨i, hi, rfl⟩
    obtain ⟨d, hd, hcovers⟩ := exists_mem_details hissues hi
    exact ⟨d, hd, hcovers.2⟩

/-- Issues with different keys are shown side by side. -/
theorem mem_details_append_iff (h : ∀ i ∈ issues, ∀ j ∈ others, i.detail.key ≠ j.detail.key) :
    d ∈ details (issues ++ others) ↔ d ∈ details issues ∨ d ∈ details others := by
  rw [mem_details_iff, mem_details_iff, mem_details_iff, List.find?_append]
  cases hfind : issues.find? (·.detail.key = d.key) with
  | none => simp
  | some i =>
    have hnone : others.find? (·.detail.key = d.key) = none := by
      refine List.find?_eq_none.mpr fun j hj hkey => ?_
      have hi : i.detail.key = d.key := by simpa using List.find?_some hfind
      exact h i (List.mem_of_find?_eq_some hfind) j hj (hi.trans (of_decide_eq_true hkey).symm)
    simp [hnone]

theorem mem_details_flatMap_iff {α : Type} {l : List α} {f : α → List Issue}
    (h : l.Pairwise fun a b => ∀ i ∈ f a, ∀ j ∈ f b, i.detail.key ≠ j.detail.key) :
    d ∈ details (l.flatMap f) ↔ ∃ a ∈ l, d ∈ details (f a) := by
  induction l with
  | nil => simp [details]
  | cons a l ih =>
    obtain ⟨hhead, htail⟩ := List.pairwise_cons.mp h
    have hdisjoint : ∀ i ∈ f a, ∀ j ∈ l.flatMap f, i.detail.key ≠ j.detail.key := by
      intro i hi j hj
      obtain ⟨b, hb, hj⟩ := List.mem_flatMap.mp hj
      exact hhead b hb i hi j hj
    rw [List.flatMap_cons, mem_details_append_iff hdisjoint, ih htail]
    simp

/-! ### Paths -/

/-- The text of a path. -/
def joined (path : List Bytes) : Bytes := (lit ".").intercalate path

/-- Paths of names without dots, none of which starts like a definition. -/
structure Plain (path : List Bytes) : Prop where
  ne_nil : path ≠ []
  dot_not_mem : ∀ name ∈ path, 0x2e ∉ name
  head_ne : ∀ name ∈ path, name.head? ≠ some 0x23

theorem joined_inj {path path' : List Bytes} (h : Plain path) (h' : Plain path') :
    joined path = joined path' ↔ path = path' := by
  constructor
  · intro heq
    rw [← List.splitOn_intercalate 0x2e h.dot_not_mem h.ne_nil,
      ← List.splitOn_intercalate 0x2e h'.dot_not_mem h'.ne_nil]
    exact congrArg (List.splitOn 0x2e) heq
  · rintro rfl
    rfl

theorem fieldPath_eq {i : Issue} (h : ∀ name ∈ i.path.head?, name.head? ≠ some 0x23) :
    i.fieldPath = joined i.path := by
  rw [Issue.fieldPath, if_neg, joined]
  cases hname : i.path.head? with
  | none => exact Bool.false_ne_true
  | some name => simpa using h name hname

/-! ### All issues, in order -/

/-- The text of the path of a field, which has no definition in front. -/
inductive TellsPath : List Bytes → Bytes → Prop
  | plain {path : List Bytes} (h : ∀ name ∈ path.head?, name.head? ≠ some 0x23) : TellsPath path (joined path)
  | definition {name : Bytes} {path : List Bytes} (h : name.head? = some 0x23) : TellsPath (name :: path) (joined path)

/-- The first place in a file, or no place at all. -/
inductive TellsPlace : List Position → Position → Prop
  | nowhere : TellsPlace [] {}
  | here {p : Position} (ps : List Position) (h : p.file ≠ []) : TellsPlace (p :: ps) p
  | later {p q : Position} {ps : List Position} (h : p.file = []) (hps : TellsPlace ps q) : TellsPlace (p :: ps) q

/-- The path of the field and the place that an issue is about. -/
def Issue.subject (i : Issue) : Bytes × Position := (i.fieldPath, i.position)

theorem Issue.tellsPath_subject (i : Issue) : TellsPath i.path i.subject.1 := by
  by_cases h : ∀ name ∈ i.path.head?, name.head? ≠ some 0x23
  · rw [subject, fieldPath_eq h]
    exact .plain h
  · push Not at h
    obtain ⟨name, hname, hhead⟩ := h
    obtain ⟨path, hpath⟩ := List.head?_eq_some_iff.mp hname
    have hfieldPath : i.fieldPath = joined path := by
      rw [fieldPath, hpath, joined, if_pos (by simp [hhead])]
      rfl
    rw [subject, hfieldPath, hpath]
    exact .definition hhead

theorem Issue.tellsPlace_subject (i : Issue) : TellsPlace i.positions i.subject.2 := by
  show TellsPlace i.positions ((i.positions.find? (!·.file.isEmpty)).getD {})
  induction i.positions with
  | nil => exact .nowhere
  | cons p ps ih =>
    by_cases hp : p.file = []
    · rw [List.find?_cons_of_neg (by simp [hp])]
      exact .later hp ih
    · rw [List.find?_cons_of_pos (by simpa using hp)]
      exact .here ps hp

/-- The path of the field and the place that a detail tells of. -/
def Detail.subject (d : Detail) : Bytes × Position := (d.path, d.position)

theorem Issue.NoColon.subject_eq_iff {i j : Issue} (hi : i.NoColon) (hj : j.NoColon) :
    i.subject = j.subject ↔ i.detail.key = j.detail.key := by
  rw [hi.key_eq_iff hj, Detail.Covers, and_comm, Issue.subject, Issue.subject, Prod.mk.injEq]
  rfl

/-- The details are about the subjects of the issues, in the order in which these are first mentioned. -/
theorem map_subject_details (h : ∀ i ∈ issues, i.NoColon) :
    (details issues).map Detail.subject = (issues.map Issue.subject).eraseDups := by
  induction issues using List.reverseRecOn with
  | nil => rfl
  | append_singleton issues i ih =>
    obtain ⟨hissues, hi⟩ := List.forall_mem_append.mp h
    have hi := hi i List.mem_cons_self
    rw [details_concat, List.map_append, List.map_singleton, List.eraseDups_append, ← ih hissues]
    obtain ⟨⟨e, he, hkey⟩, heq⟩ | ⟨hnew, heq⟩ := addDetail_cases (details issues) i.detail
    · obtain ⟨j, hj, rfl⟩ := exists_of_mem_details he
      have hmem : i.subject ∈ issues.map Issue.subject :=
        List.mem_map.mpr ⟨j, hj, ((hissues j hj).subject_eq_iff hi).mpr hkey⟩
      rw [heq, List.removeAll, List.filter_cons_of_neg (by simpa using hmem), List.filter_nil]
      exact (List.append_nil _).symm
    · have hnotMem : i.subject ∉ issues.map Issue.subject := by
        intro hmem
        obtain ⟨j, hj, hsubject⟩ := List.mem_map.mp hmem
        obtain ⟨first, -, hfirst, hkey⟩ := exists_first_mem_details hj
        exact hnew _ hfirst (hkey.trans (((hissues j hj).subject_eq_iff hi).mp hsubject))
      rw [heq, List.map_append, List.removeAll, List.filter_cons_of_pos (by simpa using hnotMem), List.filter_nil]
      rfl

theorem nodup_map_subject_details (issues : List Issue) : ((details issues).map Detail.subject).Nodup := by
  have hkeys : ((details issues).map Detail.key).Nodup := by
    induction issues using List.reverseRecOn with
    | nil => exact List.nodup_nil
    | append_singleton issues i ih =>
      rw [details_concat]
      obtain ⟨-, heq⟩ | ⟨hnew, heq⟩ := addDetail_cases (details issues) i.detail
      · rwa [heq]
      · rw [heq, List.map_append]
        refine ih.append (List.nodup_singleton _) (List.disjoint_singleton.mpr ?_)
        simpa using hnew
  -- the key is made of the subject alone
  refine List.Nodup.of_map (fun s => (⟨s.1, [], [], s.2, []⟩ : Detail).key) ?_
  rwa [List.map_map]

/-- **No issue is lost**, as long as no file has a colon in its name. The details are about the paths and places of the
issues, each of them once, in the order in which they are first mentioned. And the only detail with the path and the
place of an issue tells the message of the first issue with this path and place. -/
theorem details_lossless (h : ∀ i ∈ issues, i.NoColon) :
    (∀ i ∈ issues, TellsPath i.path i.subject.1 ∧ TellsPlace i.positions i.subject.2) ∧
      (details issues).map Detail.subject = (issues.map Issue.subject).eraseDups ∧
      ((details issues).map Detail.subject).Nodup ∧
      ∀ i ∈ issues, ∃ first, issues.find? (·.subject = i.subject) = some first ∧
        ∀ d, d ∈ details issues ∧ d.subject = i.subject ↔ d.path = i.subject.1 ∧ d.position = i.subject.2 ∧
          (d.code, d.message) = Issue.classify first.message i.subject.1 ∧ d.raw = first.message := by
  refine ⟨fun i _ => ⟨i.tellsPath_subject, i.tellsPlace_subject⟩, map_subject_details h,
    nodup_map_subject_details issues, fun i hi => ?_⟩
  obtain ⟨first, hfirst, hmem, hkey⟩ := exists_first_mem_details hi
  have hsubject := ((h first (List.mem_of_find?_eq_some hfirst)).subject_eq_iff (h i hi)).mpr hkey
  refine ⟨first, ?_, fun d => ?_⟩
  · rw [← hfirst]
    exact List.find?_congr fun j hj => decide_eq_decide.mpr ((h j hj).subject_eq_iff (h i hi))
  · rw [← hsubject]
    trans d = first.detail
    · constructor
      · rintro ⟨hd, hsame⟩
        exact eq_of_mem_details hd hmem ⟨congrArg Prod.snd hsame, congrArg Prod.fst hsame⟩
      · rintro rfl
        exact ⟨hmem, rfl⟩
    · rw [Detail.ext_iff, Prod.ext_iff]
      constructor
      · rintro ⟨hpath, hcode, hmessage, hposition, hraw⟩
        exact ⟨hpath, hposition, ⟨hcode, hmessage⟩, hraw⟩
      · rintro ⟨hpath, hposition, ⟨hcode, hmessage⟩, hraw⟩
        exact ⟨hpath, hcode, hmessage, hposition, hraw⟩

/-- Issues about two fields, one of which has a name with colons and numbers; those about the other one have the same
place once, and once none. -/
def entangled : List Issue :=
  [⟨lit "conflicting values", [lit "#Config", lit "a"], [{}, ⟨fileName, 1, 2⟩]⟩,
   ⟨lit "field not allowed", [lit "2:a"], [⟨fileName, 1, 1⟩]⟩,
   ⟨lit "incomplete value", [lit "a"], []⟩,
   ⟨lit "out of bound", [lit "a"], [⟨fileName, 1, 2⟩]⟩]

theorem details_lossless_entangled :
    (∀ i ∈ entangled, i.NoColon) ∧
      (∀ i ∈ entangled, TellsPath i.path i.subject.1 ∧ TellsPlace i.positions i.subject.2) ∧
      (details entangled).map Detail.subject = (entangled.map Issue.subject).eraseDups ∧
      ((details entangled).map Detail.subject).Nodup ∧
      ∀ i ∈ entangled, ∃ first, entangled.find? (·.subject = i.subject) = some first ∧
        ∀ d, d ∈ details entangled ∧ d.subject = i.subject ↔ d.path = i.subject.1 ∧ d.position = i.subject.2 ∧
          (d.code, d.message) = Issue.classify first.message i.subject.1 ∧ d.raw = first.message := by
  have hfile : 0x3a ∉ fileName := by decide
  have h : ∀ i ∈ entangled, i.NoColon := by simp [entangled, Issue.NoColon, hfile]
  exact ⟨h, details_lossless h⟩

end CrateAudit.Config
