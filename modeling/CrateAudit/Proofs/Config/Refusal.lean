import CrateAudit.Proofs.Config.Violations

/-!
# Refused documents

A mapping is accepted exactly if it fits the schema (`Fits`): every key is that of a field, every section is a record,
every setting has one value that its rule admits, and the kill grace is not too long. For any other mapping a person is
told what is wrong with it (`Refusal`): the violations of the schema or, if there are none, the keys that are no fields
(`Unknown`) or, if there are none of these either, only that something is wrong.

Main result: `load_refusal`.
-/

namespace CrateAudit.Config

open Bytes Yaml

variable {env : Environment} {bs : Bytes} {m : Mark} {fields : List (Label × Tree)}

/-! ### Keys that are no fields -/

/-- The labels below some names, in their order. -/
def labels (fields : List (Label × Tree)) : List Bytes → List Label
  | [] => fields.map (·.1)
  | name :: names => fields.flatMap fun
    | (l, .record _ inner) => if l.name = name then labels inner names else []
    | _ => []

/-- The names that lead to a section, or to the root. -/
def parents : Option Section → List Bytes
  | none => []
  | some sec => [lit sec.name]

/-- **Unknown keys**: the first label of a name in a section, or at the root, where no field has that name. -/
structure Unknown (fields : List (Label × Tree)) (sec? : Option Section) (l : Label) : Prop where
  first : (labels fields (parents sec?)).find? (·.name = l.name) = some l
  strange : ∀ f : Field, f.names ≠ parents sec? ++ [l.name]

/-- The labels that are the first of their name. -/
def firsts (ls : List Label) : List Label :=
  ls.foldl (fun seen l => if seen.any (·.name = l.name) then seen else seen ++ [l]) []

theorem mem_firsts_iff {ls : List Label} {l : Label} : l ∈ firsts ls ↔ ls.find? (·.name = l.name) = some l := by
  induction ls using List.reverseRecOn generalizing l with
  | nil => simp [firsts]
  | append_singleton ls x ih =>
    have hany : (firsts ls).any (·.name = x.name) = (ls.find? (·.name = x.name)).isSome := by
      rw [Bool.eq_iff_iff, List.any_eq_true, Option.isSome_iff_exists]
      constructor
      · rintro ⟨l, hl, hname⟩
        rw [← of_decide_eq_true hname]
        exact ⟨l, ih.mp hl⟩
      · rintro ⟨l, hl⟩
        have hname := List.find?_some hl
        rw [← of_decide_eq_true hname] at hl
        exact ⟨l, ih.mpr hl, hname⟩
    have hstep : firsts (ls ++ [x]) = if (ls.find? (·.name = x.name)).isSome then firsts ls else firsts ls ++ [x] := by
      rw [← hany]
      exact List.foldl_concat ..
    rw [hstep, List.find?_append]
    by_cases hname : x.name = l.name
    · rw [← hname]
      cases hfind : ls.find? (·.name = x.name) with
      | none => simpa [ih, ← hname, hfind] using eq_comm
      | some l' => simp [ih, ← hname, hfind]
    · have hne : l ≠ x := fun heq => hname (heq ▸ rfl)
      cases hfind : ls.find? (·.name = x.name) <;> simp [ih, hname, hne]

/-- The keys of a section, or of the root, that are known. -/
def known : Option Section → List String
  | none => knownFields
  | some (.command _) => ["path", "args", "env"]
  | some .classify => ["strict"]
  | some .output => ["dir", "table", "narrative", "bom"]
  | some .service => ["verbose", "log"]

/-- The fields of a section, or of the root. -/
def entries (fields : List (Label × Tree)) : Option Section → List (Label × Tree)
  | none => fields
  | some sec => sectionFields (given fields sec.name)

theorem map_fst_entries (fields : List (Label × Tree)) (sec? : Option Section) :
    (entries fields sec?).map (·.1) = labels fields (parents sec?) := by
  cases sec? with
  | none => rfl
  | some sec =>
    simp only [entries, parents, labels, sectionFields, given]
    induction fields with
    | nil => rfl
    | cons field fields ih =>
      obtain ⟨l, t⟩ := field
      by_cases hname : l.name = lit sec.name
      · cases t <;> simp [hname, ih]
      · cases t <;> simp [hname, ih]

theorem any_known_iff {sec? : Option Section} {name : Bytes} :
    (known sec?).any (lit · = name) = true ↔ ∃ f : Field, f.names = parents sec? ++ [name] := by
  have hnames : (Field.all.map Field.names).filter (·.dropLast = parents sec?) =
      (known sec?).map fun k => parents sec? ++ [lit k] := by
    rcases sec? with _ | tool | _ | _ | _
    case some.command => cases tool <;> decide
    all_goals decide
  have hmem : parents sec? ++ [name] ∈ (Field.all.map Field.names).filter (·.dropLast = parents sec?) ↔
      ∃ f : Field, f.names = parents sec? ++ [name] := by
    simp [Field.mem_all]
  rw [← hmem, hnames, List.any_eq_true, List.mem_map]
  simp only [decide_eq_true_eq, List.append_cancel_left_eq, List.cons.injEq, and_true]

/-- What there is to object to the keys of a section, or of the root. -/
def unknownBelow (fields : List (Label × Tree)) (sec? : Option Section) : List Issue :=
  unknownFields (parents sec?) (known sec?) (entries fields sec?)

theorem mem_unknownBelow_iff {sec? : Option Section} {i : Issue} :
    i ∈ unknownBelow fields sec? ↔ ∃ l, Unknown fields sec? l ∧ i = unknownField (parents sec?) l := by
  have hunknown (l : Label) : l ∈ firsts ((labels fields (parents sec?)).filter
      fun l => !(known sec?).any (lit · = l.name)) ↔ Unknown fields sec? l := by
    rw [mem_firsts_iff]
    by_cases hknown : (known sec?).any (lit · = l.name) = true
    · refine iff_of_false (fun hfind => ?_) fun h => ?_
      · have hl := (List.mem_filter.mp (List.mem_of_find?_eq_some hfind)).2
        simp [hknown] at hl
      · obtain ⟨f, hf⟩ := any_known_iff.mp hknown
        exact h.strange f hf
    · have hsame : ((labels fields (parents sec?)).filter fun l => !(known sec?).any (lit · = l.name)).find?
          (·.name = l.name) = (labels fields (parents sec?)).find? (·.name = l.name) := by
        rw [List.find?_filter]
        congr 1
        funext a
        by_cases hname : a.name = l.name
        · simp [hname, Bool.eq_false_of_not_eq_true hknown]
        · simp [hname]
      rw [hsame]
      exact ⟨fun hfind => ⟨hfind, fun f hf => hknown (any_known_iff.mpr ⟨f, hf⟩)⟩, fun h => h.first⟩
  rw [unknownBelow, unknownFields, map_fst_entries, List.mem_map]
  constructor
  · rintro ⟨l, hl, rfl⟩
    exact ⟨l, (hunknown l).mp hl, rfl⟩
  · rintro ⟨l, hl, rfl⟩
    exact ⟨l, (hunknown l).mpr hl, rfl⟩

/-- The sections and the root, in the order in which their keys are looked at. -/
def levels : List (Option Section) :=
  [some (.command .analyzer), some (.command .preprocess), some (.command .cleanup), some (.command .wrapper),
   some .classify, some .output, some .service, none]

theorem mem_levels (sec? : Option Section) : sec? ∈ levels := by
  rcases sec? with _ | tool | _ | _ | _
  case some.command => cases tool <;> decide
  all_goals decide

theorem unknown_leaf {α : Type} [DecidableEq α] (path : List Bytes) (read : Tree → Option α) (fallback : α)
    (blame : Tree → Tree) (trees : List Tree) : (leaf path read fallback blame trees).unknown = [] := by
  obtain ⟨-, h⟩ | ⟨_, -, -, h⟩ | ⟨_, -, -, h⟩ | ⟨_, -, _, -, -, h⟩ := leaf_cases path read fallback blame trees <;>
    rw [h]

/-- **Objections to keys**, when there is none to values, are those to unknown keys. -/
theorem mem_unknown_draft_iff (hsound : ∀ sec : Section, sec.Sound fields) {i : Issue} :
    i ∈ (draft fields).unknown ↔ ∃ sec? l, Unknown fields sec? l ∧ i = unknownField (parents sec?) l := by
  have h (sec : Section) : sec.conflicts fields = [] := Section.conflicts_eq_nil_iff.mpr (hsound sec)
  have hcommand (tool : Tool) : (command tool.name (Setting.path? tool) (tool.get {}) fields).unknown =
      unknownBelow fields (some (.command tool)) :=
    (congrArg Checked.unknown (inSection_of_nil (h (.command tool)))).trans (List.append_nil _)
  have hclassify : (classification (Config.strict {}) fields).unknown = unknownBelow fields (some .classify) := by
    refine (congrArg Checked.unknown (inSection_of_nil (h .classify))).trans ?_
    rw [unknown_leaf, List.append_nil]
    rfl
  have houtput : (outputNames (Config.output {}) fields).unknown = unknownBelow fields (some .output) :=
    (congrArg Checked.unknown (inSection_of_nil (h .output))).trans (List.append_nil _)
  have hservice : (loggingSettings (Config.logging {}) fields).unknown = unknownBelow fields (some .service) :=
    (congrArg Checked.unknown (inSection_of_nil (h .service))).trans (List.append_nil _)
  have hdraft : (draft fields).unknown =
      (command Tool.analyzer.name (Setting.path? .analyzer) (Tool.analyzer.get {}) fields).unknown ++
      (command Tool.preprocess.name (Setting.path? .preprocess) (Tool.preprocess.get {}) fields).unknown ++
      (command Tool.cleanup.name (Setting.path? .cleanup) (Tool.cleanup.get {}) fields).unknown ++
      (command Tool.wrapper.name (Setting.path? .wrapper) (Tool.wrapper.get {}) fields).unknown ++
      (classification (Config.strict {}) fields).unknown ++ (outputNames (Config.output {}) fields).unknown ++
      (loggingSettings (Config.logging {}) fields).unknown ++ unknownBelow fields none := rfl
  have hlevels : (draft fields).unknown = levels.flatMap (unknownBelow fields) := by
    rw [hdraft, hcommand, hcommand, hcommand, hcommand, hclassify, houtput, hservice]
    simp [levels]
  rw [hlevels, List.mem_flatMap]
  simp only [mem_levels, true_and, mem_unknownBelow_iff]

theorem unknown_draft_eq_nil_iff (hsound : ∀ sec : Section, sec.Sound fields) :
    (draft fields).unknown = [] ↔ ∀ sec? l, ¬Unknown fields sec? l := by
  rw [List.eq_nil_iff_forall_not_mem]
  constructor
  · intro h sec? l hl
    exact h _ ((mem_unknown_draft_iff hsound).mpr ⟨sec?, l, hl, rfl⟩)
  · intro h i hi
    obtain ⟨sec?, l, hl, -⟩ := (mem_unknown_draft_iff hsound).mp hi
    exact h sec? l hl

theorem noColon_of_mem_unknown (hsound : ∀ sec : Section, sec.Sound fields) :
    ∀ i ∈ (draft fields).unknown, i.NoColon := by
  intro i hi p hp
  obtain ⟨sec?, l, -, rfl⟩ := (mem_unknown_draft_iff hsound).mp hi
  rw [List.mem_singleton.mp hp]
  exact colon_not_mem_place l.mark

/-- Names are shown so that they do not look like definitions. -/
theorem head?_shownName_ne (name : Bytes) : (shownName name).head? ≠ some 0x23 := by
  unfold shownName
  split
  case isTrue h =>
    intro hhead
    obtain ⟨rest, rfl⟩ := List.head?_eq_some_iff.mp hhead
    have hpieces : Utf8.pieces (0x23 :: rest) = .char '#' :: Utf8.pieces rest := Utf8.pieces_char_append '#' rest
    have hall := (Bool.and_eq_true_iff.mp h).2
    rw [hpieces, List.all_cons] at hall
    exact absurd (Bool.and_eq_true_iff.mp hall).1 (by decide)
  case isFalse => exact fun hhead => absurd (Option.some.inj hhead) (by decide)

theorem code_unknownField (names : List Bytes) (l : Label) :
    (unknownField names l).detail.code = lit "unknown_field" := rfl

theorem position_unknownField (names : List Bytes) (l : Label) :
    (unknownField names l).detail.position = place l.mark := rfl

theorem fieldPath_unknownField (sec? : Option Section) (l : Label) :
    (unknownField (parents sec?) l).fieldPath = joined (parents sec? ++ [shownName l.name]) := by
  refine fieldPath_eq fun name hname => ?_
  cases sec? with
  | none =>
    obtain rfl := Option.some.inj hname
    exact head?_shownName_ne l.name
  | some sec =>
    obtain rfl := Option.some.inj hname
    exact (Field.plain_names (.group sec)).1.head_ne _ (List.mem_singleton.mpr rfl)

/-! ### Documents that fit -/

/-- **Fitting fields**: every key is that of a field, every section is a record, the rule of every setting admits what
is given for it, as one value, and a kill grace has less than `2 ^ 63` nanoseconds. -/
structure Fits (fields : List (Label × Tree)) : Prop where
  keys : ∀ sec? : Option Section, ∀ l ∈ labels fields (parents sec?), ∃ f : Field, f.names = parents sec? ++ [l.name]
  sections : ∀ sec : Section, sec.Sound fields
  values : ∀ s : Setting, ∃ v, ∀ t, Gives fields s.names t → s.rule.Admits t v
  grace : ∀ t s, Gives fields Setting.killGrace.names t → Rule.grace.Admits t (.text s) → graceLength s < 2 ^ 63

theorem forall_known_iff : (∀ sec? : Option Section, ∀ l ∈ labels fields (parents sec?),
      ∃ f : Field, f.names = parents sec? ++ [l.name]) ↔ ∀ sec? l, ¬Unknown fields sec? l := by
  constructor
  · intro h sec? l hunknown
    obtain ⟨f, hf⟩ := h sec? l (List.mem_of_find?_eq_some hunknown.first)
    exact hunknown.strange f hf
  · intro h sec? l hl
    by_contra hstrange
    push Not at hstrange
    obtain ⟨l', hfirst⟩ : ∃ l', (labels fields (parents sec?)).find? (·.name = l.name) = some l' := by
      rw [← Option.isSome_iff_exists, List.find?_isSome]
      exact ⟨l, hl, decide_eq_true rfl⟩
    have hname := List.find?_some hfirst
    rw [← of_decide_eq_true hname] at hfirst hstrange
    exact h sec? l' ⟨hfirst, hstrange⟩

/-- Without violations, the values fit. -/
theorem forall_admits_iff : (∀ f path t, ¬Violates fields f path t) ↔
    (∀ sec : Section, sec.Sound fields) ∧ ∀ s : Setting, ∃ v, ∀ t, Gives fields s.names t → s.rule.Admits t v := by
  constructor
  · intro h
    have hconflicts := conflicts_draft_eq_nil_iff.mpr h
    refine ⟨fun sec t ht => ?_, fun s => ⟨_, (written_of_conflicts_nil hconflicts s).1⟩⟩
    by_contra hrecord
    push Not at hrecord
    exact h _ _ t (.group ht hrecord)
  · rintro ⟨hsound, hvalues⟩ f path t hviolates
    cases hviolates with
    | @group sec _ hgiven hrecord =>
      obtain ⟨m, inner, rfl⟩ := hsound sec t hgiven
      exact hrecord m inner rfl
    | @leaf s _ _ _ hblames =>
      obtain ⟨v, hv⟩ := hvalues s
      exact Setting.not_blames hv hblames

/-- Without violations, the kill grace is read if it is not too long. -/
theorem exists_read_grace_iff (h : (draft fields).conflicts = []) (env : Environment) :
    (∃ grace, Duration.read env (draft fields).value.grace = .ok grace) ↔
      ∀ t s, Gives fields Setting.killGrace.names t → Rule.grace.Admits t (.text s) → graceLength s < 2 ^ 63 := by
  obtain ⟨t, ht⟩ := exists_admits_grace h
  obtain ⟨hread, herror⟩ := read_grace ht env
  obtain ⟨hgiven, habsent⟩ := written_of_conflicts_nil h .killGrace
  constructor
  · rintro ⟨grace, hgrace⟩ t' s ht' hs
    obtain rfl := Value.text.inj (hs.eq (hgiven t' ht'))
    by_contra hlong
    obtain ⟨e, he⟩ := herror (Nat.not_lt.mp hlong)
    exact nomatch hgrace.symm.trans he
  · intro hshort
    refine ⟨_, hread ?_⟩
    by_cases hnone : ∀ t, ¬Gives fields Setting.killGrace.names t
    · rw [Value.text.inj (habsent hnone)]
      decide
    · push Not at hnone
      obtain ⟨t', ht'⟩ := hnone
      exact hshort t' _ ht' (hgiven t' ht')

/-- **Accepted fields** are those that fit. -/
theorem exists_ofFields_eq_ok_iff : (∃ c, ofFields env fields = .ok c) ↔ Fits fields := by
  constructor
  · rintro ⟨c, hc⟩
    obtain ⟨hconflicts, hnone, grace, hgrace, -⟩ := ofFields_eq_ok_iff.mp hc
    obtain ⟨hsound, hvalues⟩ := forall_admits_iff.mp (conflicts_draft_eq_nil_iff.mp hconflicts)
    exact ⟨forall_known_iff.mpr ((unknown_draft_eq_nil_iff hsound).mp hnone), hsound, hvalues,
      (exists_read_grace_iff hconflicts env).mp ⟨grace, hgrace⟩⟩
  · intro h
    have hconflicts := conflicts_draft_eq_nil_iff.mpr (forall_admits_iff.mpr ⟨h.sections, h.values⟩)
    obtain ⟨grace, hgrace⟩ := (exists_read_grace_iff hconflicts env).mpr h.grace
    exact ⟨_, ofFields_eq_ok_iff.mpr
      ⟨hconflicts, (unknown_draft_eq_nil_iff h.sections).mpr (forall_known_iff.mp h.keys), grace, hgrace, rfl⟩⟩

/-! ### Documents that do not fit -/

/-- **Refusals**: what is told of fields that do not fit. If there are violations of the schema, all of them are told,
and as conflicting values unless they are hidden. Otherwise all unknown keys are told, each with its place. If there are
none, the kill grace is too long, and then it is only told that something is wrong. -/
inductive Refusal (fields : List (Label × Tree)) : List Detail → Prop
  | values {ds : List Detail} (hvalues : ∃ f path t, Violates fields f path t)
      (hcode : ∀ d ∈ ds, d.code ≠ lit "unknown_field")
      (hpaths : ∀ text, (∃ d ∈ ds, d.path = text) ↔ ∃ f path t, Violates fields f path t ∧ joined path = text)
      (hconflicts : ∀ text, (∃ d ∈ ds, d.path = text ∧ d.code = lit "conflicting_values") ↔
        ∃ f path t, Violates fields f path t ∧ ¬f.Hides t ∧ joined path = text) : Refusal fields ds
  | keys {ds : List Detail} (hvalues : ∀ f path t, ¬Violates fields f path t) (hkeys : ∃ sec? l, Unknown fields sec? l)
      (hcode : ∀ d ∈ ds, d.code = lit "unknown_field")
      (hplaces : ∀ text position, (∃ d ∈ ds, d.path = text ∧ d.position = position) ↔
        ∃ sec? l, Unknown fields sec? l ∧ joined (parents sec? ++ [shownName l.name]) = text ∧
          place l.mark = position) : Refusal fields ds
  | grace {t : Tree} {s : Bytes} (hvalues : ∀ f path t, ¬Violates fields f path t)
      (hkeys : ∀ sec? l, ¬Unknown fields sec? l) (hgiven : Gives fields Setting.killGrace.names t)
      (hadmits : Rule.grace.Admits t (.text s)) (hlong : 2 ^ 63 ≤ graceLength s) :
      Refusal fields [⟨[], lit "validation_error", [], {}, []⟩]

theorem ofFields_error_cases {issues : List Issue} (h : ofFields env fields = .error issues) :
    ((draft fields).conflicts ≠ [] ∧ issues = (draft fields).conflicts) ∨
    ((draft fields).conflicts = [] ∧ (draft fields).unknown ≠ [] ∧ issues = (draft fields).unknown) ∨
    ((draft fields).conflicts = [] ∧ (draft fields).unknown = [] ∧
      (¬∃ grace, Duration.read env (draft fields).value.grace = .ok grace) ∧ issues = [unreadable]) := by
  unfold ofFields at h
  by_cases hconflicts : (draft fields).conflicts = []
  · by_cases hunknown : (draft fields).unknown = []
    · cases hgrace : Duration.read env (draft fields).value.grace with
      | error e =>
        simp only [hconflicts, hunknown, hgrace] at h
        exact .inr (.inr ⟨hconflicts, hunknown, nofun, (Except.error.inj h).symm⟩)
      | ok grace => simp [hconflicts, hunknown, hgrace] at h
    · simp only [hconflicts, List.isEmpty_nil, List.isEmpty_eq_false_iff.mpr hunknown] at h
      exact .inr (.inl ⟨hconflicts, hunknown, (Except.error.inj h).symm⟩)
  · simp only [List.isEmpty_eq_false_iff.mpr hconflicts] at h
    exact .inl ⟨hconflicts, (Except.error.inj h).symm⟩

theorem details_ne_nil {issues : List Issue} (h : issues ≠ []) : details issues ≠ [] := by
  obtain ⟨i, hi⟩ := List.exists_mem_of_ne_nil issues h
  obtain ⟨first, -, hfirst, -⟩ := exists_first_mem_details hi
  exact List.ne_nil_of_mem hfirst

theorem refusal_of_ofFields {issues : List Issue} (h : ofFields env fields = .error issues) :
    Refusal fields (details issues) := by
  obtain ⟨hne, rfl⟩ | ⟨hnil, hne, rfl⟩ | ⟨hnil, hknown, hgrace, rfl⟩ := ofFields_error_cases h
  · have hvalues : ∃ f path t, Violates fields f path t := by
      rw [ne_eq, conflicts_draft_eq_nil_iff] at hne
      push Not at hne
      exact hne
    exact .values hvalues (fun d => code_ne_of_mem_details_draft) (fun text => exists_path_draft_iff)
      fun text => exists_conflict_draft_iff
  · have hvalues := conflicts_draft_eq_nil_iff.mp hnil
    obtain ⟨hsound, -⟩ := forall_admits_iff.mp hvalues
    -- every value is admitted, so the sections are mappings and their unknown keys are told
    have hkeys : ∃ sec? l, Unknown fields sec? l := by
      obtain ⟨i, hi⟩ := List.exists_mem_of_ne_nil _ hne
      obtain ⟨sec?, l, hl, -⟩ := (mem_unknown_draft_iff hsound).mp hi
      exact ⟨sec?, l, hl⟩
    refine .keys hvalues hkeys (fun d hd => ?_) fun text position => ⟨?_, ?_⟩
    · obtain ⟨i, hi, rfl⟩ := exists_of_mem_details hd
      obtain ⟨sec?, l, -, rfl⟩ := (mem_unknown_draft_iff hsound).mp hi
      exact code_unknownField _ l
    · rintro ⟨d, hd, rfl, rfl⟩
      obtain ⟨i, hi, rfl⟩ := exists_of_mem_details hd
      obtain ⟨sec?, l, hl, rfl⟩ := (mem_unknown_draft_iff hsound).mp hi
      exact ⟨sec?, l, hl, (fieldPath_unknownField sec? l).symm, (position_unknownField _ l).symm⟩
    · rintro ⟨sec?, l, hl, rfl, rfl⟩
      obtain ⟨d, hd, hposition, hpath⟩ := exists_mem_details (noColon_of_mem_unknown hsound)
        ((mem_unknown_draft_iff hsound).mpr ⟨sec?, l, hl, rfl⟩)
      exact ⟨d, hd, hpath.trans (fieldPath_unknownField sec? l), hposition⟩
  · have hvalues := conflicts_draft_eq_nil_iff.mp hnil
    obtain ⟨hsound, -⟩ := forall_admits_iff.mp hvalues
    -- only the kill grace can still be wrong, and only by its length
    rw [exists_read_grace_iff hnil env] at hgrace
    push Not at hgrace
    obtain ⟨t, s, hgiven, hadmits, hlong⟩ := hgrace
    exact .grace hvalues ((unknown_draft_eq_nil_iff hsound).mp hknown) hgiven hadmits hlong

/-- Whether a text is a mapping that is refused, and some test of its fields and of the issues succeeds. -/
def refuses (env : Environment) (bs : Bytes) (p : List (Label × Tree) → List Issue → Bool) : Bool :=
  match Yaml.parse bs with
  | .ok [.record _ fields] =>
    match ofFields env fields with
    | .error issues => p fields issues
    | .ok _ => false
  | _ => false

theorem exists_of_refuses {p : List (Label × Tree) → List Issue → Bool} (h : refuses env bs p = true) :
    ∃ m fields issues, Yaml.parse bs = .ok [.record m fields] ∧ load env bs = .error issues ∧
      p fields issues = true := by
  unfold refuses at h
  split at h
  case h_2 => exact nomatch h
  rename_i m fields hparse
  split at h
  case h_2 => exact nomatch h
  rename_i issues hrefused
  exact ⟨m, fields, issues, hparse, (load_of_parse hparse env).trans hrefused, h⟩

/-- Values of wrong types in all places, and keys that are no fields. -/
def misfit : Bytes :=
  lit "version: 1\nanalyzer:\n  path: ''\n  args: [ok, 1, true]\n  env:\n    a: b\n  extra: 1\noutput: [x]\nbogus: 1\n"

/-- The paths and codes that are told of it. -/
def misfitTold : List (Bytes × Bytes) :=
  [(lit "version", lit "conflicting_values"),
   (lit "analyzer.path", lit "validation_error"), (lit "analyzer.path", lit "conflicting_values"),
   (lit "analyzer.args.1", lit "conflicting_values"), (lit "analyzer.args.2", lit "conflicting_values"),
   (lit "analyzer.env", lit "validation_error"), (lit "output", lit "conflicting_values")]

/-- A kill grace that is too long, next to a key that is no field. -/
def overlong : Bytes := lit "kill_grace: 99999999999999999999h\nworkers: 8\n"

/-- A record where a list of texts belongs. -/
def recordForEnv : Bytes := lit "analyzer:\n  env:\n    a: b\n"

end CrateAudit.Config
