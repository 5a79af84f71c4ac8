import CrateAudit.Config.Schema
import CrateAudit.Proofs.Config.Load
import Mathlib.Tactic.Tauto

/-!
# Documents that show a configuration

A tree shows a document if it has its names and values, wherever they stand (`Yaml.Tree.shows`). The tree of
a configuration has every field once and no other, so each section is read on its own: it gives the values
that were written if they keep the rules, and a conflict otherwise (`Checked.Reads`).

Main result: `exists_draft_of_shows`, for the whole document.
-/

namespace CrateAudit

open Bytes

/-! ### Trees and documents -/

namespace Yaml

mutual

/-- Whether a tree has the values of a document; its marks play no part. -/
def Tree.shows : Tree → Json → Bool
  | .scalar _ .null, .null => true
  | .scalar _ (.bool b), .bool b' => b = b'
  | .scalar _ (.int i), .number i' => i = i'
  | .scalar _ (.text s), .text s' => s = s'
  | .list _ items, .array jsons => showsItems items jsons
  | .record _ fields, .object members => showsMembers fields members
  | _, _ => false

/-- Whether trees have the values of the items of an array. -/
def showsItems : List Tree → List Json → Bool
  | [], [] => true
  | t :: items, j :: jsons => t.shows j && showsItems items jsons
  | _, _ => false

/-- Whether fields have the names and the values of the members of an object. -/
def showsMembers : List (Label × Tree) → List (Bytes × Json) → Bool
  | [], [] => true
  | (l, t) :: fields, (name, j) :: members => l.name = name && t.shows j && showsMembers fields members
  | _, _ => false

end

variable {t : Tree} {items : List Tree} {fields : List (Label × Tree)} {members : List (Bytes × Json)}

theorem exists_of_shows_text {s : Bytes} (h : t.shows (.text s) = true) : ∃ m, t = .scalar m (.text s) := by
  unfold Tree.shows at h
  split at h <;> simp_all

theorem exists_of_shows_bool {b : Bool} (h : t.shows (.bool b) = true) : ∃ m, t = .scalar m (.bool b) := by
  unfold Tree.shows at h
  split at h <;> simp_all

theorem exists_of_shows_number {i : ℤ} (h : t.shows (.number i) = true) : ∃ m, t = .scalar m (.int i) := by
  unfold Tree.shows at h
  split at h <;> simp_all

theorem exists_of_shows_array {jsons : List Json} (h : t.shows (.array jsons) = true) :
    ∃ m items, t = .list m items ∧ showsItems items jsons = true := by
  unfold Tree.shows at h
  split at h
  case h_5 m items jsons' heq =>
    obtain rfl := Json.array.inj heq
    exact ⟨m, items, rfl, h⟩
  all_goals contradiction

theorem exists_of_shows_object (h : t.shows (.object members) = true) :
    ∃ m fields, t = .record m fields ∧ showsMembers fields members = true := by
  unfold Tree.shows at h
  split at h
  case h_6 m fields members' heq =>
    obtain rfl := Json.object.inj heq
    exact ⟨m, fields, rfl, h⟩
  all_goals contradiction

theorem exists_of_showsItems_singleton {j : Json} (h : showsItems items [j] = true) :
    ∃ t, items = [t] ∧ t.shows j = true := by
  cases items with
  | nil => contradiction
  | cons t rest =>
    rw [showsItems, Bool.and_eq_true] at h
    cases rest with
    | nil => exact ⟨t, rfl, h.1⟩
    | cons t' rest => exact absurd h.2 Bool.false_ne_true

theorem map_name_of_showsMembers (h : showsMembers fields members = true) :
    fields.map (·.1.name) = members.map (·.1) := by
  induction fields generalizing members with
  | nil =>
    cases members with
    | nil => rfl
    | cons _ _ => contradiction
  | cons field fields ih =>
    cases members with
    | nil => contradiction
    | cons member members =>
      rw [showsMembers, Bool.and_eq_true, Bool.and_eq_true, decide_eq_true_eq] at h
      rw [List.map_cons, List.map_cons, h.1.1, ih h.2]

end Yaml

/-! ### Reading what was printed -/

namespace Config

open Yaml

variable {α : Type} {t : Tree} {items : List Tree} {fields : List (Label × Tree)}
  {members : List (Bytes × Json)}

/-- The values of the members with a name. -/
def valuesOf (members : List (Bytes × Json)) (name : String) : List Json :=
  (members.filter (·.1 = lit name)).map (·.2)

theorem showsItems_given (h : showsMembers fields members = true) (name : String) :
    showsItems (given fields name) (valuesOf members name) = true := by
  induction fields generalizing members with
  | nil =>
    cases members with
    | nil => rfl
    | cons _ _ => contradiction
  | cons field fields ih =>
    cases members with
    | nil => contradiction
    | cons member members =>
      rw [showsMembers, Bool.and_eq_true, Bool.and_eq_true, decide_eq_true_eq] at h
      have hrest := ih h.2
      rw [given, valuesOf] at hrest
      rw [given, valuesOf, List.filter_cons, List.filter_cons, h.1.1]
      split
      · rw [List.map_cons, List.map_cons, showsItems, h.1.2, hrest]
        rfl
      · exact hrest

/-- A name that one member has is given once, with the value of the member. -/
theorem exists_given {j : Json} (h : showsMembers fields members = true) (name : String)
    (hmember : valuesOf members name = [j]) :
    ∃ t, given fields name = [t] ∧ t.shows j = true := by
  have hgiven := showsItems_given h name
  rw [hmember] at hgiven
  exact exists_of_showsItems_singleton hgiven

theorem texts?_of_showsItems {m : Mark} {texts : List Bytes} (h : showsItems items (texts.map .text) = true) :
    texts? (.list m items) = some texts := by
  rw [texts?]
  induction items generalizing texts with
  | nil =>
    cases texts with
    | nil => rfl
    | cons _ _ => contradiction
  | cons t items ih =>
    cases texts with
    | nil => contradiction
    | cons text texts =>
      rw [List.map_cons, showsItems, Bool.and_eq_true] at h
      obtain ⟨m, rfl⟩ := exists_of_shows_text h.1
      rw [List.mapM_cons, ih h.2]
      rfl

/-- What is read: a value, if a condition holds; otherwise there is something to object to. -/
structure Checked.Reads (c : Checked α) (a : α) (P : Prop) : Prop where
  value_eq : P → c.value = a
  unknown_eq : P → c.unknown = []
  conflicts_iff : c.conflicts = [] ↔ P

/-- A rule for texts that asks for a condition. -/
def Asks (rule : Tree → Option Bytes) (p : Bytes → Bool) : Prop :=
  ∀ m s, rule (.scalar m (.text s)) = (some s).filter p

theorem asks_text? : Asks text? fun _ => true := fun _ _ => rfl

theorem asks_filled? : Asks filled? fun s => !s.isEmpty := fun _ _ => rfl

theorem leaf_singleton [DecidableEq α] (path : List Bytes) (rule : Tree → Option α) (fallback : α)
    (blame : Tree → Tree) (t : Tree) :
    leaf path rule fallback blame [t] = match rule t with
      | some v => ⟨v, [], []⟩
      | none => ⟨fallback, [noAlternative path, conflict path (blame t)], []⟩ := by
  cases hrule : rule t with
  | none => simp [leaf, hrule]
  | some v => simp [leaf, hrule, agree]

/-- A field whose rule admits the value. -/
theorem reads_leaf [DecidableEq α] (path : List Bytes) {rule : Tree → Option α} (fallback : α) {a : α}
    (blame : Tree → Tree) (h : rule t = some a) : (leaf path rule fallback blame [t]).Reads a True := by
  rw [leaf_singleton, h]
  exact ⟨fun _ => rfl, fun _ => rfl, iff_of_true rfl trivial⟩

section Leaves

variable (h : showsMembers fields members = true) (name : String)
include h

/-- A field with a text that must fulfil a condition. -/
theorem reads_text (path : List Bytes) {rule : Tree → Option Bytes} {p : Bytes → Bool} (hrule : Asks rule p)
    (fallback : Bytes) {text : Bytes} (hmember : valuesOf members name = [.text text]) :
    (leaf path rule fallback id (given fields name)).Reads text (p text = true) := by
  obtain ⟨t, hgiven, hshows⟩ := exists_given h name hmember
  obtain ⟨m, rfl⟩ := exists_of_shows_text hshows
  rw [hgiven, leaf_singleton, hrule]
  by_cases hp : p text = true
  · rw [Option.filter_some_pos hp]
    exact ⟨fun _ => rfl, fun _ => rfl, iff_of_true rfl hp⟩
  · rw [Option.filter_some_neg (Bool.eq_false_iff.mpr hp)]
    exact ⟨fun h => absurd h hp, fun h => absurd h hp, iff_of_false (List.cons_ne_nil _ _) hp⟩

/-- A field with a text that must not be empty. -/
theorem reads_filled (path : List Bytes) (fallback : Bytes) {text : Bytes}
    (hmember : valuesOf members name = [.text text]) :
    (leaf path filled? fallback id (given fields name)).Reads text (text ≠ []) := by
  have hreads := reads_text h name path asks_filled? fallback hmember
  rwa [Bool.not_eq_true', List.isEmpty_eq_false_iff] at hreads

/-- A field with a truth value. -/
theorem reads_flag (path : List Bytes) (fallback : Bool) {b : Bool}
    (hmember : valuesOf members name = [.bool b]) :
    (leaf path flag? fallback id (given fields name)).Reads b True := by
  obtain ⟨t, hgiven, hshows⟩ := exists_given h name hmember
  obtain ⟨m, rfl⟩ := exists_of_shows_bool hshows
  rw [hgiven]
  exact reads_leaf path fallback id rfl

/-- A field with a list of texts. -/
theorem reads_texts (path fallback : List Bytes) {texts : List Bytes}
    (hmember : valuesOf members name = [.array (texts.map .text)]) :
    (leaf path texts? fallback culprit (given fields name)).Reads texts True := by
  obtain ⟨t, hgiven, hshows⟩ := exists_given h name hmember
  obtain ⟨m, items, rfl, hitems⟩ := exists_of_shows_array hshows
  rw [hgiven]
  exact reads_leaf path fallback culprit (texts?_of_showsItems hitems)

end Leaves

/-! ### Sections -/

theorem unknownFields_eq_nil {parents : List Bytes} {known : List String}
    (h : ∀ name ∈ fields.map (·.1.name), known.any (lit · = name) = true) :
    unknownFields parents known fields = [] := by
  have hstrange : (fields.map (·.1)).filter (fun l => !known.any (lit · = l.name)) = [] := by
    rw [List.filter_eq_nil_iff]
    intro l hl
    obtain ⟨field, hfield, rfl⟩ := List.mem_map.mp hl
    rw [h _ (List.mem_map_of_mem hfield)]
    exact Bool.false_ne_true
  rw [unknownFields, hstrange]
  rfl

/-- A section with known fields only. -/
theorem reads_inSection {name : String} {known : List String} {fallback a : α} {P : Prop}
    {read : List (Label × Tree) → Checked α} {inside : List (Bytes × Json)}
    (h : showsMembers fields members = true)
    (hmember : valuesOf members name = [.object inside])
    (hknown : ∀ name ∈ inside.map (·.1), known.any (lit · = name) = true)
    (hread : ∀ inner, showsMembers inner inside = true → (read inner).Reads a P) :
    (inSection name known fallback read fields).Reads a P := by
  obtain ⟨t, hgiven, hshows⟩ := exists_given h name hmember
  obtain ⟨m, inner, rfl, hinner⟩ := exists_of_shows_object hshows
  have hfields : sectionFields [.record m inner] = inner := List.append_nil inner
  have hsection : inSection name known fallback read fields =
      ⟨(read inner).value, (read inner).conflicts,
        unknownFields [lit name] known inner ++ (read inner).unknown⟩ := by
    unfold inSection
    rw [hgiven]
    show Checked.mk _ _ _ = _
    rw [hfields]
  rw [← map_name_of_showsMembers hinner] at hknown
  rw [hsection, unknownFields_eq_nil hknown]
  exact ⟨(hread inner hinner).value_eq, (hread inner hinner).unknown_eq, (hread inner hinner).conflicts_iff⟩

theorem itemConflicts_eq_nil {path texts : List Bytes} (h : showsItems items (texts.map .text) = true) :
    itemConflicts path items = [] := by
  have htexts : ∀ t ∈ items, (text? t).isNone = false := by
    induction items generalizing texts with
    | nil => exact fun _ => (absurd · List.not_mem_nil)
    | cons t items ih =>
      cases texts with
      | nil => contradiction
      | cons text texts =>
        rw [List.map_cons, showsItems, Bool.and_eq_true] at h
        obtain ⟨m, rfl⟩ := exists_of_shows_text h.1
        exact List.forall_mem_cons.mpr ⟨rfl, ih h.2⟩
  rw [itemConflicts, List.filterMap_eq_nil_iff]
  rintro ⟨t, i⟩ hmem
  have ht : t ∈ items := (List.mem_zipIdx' hmem).2 ▸ List.getElem_mem _
  simp [htexts t ht]

section Command

variable (h : showsMembers fields members = true) (name : String)
include h

/-- The path of a command is a field like the others if a text is given. -/
theorem reads_commandPath (path : List Bytes) {rule : Tree → Option Bytes} {p : Bytes → Bool}
    (hrule : Asks rule p) (fallback : Bytes) {text : Bytes}
    (hmember : valuesOf members name = [.text text]) :
    (commandPath path rule fallback (given fields name)).Reads text (p text = true) := by
  have hreads := reads_text h name path hrule fallback hmember
  obtain ⟨t, hgiven, hshows⟩ := exists_given h name hmember
  obtain ⟨m, rfl⟩ := exists_of_shows_text hshows
  rw [hgiven] at hreads ⊢
  exact hreads

theorem reads_commandArgs (path fallback : List Bytes) {texts : List Bytes}
    (hmember : valuesOf members name = [.array (texts.map .text)]) :
    (commandArgs path fallback (given fields name)).Reads texts True := by
  obtain ⟨t, hgiven, hshows⟩ := exists_given h name hmember
  obtain ⟨m, items, rfl, hitems⟩ := exists_of_shows_array hshows
  have hargs : commandArgs path fallback [.list m items] = ⟨texts, [], []⟩ := by
    simp [commandArgs, argsConflicts, itemConflicts_eq_nil hitems, texts?_of_showsItems hitems, agree]
  rw [hgiven, hargs]
  exact ⟨fun _ => rfl, fun _ => rfl, iff_of_true rfl trivial⟩

/-- The section of a command. -/
theorem reads_command {rule : Tree → Option Bytes} {p : Bytes → Bool} (hrule : Asks rule p) (fallback : Command)
    {c : Command} (hmember : valuesOf members name = [commandJson c]) :
    (command name rule fallback fields).Reads c (p c.path = true) := by
  refine reads_inSection h hmember ?_ ?_
  · show ∀ name ∈ [lit "path", lit "args", lit "env"], _
    decide
  · intro inner hinner
    have hpath := reads_commandPath hinner "path" [lit name, lit "path"] hrule fallback.path rfl
    have hargs := reads_commandArgs hinner "args" [lit name, lit "args"] fallback.args rfl
    have henv := reads_texts hinner "env" [lit name, lit "env"] fallback.env rfl
    refine ⟨fun hp => ?_, fun _ => rfl, ?_⟩
    · show Command.mk _ _ _ = c
      rw [hpath.value_eq hp, hargs.value_eq trivial, henv.value_eq trivial]
    · show _ ++ _ ++ _ = _ ↔ _
      rw [List.append_eq_nil_iff, List.append_eq_nil_iff, hpath.conflicts_iff, hargs.conflicts_iff,
        henv.conflicts_iff, and_true, and_true]

end Command

theorem reads_classification (fallback : Bool) {strict : Bool} (h : showsMembers fields members = true)
    (hmember : valuesOf members "classify" = [.object [(lit "strict", .bool strict)]]) :
    (classification fallback fields).Reads strict True := by
  refine reads_inSection h hmember ?_ ?_
  · show ∀ name ∈ [lit "strict"], _
    decide
  · intro inner hinner
    exact reads_flag hinner "strict" _ fallback rfl

/-- The section about what is written. -/
theorem reads_outputNames (fallback : OutputNames) {names : OutputNames}
    (h : showsMembers fields members = true) (hmember : valuesOf members "output" =
      [.object [(lit "dir", .text names.dir), (lit "table", .text names.table),
        (lit "narrative", .text names.narrative), (lit "bom", .text names.bom)]]) :
    (outputNames fallback fields).Reads names (names.dir ≠ [] ∧ names.table ≠ [] ∧ names.narrative ≠ []) := by
  refine reads_inSection h hmember ?_ ?_
  · show ∀ name ∈ [lit "dir", lit "table", lit "narrative", lit "bom"], _
    decide
  · intro inner hinner
    have hdir := reads_filled hinner "dir" [lit "output", lit "dir"] fallback.dir rfl
    have htable := reads_filled hinner "table" [lit "output", lit "table"] fallback.table rfl
    have hnarrative := reads_filled hinner "narrative" [lit "output", lit "narrative"] fallback.narrative rfl
    have hbom := reads_text hinner "bom" [lit "output", lit "bom"] asks_text? fallback.bom rfl
    refine ⟨?_, fun _ => rfl, ?_⟩
    · rintro ⟨hd, ht, hn⟩
      show OutputNames.mk _ _ _ _ = names
      rw [hdir.value_eq hd, htable.value_eq ht, hnarrative.value_eq hn, hbom.value_eq rfl]
    · show _ ++ _ ++ _ ++ _ = _ ↔ _
      rw [List.append_eq_nil_iff, List.append_eq_nil_iff, List.append_eq_nil_iff, hdir.conflicts_iff,
        htable.conflicts_iff, hnarrative.conflicts_iff, hbom.conflicts_iff, and_iff_left rfl, and_assoc]

theorem reads_loggingSettings (fallback : Logging) {logging : Logging} (h : showsMembers fields members = true)
    (hmember : valuesOf members "service" =
      [.object [(lit "verbose", .bool logging.verbose), (lit "log", .text logging.target)]]) :
    (loggingSettings fallback fields).Reads logging (logging.target ≠ []) := by
  refine reads_inSection h hmember ?_ ?_
  · show ∀ name ∈ [lit "verbose", lit "log"], _
    decide
  · intro inner hinner
    have hverbose := reads_flag hinner "verbose" [lit "service", lit "verbose"] fallback.verbose rfl
    have htarget := reads_filled hinner "log" [lit "service", lit "log"] fallback.target rfl
    refine ⟨fun ht => ?_, fun _ => rfl, ?_⟩
    · show Logging.mk _ _ = logging
      rw [hverbose.value_eq trivial, htarget.value_eq ht]
    · show _ ++ _ = _ ↔ _
      rw [List.append_eq_nil_iff, hverbose.conflicts_iff, htarget.conflicts_iff, true_and]

/-! ### Whole documents -/

/-- What is asked of a kill grace. -/
def fitsGrace (s : Bytes) : Bool := !(s.takeWhile isDigit).isEmpty && graceUnits.contains (s.dropWhile isDigit)

theorem asks_grace? : Asks grace? fitsGrace := fun _ _ => rfl

/-- A configuration whose document passes the checks. -/
def Passes (c : Config) : Prop :=
  (∀ field ∈ required, field c ≠ []) ∧ c.output.table ≠ [] ∧ c.output.narrative ≠ [] ∧
    fitsGrace c.killGrace.text = true

theorem passes_iff {c : Config} :
    c.Passes ↔ (c.analyzer.path ≠ [] ∧ c.preprocess.path ≠ [] ∧ c.cleanup.path ≠ []) ∧
      fitsGrace c.killGrace.text = true ∧
      (c.output.dir ≠ [] ∧ c.output.table ≠ [] ∧ c.output.narrative ≠ []) ∧ c.logging.target ≠ [] := by
  simp only [Passes, required, List.forall_mem_cons, List.not_mem_nil, false_imp_iff, implies_true, and_true]
  tauto

/-- The tree of a configuration is read as the configuration, if it passes the checks. -/
theorem exists_draft_of_shows {c : Config} (hversion : c.version = 0) (h : t.shows c.toJson = true) :
    ∃ m fields, t = .record m fields ∧
      (draft fields).Reads ⟨{ c with killGrace := (Config.killGrace {}) }, c.killGrace.text⟩ c.Passes := by
  obtain ⟨m, fields, rfl, hfields⟩ := exists_of_shows_object h
  refine ⟨m, fields, rfl, ?_⟩
  have hanalyzer := reads_command hfields "analyzer" asks_filled? (Config.analyzer {}) rfl
  have hpreprocess := reads_command hfields "preprocess" asks_filled? (Config.preprocess {}) rfl
  have hcleanup := reads_command hfields "cleanup" asks_filled? (Config.cleanup {}) rfl
  have hwrapper := reads_command hfields "wrapper" asks_text? (Config.wrapper {}) rfl
  have hstrict := reads_classification (Config.strict {}) hfields rfl
  have houtput := reads_outputNames (Config.output {}) hfields rfl
  have hlogging := reads_loggingSettings (Config.logging {}) hfields rfl
  have hgrace := reads_text hfields "kill_grace" [lit "kill_grace"] asks_grace? (Config.killGrace {}).text rfl
  obtain ⟨t, hgiven, hshows⟩ := exists_given hfields "version" rfl
  obtain ⟨mv, rfl⟩ := exists_of_shows_number hshows
  have hversion' : versionConflicts (given fields "version") = [] := by
    rw [hgiven, hversion]
    rfl
  -- the tree has the keys of a configuration and no others
  have hunknown : unknownFields [] knownFields fields = [] := by
    refine unknownFields_eq_nil ?_
    rw [map_name_of_showsMembers hfields]
    show ∀ name ∈ [lit "version", lit "analyzer", lit "preprocess", lit "cleanup", lit "wrapper",
      lit "kill_grace", lit "classify", lit "output", lit "service"], _
    decide
  have hfilled : ∀ s : Bytes, (!s.isEmpty) = true ↔ s ≠ [] := by simp
  rw [hfilled] at hanalyzer hpreprocess hcleanup
  rw [passes_iff]
  constructor
  · rintro ⟨⟨ha, hp, hc⟩, hg, ho, hl⟩
    show Draft.mk ⟨0, _, _, _, _, _, _, _, _⟩ _ = _
    rw [← hversion, hanalyzer.value_eq ha, hpreprocess.value_eq hp, hcleanup.value_eq hc, hwrapper.value_eq rfl,
      hgrace.value_eq hg, hstrict.value_eq trivial, houtput.value_eq ho, hlogging.value_eq hl]
  · rintro ⟨⟨ha, hp, hc⟩, hg, ho, hl⟩
    show _ ++ _ ++ _ ++ _ ++ _ ++ _ ++ _ ++ _ = _
    rw [hanalyzer.unknown_eq ha, hpreprocess.unknown_eq hp, hcleanup.unknown_eq hc, hwrapper.unknown_eq rfl,
      hstrict.unknown_eq trivial, houtput.unknown_eq ho, hlogging.unknown_eq hl, hunknown]
    rfl
  · show _ ++ _ ++ _ ++ _ ++ _ ++ _ ++ _ ++ _ ++ _ = _ ↔ _
    simp only [List.append_eq_nil_iff, hversion', hanalyzer.conflicts_iff, hpreprocess.conflicts_iff,
      hcleanup.conflicts_iff, hwrapper.conflicts_iff, hgrace.conflicts_iff, hstrict.conflicts_iff,
      houtput.conflicts_iff, hlogging.conflicts_iff]
    tauto

end Config

end CrateAudit
