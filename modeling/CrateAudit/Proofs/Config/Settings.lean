import CrateAudit.Proofs.Config.Draft
import CrateAudit.Proofs.Duration
import Mathlib.Data.List.Forall2

/-!
# The settings of a configuration

The schema of a configuration is a small tree: a few settings stand at its root, the others in sections. Each setting
has a rule, which admits some values of a document (`Rule.Admits`). What a document gives to a setting is found by
the names that lead to it (`Gives`), at any level and any number of times.

Documents are read section by section, with a check for each kind of value. Here the checks are tied to the rules
(`Rule.Checks`), and what is given for a setting to the names (`Setting.mem_given_iff`).
-/

namespace CrateAudit.Config

open Bytes Yaml

/-! ### The schema -/

/-- The commands of a configuration. -/
inductive Tool where
  | analyzer
  | preprocess
  | cleanup
  | wrapper
  deriving DecidableEq

/-- The sections of a document. -/
inductive Section where
  | command (tool : Tool)
  | classify
  | output
  | service
  deriving DecidableEq

/-- The settings of a document. -/
inductive Setting where
  | version
  | path (tool : Tool)
  | args (tool : Tool)
  | env (tool : Tool)
  | killGrace
  | strict
  | dir
  | table
  | narrative
  | bom
  | verbose
  | target
  deriving DecidableEq

/-- The rules that values obey. -/
inductive Rule where
  | zero
  | text
  | filled
  | texts
  | flag
  | grace

/-- The values of settings. -/
inductive Value where
  | number (n : Int)
  | text (s : Bytes)
  | texts (ss : List Bytes)
  | flag (b : Bool)

namespace Tool

def name : Tool → String
  | .analyzer => "analyzer"
  | .preprocess => "preprocess"
  | .cleanup => "cleanup"
  | .wrapper => "wrapper"

def get (c : Config) : Tool → Command
  | .analyzer => c.analyzer
  | .preprocess => c.preprocess
  | .cleanup => c.cleanup
  | .wrapper => c.wrapper

end Tool

def Section.name : Section → String
  | .command tool => tool.name
  | .classify => "classify"
  | .output => "output"
  | .service => "service"

namespace Setting

/-- The section that a setting stands in, if it does not stand at the root. -/
def section? : Setting → Option Section
  | .version | .killGrace => none
  | .path tool | .args tool | .env tool => some (.command tool)
  | .strict => some .classify
  | .dir | .table | .narrative | .bom => some .output
  | .verbose | .target => some .service

def name : Setting → String
  | .version => "version"
  | .path _ => "path"
  | .args _ => "args"
  | .env _ => "env"
  | .killGrace => "kill_grace"
  | .strict => "strict"
  | .dir => "dir"
  | .table => "table"
  | .narrative => "narrative"
  | .bom => "bom"
  | .verbose => "verbose"
  | .target => "log"

/-- The names that lead to a setting. -/
def names (s : Setting) : List Bytes :=
  match s.section? with
  | none => [lit s.name]
  | some sec => [lit sec.name, lit s.name]

/-- The rule of a setting. Only the wrapper may have no path, and only the bill of materials no name. -/
def rule : Setting → Rule
  | .version => .zero
  | .path .wrapper | .bom => .text
  | .path _ | .dir | .table | .narrative | .target => .filled
  | .args _ | .env _ => .texts
  | .strict | .verbose => .flag
  | .killGrace => .grace

/-- The value that a configuration has for a setting; a kill grace counts in nanoseconds. -/
def get (c : Config) : Setting → Value
  | .version => .number c.version
  | .path tool => .text (tool.get c).path
  | .args tool => .texts (tool.get c).args
  | .env tool => .texts (tool.get c).env
  | .killGrace => .number c.killGrace.nanoseconds.toInt
  | .strict => .flag c.strict
  | .dir => .text c.output.dir
  | .table => .text c.output.table
  | .narrative => .text c.output.narrative
  | .bom => .text c.output.bom
  | .verbose => .flag c.logging.verbose
  | .target => .text c.logging.target

end Setting

/-- **Admitted values**: what a rule asks of a tree, and the value that the tree has then. -/
inductive Rule.Admits : Rule → Tree → Value → Prop
  | zero {m : Mark} : Admits .zero (.scalar m (.int 0)) (.number 0)
  | text {m : Mark} {s : Bytes} : Admits .text (.scalar m (.text s)) (.text s)
  | filled {m : Mark} {s : Bytes} (hs : s ≠ []) : Admits .filled (.scalar m (.text s)) (.text s)
  | texts {m : Mark} {items : List Tree} {ss : List Bytes}
      (h : List.Forall₂ (fun t s => ∃ m, t = .scalar m (.text s)) items ss) : Admits .texts (.list m items) (.texts ss)
  | flag {m : Mark} {b : Bool} : Admits .flag (.scalar m (.bool b)) (.flag b)
  | grace {m : Mark} {digits : Bytes} {unit : Bytes × ℕ} (hne : digits ≠ []) (hall : digits.all isDigit = true)
      (hunit : unit ∈ Duration.plainUnits) :
      Admits .grace (.scalar m (.text (digits ++ unit.1))) (.text (digits ++ unit.1))

/-- **Given values**: the names lead to a value from some fields. -/
inductive Gives : List (Label × Tree) → List Bytes → Tree → Prop
  | field {fields : List (Label × Tree)} {l : Label} {t : Tree} (h : (l, t) ∈ fields) : Gives fields [l.name] t
  | inside {fields inner : List (Label × Tree)} {l : Label} {m : Mark} {names : List Bytes} {t : Tree}
      (h : (l, .record m inner) ∈ fields) (hinner : Gives inner names t) : Gives fields (l.name :: names) t

/-! ### What a document gives -/

section Given

variable {fields : List (Label × Tree)} {t : Tree}

theorem gives_singleton_iff {name : Bytes} : Gives fields [name] t ↔ ∃ l, (l, t) ∈ fields ∧ l.name = name := by
  constructor
  · intro h
    generalize hnames : [name] = names at h
    cases h with
    | field h => exact ⟨_, h, (List.cons.inj hnames).1.symm⟩
    | inside _ hinner =>
      obtain ⟨-, rfl⟩ := List.cons.inj hnames
      cases hinner
  · rintro ⟨l, h, rfl⟩
    exact .field h

theorem gives_pair_iff {parent name : Bytes} :
    Gives fields [parent, name] t ↔ ∃ m inner, Gives fields [parent] (.record m inner) ∧ Gives inner [name] t := by
  constructor
  · intro h
    generalize hnames : [parent, name] = names at h
    cases h with
    | field => cases hnames
    | inside h hinner =>
      obtain ⟨rfl, rfl⟩ := List.cons.inj hnames
      exact ⟨_, _, .field h, hinner⟩
  · rintro ⟨m, inner, hsection, hinner⟩
    obtain ⟨l, h, rfl⟩ := gives_singleton_iff.mp hsection
    exact .inside h hinner

theorem mem_given_iff {name : String} : t ∈ given fields name ↔ Gives fields [lit name] t := by
  rw [gives_singleton_iff, given, List.mem_map]
  constructor
  · rintro ⟨⟨l, t⟩, hmem, rfl⟩
    obtain ⟨hfield, hname⟩ := List.mem_filter.mp hmem
    exact ⟨l, hfield, of_decide_eq_true hname⟩
  · rintro ⟨l, hfield, hname⟩
    exact ⟨(l, t), List.mem_filter.mpr ⟨hfield, decide_eq_true hname⟩, rfl⟩

theorem mem_sectionFields_iff {trees : List Tree} {field : Label × Tree} :
    field ∈ sectionFields trees ↔ ∃ m inner, .record m inner ∈ trees ∧ field ∈ inner := by
  rw [sectionFields, List.mem_flatMap]
  constructor
  · rintro ⟨_ | _ | ⟨m, inner⟩, ht, hfield⟩
    · contradiction
    · contradiction
    · exact ⟨m, inner, ht, hfield⟩
  · rintro ⟨m, inner, ht, hfield⟩
    exact ⟨_, ht, hfield⟩

/-- The trees that some fields give to a setting, in their order. -/
def Setting.given (fields : List (Label × Tree)) (s : Setting) : List Tree :=
  match s.section? with
  | none => Config.given fields s.name
  | some sec => Config.given (sectionFields (Config.given fields sec.name)) s.name

theorem Setting.mem_given_iff {s : Setting} : t ∈ s.given fields ↔ Gives fields s.names t := by
  unfold given names
  cases s.section? with
  | none => exact Config.mem_given_iff
  | some sec =>
    simp only [Config.mem_given_iff, gives_pair_iff, gives_singleton_iff, mem_sectionFields_iff]
    constructor
    · rintro ⟨l, ⟨m, inner, hsection, hfield⟩, hname⟩
      exact ⟨m, inner, hsection, l, hfield, hname⟩
    · rintro ⟨m, inner, hsection, l, hfield, hname⟩
      exact ⟨l, ⟨m, inner, hsection, hfield⟩, hname⟩

end Given

/-! ### Rules as they are checked -/

section Rules

variable {α : Type} {t : Tree}

/-- A check that finds the values that a rule admits. -/
structure Rule.Checks (rule : Rule) (read : Tree → Option α) (value : α → Value) : Prop where
  admits_iff : ∀ {t : Tree} {v : Value}, rule.Admits t v ↔ ∃ a, read t = some a ∧ value a = v
  injective : Function.Injective value

theorem Rule.Checks.eq_none_iff {rule : Rule} {read : Tree → Option α} {value : α → Value}
    (h : rule.Checks read value) : read t = none ↔ ∀ v, ¬rule.Admits t v := by
  simp [h.admits_iff, Option.eq_none_iff_forall_ne_some]

theorem Rule.Checks.ne_none_iff {rule : Rule} {read : Tree → Option α} {value : α → Value}
    (h : rule.Checks read value) : read t ≠ none ↔ ∃ v, rule.Admits t v := by
  rw [ne_eq, h.eq_none_iff, not_forall_not]

theorem Rule.Checks.eq_some_iff {rule : Rule} {read : Tree → Option α} {value : α → Value} (h : rule.Checks read value)
    {a : α} : read t = some a ↔ rule.Admits t (value a) := by
  rw [h.admits_iff]
  constructor
  · intro hread
    exact ⟨a, hread, rfl⟩
  · rintro ⟨a', hread, heq⟩
    rw [hread, h.injective heq]

theorem Rule.Checks.eq_of_admits {rule : Rule} {read : Tree → Option α} {value : α → Value} (h : rule.Checks read value)
    {v v' : Value} (hv : rule.Admits t v) (hv' : rule.Admits t v') : v = v' := by
  obtain ⟨a, ha, rfl⟩ := h.admits_iff.mp hv
  obtain ⟨a', ha', rfl⟩ := h.admits_iff.mp hv'
  rw [Option.some.inj (ha.symm.trans ha')]

theorem text?_eq_some_iff {s : Bytes} : text? t = some s ↔ ∃ m, t = .scalar m (.text s) := by
  unfold text?
  split <;> simp_all

theorem flag?_eq_some_iff {b : Bool} : flag? t = some b ↔ ∃ m, t = .scalar m (.bool b) := by
  unfold flag?
  split
  · simp
  · rename_i hno
    simp only [reduceCtorEq, false_iff, not_exists]
    exact fun m => hno m b

theorem mapM_text?_eq_some_iff {items : List Tree} {ss : List Bytes} :
    items.mapM text? = some ss ↔ List.Forall₂ (fun t s => ∃ m, t = .scalar m (.text s)) items ss := by
  induction items generalizing ss with
  | nil =>
    rw [List.mapM_nil, List.forall₂_nil_left_iff]
    exact ⟨fun h => (Option.some.inj h).symm, fun h => congrArg some h.symm⟩
  | cons t items ih =>
    simp only [List.mapM_cons, Option.bind_eq_bind, Option.bind_eq_some_iff, text?_eq_some_iff, ih,
      List.forall₂_cons_left_iff, Option.pure_def, Option.some.injEq]
    constructor
    · rintro ⟨s, ht, ss, hitems, rfl⟩
      exact ⟨s, ss, ht, hitems, rfl⟩
    · rintro ⟨s, ss, ht, hitems, rfl⟩
      exact ⟨s, ht, ss, hitems, rfl⟩

theorem Rule.checks_text : Rule.text.Checks text? .text := by
  refine ⟨@fun t v => ?_, fun _ _ => Value.text.inj⟩
  simp only [text?_eq_some_iff]
  constructor
  · rintro ⟨⟩
    exact ⟨_, ⟨_, rfl⟩, rfl⟩
  · rintro ⟨s, ⟨m, rfl⟩, rfl⟩
    exact .text

theorem Rule.checks_filled : Rule.filled.Checks filled? .text := by
  refine ⟨@fun t v => ?_, fun _ _ => Value.text.inj⟩
  simp only [filled?, Option.filter_eq_some_iff, text?_eq_some_iff]
  constructor
  · intro h
    cases h with
    | filled hs => exact ⟨_, ⟨⟨_, rfl⟩, by simpa using hs⟩, rfl⟩
  · rintro ⟨s, ⟨⟨m, rfl⟩, hs⟩, rfl⟩
    exact .filled (by simpa using hs)

theorem Rule.checks_texts : Rule.texts.Checks texts? .texts := by
  refine ⟨@fun t v => ?_, fun _ _ => Value.texts.inj⟩
  constructor
  · intro h
    cases h with
    | texts h => exact ⟨_, mapM_text?_eq_some_iff.mpr h, rfl⟩
  · rintro ⟨ss, hread, rfl⟩
    rcases t with _ | ⟨m, items⟩ | _
    · contradiction
    · exact .texts (mapM_text?_eq_some_iff.mp hread)
    · contradiction

theorem Rule.checks_flag : Rule.flag.Checks flag? .flag := by
  refine ⟨@fun t v => ?_, fun _ _ => Value.flag.inj⟩
  simp only [flag?_eq_some_iff]
  constructor
  · rintro ⟨⟩
    exact ⟨_, ⟨_, rfl⟩, rfl⟩
  · rintro ⟨b, ⟨m, rfl⟩, rfl⟩
    exact .flag

/-- A list is admitted exactly if its items are texts. -/
theorem exists_admits_texts_iff {m : Mark} {items : List Tree} :
    (∃ v, Rule.texts.Admits (.list m items) v) ↔ ∀ t ∈ items, ∃ v, Rule.text.Admits t v := by
  have hlist : (∃ v, Rule.texts.Admits (.list m items) v) ↔
      ∃ ss, List.Forall₂ (fun t s => ∃ m, t = .scalar m (.text s)) items ss := by
    constructor
    · rintro ⟨_, h⟩
      cases h with
      | texts h => exact ⟨_, h⟩
    · rintro ⟨ss, h⟩
      exact ⟨_, .texts h⟩
  have htext (t : Tree) : (∃ v, Rule.text.Admits t v) ↔ ∃ s m, t = .scalar m (.text s) := by
    constructor
    · rintro ⟨_, ⟨⟩⟩
      exact ⟨_, _, rfl⟩
    · rintro ⟨s, m, rfl⟩
      exact ⟨_, .text⟩
  simp only [hlist, htext]
  clear hlist
  induction items with
  | nil => simp
  | cons t items ih =>
    rw [List.forall_mem_cons]
    constructor
    · rintro ⟨ss, h⟩
      obtain ⟨s, ss, ht, hitems, -⟩ := List.forall₂_cons_left_iff.mp h
      exact ⟨⟨s, ht⟩, ih.mp ⟨ss, hitems⟩⟩
    · rintro ⟨⟨s, ht⟩, hitems⟩
      obtain ⟨ss, hss⟩ := ih.mpr hitems
      exact ⟨s :: ss, .cons ht hss⟩

theorem fitsGrace_iff {s : Bytes} : fitsGrace s = true ↔
    ∃ digits unit, s = digits ++ unit.1 ∧ digits ≠ [] ∧ digits.all isDigit = true ∧ unit ∈ Duration.plainUnits := by
  have hunits : graceUnits = Duration.plainUnits.map (·.1) := by decide
  rw [fitsGrace, Bool.and_eq_true, List.contains_iff_mem, hunits, Bool.not_eq_true', List.isEmpty_eq_false_iff]
  constructor
  · rintro ⟨hne, hunit⟩
    obtain ⟨unit, hunit, hdrop⟩ := List.mem_map.mp hunit
    refine ⟨s.takeWhile isDigit, unit, ?_, hne, List.all_takeWhile, hunit⟩
    rw [hdrop, List.takeWhile_append_dropWhile]
  · rintro ⟨digits, unit, rfl, hne, hall, hunit⟩
    obtain ⟨htake, hdrop⟩ := takeWhile_digits_append hall (Duration.plainUnits_spec unit hunit).1
    rw [htake, hdrop]
    exact ⟨hne, List.mem_map_of_mem hunit⟩

theorem Rule.checks_grace : Rule.grace.Checks grace? .text := by
  refine ⟨@fun t v => ?_, fun _ _ => Value.text.inj⟩
  have hgrace (s : Bytes) : grace? t = some s ↔ (∃ m, t = .scalar m (.text s)) ∧ fitsGrace s = true := by
    rw [← text?_eq_some_iff]
    exact Option.filter_eq_some_iff
  simp only [hgrace, fitsGrace_iff]
  constructor
  · intro h
    cases h with
    | grace hne hall hunit => exact ⟨_, ⟨⟨_, rfl⟩, _, _, rfl, hne, hall, hunit⟩, rfl⟩
  · rintro ⟨s, ⟨⟨m, rfl⟩, digits, unit, rfl, hne, hall, hunit⟩, rfl⟩
    exact .grace hne hall hunit

/-- A tree has one value at most. -/
theorem Rule.Admits.eq {rule : Rule} {v v' : Value} (h : rule.Admits t v) (h' : rule.Admits t v') : v = v' := by
  cases rule with
  | zero =>
    cases h
    cases h'
    rfl
  | text => exact Rule.checks_text.eq_of_admits h h'
  | filled => exact Rule.checks_filled.eq_of_admits h h'
  | texts => exact Rule.checks_texts.eq_of_admits h h'
  | flag => exact Rule.checks_flag.eq_of_admits h h'
  | grace => exact Rule.checks_grace.eq_of_admits h h'

end Rules

end CrateAudit.Config
