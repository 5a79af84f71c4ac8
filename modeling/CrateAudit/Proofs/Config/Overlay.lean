import CrateAudit.Proofs.Config.Printed
import CrateAudit.Proofs.Config.Verdict

/-!
# Documents laid over the defaults

An accepted document is laid over the defaults setting by setting: a setting that the document gives has the value that
is written, with references to environment variables replaced where this is done (`Setting.settle`), and any other
setting has its default. So settings do not depend on each other.

Main result: `load_overlay`.
-/

namespace CrateAudit.Config

open Bytes Yaml

variable {env : Environment} {bs : Bytes} {m : Mark} {fields : List (Label × Tree)} {c : Config}

/-! ### From what is written to what is configured -/

/-- The nanoseconds of a number with a unit. -/
def graceLength (s : Bytes) : ℕ :=
  digitsValue (s.takeWhile isDigit) * ((Duration.plainUnits.find? (·.1 = s.dropWhile isDigit)).elim 0 (·.2))

/-- What becomes of a written value in an environment: references are replaced in the commands, in the output
directory and in the log file, and a kill grace is measured. -/
def Setting.settle (env : Environment) : Setting → Value → Value
  | .path _, .text s | .dir, .text s | .target, .text s => .text (env.expand s)
  | .args _, .texts ss | .env _, .texts ss => .texts (ss.map env.expand)
  | .killGrace, .text s => .number (graceLength s)
  | _, v => v

theorem graceLength_append {digits : Bytes} {unit : Bytes × ℕ} (hall : digits.all isDigit = true)
    (hunit : unit ∈ Duration.plainUnits) : graceLength (digits ++ unit.1) = digitsValue digits * unit.2 := by
  obtain ⟨htake, hdrop⟩ := takeWhile_digits_append hall (Duration.plainUnits_spec unit hunit).1
  have hfind : ∀ unit ∈ Duration.plainUnits, Duration.plainUnits.find? (·.1 = unit.1) = some unit := by decide
  rw [graceLength, htake, hdrop, hfind unit hunit]
  rfl

/-- A kill grace that the rule admits is read exactly if its nanoseconds have 63 bits. -/
theorem read_grace {t : Tree} {s : Bytes} (h : Rule.grace.Admits t (.text s)) (env : Environment) :
    (graceLength s < 2 ^ 63 → Duration.read env s = .ok ⟨Int64.ofNat (graceLength s)⟩) ∧
      (2 ^ 63 ≤ graceLength s → ∃ e, Duration.read env s = .error e) := by
  cases h with
  | grace hne hall hunit =>
    rw [graceLength_append hall hunit, Duration.read_digits_append hunit hne hall]
    exact ⟨fun hlt => if_pos hlt, fun hle => ⟨_, if_neg (Nat.not_lt.mpr hle)⟩⟩

/-! ### Settings of accepted documents -/

theorem Setting.Verdict.of_conflicts_nil {s : Setting} {fallback : Value} {trees : List Tree} {checked : Checked Value}
    (h : s.Verdict fallback trees checked) (hnil : checked.conflicts = []) :
    (∀ t ∈ trees, s.rule.Admits t checked.value) ∧ (trees = [] → checked.value = fallback) := by
  cases h with
  | absent htrees => exact ⟨fun t ht => absurd (htrees ▸ ht) List.not_mem_nil, fun _ => rfl⟩
  | same hne hall => exact ⟨hall, fun htrees => absurd htrees hne⟩
  | refused hne =>
    obtain ⟨-, hculprits⟩ := List.append_eq_nil_iff.mp hnil
    exact absurd (List.map_eq_nil_iff.mp hculprits) hne

/-- Without an objection, every setting is looked at and nothing is to blame. -/
theorem conflicts_check_eq_nil (h : (draft fields).conflicts = []) (s : Setting) :
    s.isReached fields = true ∧ (s.check fields).conflicts = [] := by
  rw [conflicts_draft, List.flatMap_eq_nil_iff] at h
  have hreached : s.isReached fields = true := by
    unfold Setting.isReached
    split
    · rfl
    · rename_i sec _
      exact List.isEmpty_iff.mpr (h _ (Field.mem_all (.group sec)))
  have hleaf := h _ (Field.mem_all (.leaf s))
  rw [Field.conflicts, if_pos hreached] at hleaf
  exact ⟨hreached, hleaf⟩

/-- What a draft without objections has for a setting: the value of all trees that are given, or the default. -/
theorem written_of_conflicts_nil (h : (draft fields).conflicts = []) (s : Setting) :
    (∀ t, Gives fields s.names t → s.rule.Admits t (s.written (draft fields).value)) ∧
      ((∀ t, ¬Gives fields s.names t) → s.written (draft fields).value = s.written .defaults) := by
  obtain ⟨hreached, hnil⟩ := conflicts_check_eq_nil h s
  obtain ⟨hgiven, habsent⟩ := (s.verdict_check fields).of_conflicts_nil hnil
  rw [written_draft hreached]
  refine ⟨fun t ht => hgiven t (Setting.mem_given_iff.mpr ht), fun hnone => habsent ?_⟩
  exact List.eq_nil_iff_forall_not_mem.mpr fun t ht => hnone t (Setting.mem_given_iff.mp ht)

/-- So there is a kill grace that the rule admits. -/
theorem exists_admits_grace (h : (draft fields).conflicts = []) :
    ∃ t, Rule.grace.Admits t (.text (draft fields).value.grace) := by
  obtain ⟨hgiven, habsent⟩ := written_of_conflicts_nil h .killGrace
  by_cases hnone : ∀ t, ¬Gives fields Setting.killGrace.names t
  · have hseconds : (lit "s", 10 ^ 9) ∈ Duration.plainUnits := by decide
    have hdefault : Rule.grace.Admits (.scalar .start (.text (lit "5" ++ lit "s"))) (.text (lit "5" ++ lit "s")) :=
      .grace (by decide) (by decide) hseconds
    rw [Value.text.inj (habsent hnone)]
    exact ⟨_, hdefault⟩
  · push Not at hnone
    obtain ⟨t, ht⟩ := hnone
    exact ⟨t, hgiven t ht⟩

theorem ofFields_eq_ok_iff : ofFields env fields = .ok c ↔
    (draft fields).conflicts = [] ∧ (draft fields).unknown = [] ∧
      ∃ grace, Duration.read env (draft fields).value.grace = .ok grace ∧
        c = { (draft fields).value.config with killGrace := grace }.expand env := by
  unfold ofFields
  by_cases hconflicts : (draft fields).conflicts = []
  · by_cases hunknown : (draft fields).unknown = []
    · cases hgrace : Duration.read env (draft fields).value.grace with
      | error e => simp [hconflicts, hunknown, hgrace]
      | ok grace => simp [hconflicts, hunknown, hgrace, eq_comm]
    · simp [hconflicts, hunknown]
  · simp [hconflicts]

/-- The settings that references are replaced in are those that an environment expands. -/
theorem Setting.get_expand (env : Environment) (c : Config) (s : Setting) :
    s.get (c.expand env) = s.settle env (s.get c) := by
  cases s with
  | path tool | args tool | env tool => cases tool <;> rfl
  | _ => rfl

/-- **Settings of accepted fields** are settled from what is written. -/
theorem get_of_ofFields (h : ofFields env fields = .ok c) (s : Setting) :
    s.get c = s.settle env (s.written (draft fields).value) := by
  obtain ⟨hconflicts, -, grace, hgrace, rfl⟩ := ofFields_eq_ok_iff.mp h
  rw [Setting.get_expand]
  cases s with
  | killGrace =>
    obtain ⟨t, ht⟩ := exists_admits_grace hconflicts
    obtain ⟨hread, herror⟩ := read_grace ht env
    obtain hlt | hle := Nat.lt_or_ge (graceLength (draft fields).value.grace) (2 ^ 63)
    · obtain rfl := Except.ok.inj (hgrace.symm.trans (hread hlt))
      exact congrArg Value.number (Int64.toInt_ofNat_of_lt hlt)
    · obtain ⟨e, he⟩ := herror hle
      exact nomatch hgrace.symm.trans he
  | path tool | args tool | env tool => cases tool <;> rfl
  | _ => rfl

/-- The defaults stay as they are in every environment. -/
theorem settle_defaults (env : Environment) (s : Setting) : s.settle env (s.written .defaults) = s.get {} := by
  have hexpand : Config.expand env {} = {} := expand_eq_self (by decide) env
  have hget := s.get_expand env {}
  rw [hexpand] at hget
  cases s with
  | killGrace => exact congrArg Value.number (by decide)
  | _ => exact hget.symm

/-- The settings are all there is to a configuration. -/
theorem eq_of_forall_get_eq {c c' : Config} (h : ∀ s : Setting, s.get c = s.get c') : c = c' := by
  have hcommand (tool : Tool) : tool.get c = tool.get c' := by
    have heta (command : Command) : command = ⟨command.path, command.args, command.env⟩ := rfl
    rw [heta (tool.get c), heta (tool.get c'), Value.text.inj (h (.path tool)), Value.texts.inj (h (.args tool)),
      Value.texts.inj (h (.env tool))]
  have houtput : c.output = c'.output := by
    have heta (names : OutputNames) : names = ⟨names.dir, names.table, names.narrative, names.bom⟩ := rfl
    rw [heta c.output, heta c'.output, Value.text.inj (h .dir), Value.text.inj (h .table),
      Value.text.inj (h .narrative), Value.text.inj (h .bom)]
  have hlogging : c.logging = c'.logging := by
    have heta (logging : Logging) : logging = ⟨logging.verbose, logging.target⟩ := rfl
    rw [heta c.logging, heta c'.logging, Value.flag.inj (h .verbose), Value.text.inj (h .target)]
  have hgrace : c.killGrace = c'.killGrace := by
    have heta (d : Duration) : d = ⟨d.nanoseconds⟩ := rfl
    rw [heta c.killGrace, heta c'.killGrace, Int64.toInt_inj.mp (Value.number.inj (h .killGrace))]
  have heta (c : Config) : c = ⟨c.version, Tool.analyzer.get c, Tool.preprocess.get c, Tool.cleanup.get c,
    Tool.wrapper.get c, c.killGrace, c.strict, c.output, c.logging⟩ := rfl
  rw [heta c, heta c', hcommand, hcommand, hcommand, hcommand, hgrace, houtput, hlogging,
    Value.number.inj (h .version), Value.flag.inj (h .strict)]

/-- A setting gets what is written for it, or its default. -/
theorem get_eq_of_ofFields (h : ofFields env fields = .ok c) (s : Setting) :
    (∀ t, Gives fields s.names t → ∃ v, s.rule.Admits t v ∧ s.get c = s.settle env v) ∧
      ((∀ t, ¬Gives fields s.names t) → s.get c = s.get {}) := by
  obtain ⟨hgiven, habsent⟩ := written_of_conflicts_nil (ofFields_eq_ok_iff.mp h).1 s
  have hget := get_of_ofFields h s
  refine ⟨fun t ht => ⟨_, hgiven t ht, hget⟩, fun hnone => ?_⟩
  rw [hget, habsent hnone, settle_defaults]

/-! ### Documents -/

theorem load_of_parse (hparse : Yaml.parse bs = .ok [.record m fields]) (env : Environment) :
    load env bs = ofFields env fields := by
  rw [load, hparse]
  rfl

theorem exists_parse_eq_record (h : (match Yaml.parse bs with
      | .ok [.record _ _] => true
      | _ => false) = true) : ∃ m fields, Yaml.parse bs = .ok [.record m fields] := by
  split at h
  · rename_i m fields hparse
    exact ⟨m, fields, hparse⟩
  · contradiction

theorem Gives.head?_mem {names : List Bytes} {t : Tree} (h : Gives fields names t) :
    ∀ name ∈ names.head?, name ∈ fields.map (·.1.name) := by
  rintro name hname
  cases h with
  | field h | inside h =>
    obtain rfl := Option.some.inj hname
    exact List.mem_map_of_mem h

/-- A document that gives the version only has the defaults in every environment. -/
theorem load_of_version_only (hshows : (match Yaml.parse bs with
      | .ok [t] => t.shows (.object [(lit "version", .number 0)])
      | _ => false) = true)
    (haccepted : (load ⟨[]⟩ bs).toOption.isSome = true) (env : Environment) : load env bs = .ok {} := by
  split at hshows
  case h_2 => contradiction
  rename_i t hparse
  obtain ⟨m, fields, rfl, hmembers⟩ := exists_of_shows_object hshows
  have hnames : fields.map (·.1.name) = [lit "version"] := map_name_of_showsMembers hmembers
  obtain ⟨issues, hissues⟩ | ⟨raw, hraw, -⟩ := load_cases bs
  · rw [hissues] at haccepted
    contradiction
  rw [hraw]
  have hfields : ofFields env fields = .ok (raw.expand env) := (load_of_parse hparse env).symm.trans (hraw env)
  refine congrArg Except.ok (eq_of_forall_get_eq fun s => ?_)
  obtain ⟨hgiven, habsent⟩ := get_eq_of_ofFields hfields s
  by_cases hnone : ∀ t, ¬Gives fields s.names t
  · exact habsent hnone
  · push Not at hnone
    obtain ⟨t, ht⟩ := hnone
    have hhead := ht.head?_mem
    rw [hnames] at hhead
    obtain ⟨v, hv, hget⟩ := hgiven t ht
    rw [hget]
    -- all other settings have a first name that is not given
    cases s with
    | version => cases hv; rfl
    | path tool | args tool | env tool => cases tool <;> exact absurd (hhead _ rfl) (by decide)
    | _ => exact absurd (hhead _ rfl) (by decide)

theorem load_version (env : Environment) : load env (lit "version: 0\n") = .ok {} :=
  load_of_version_only (by decide +kernel) (by decide +kernel) env

/-- A value that fields give to a setting. -/
def Setting.Written (s : Setting) (fields : List (Label × Tree)) (v : Value) : Prop :=
  ∃ t, Gives fields s.names t ∧ s.rule.Admits t v

/-- Accepted fields that give a setting the same values give it the same in the end. -/
theorem get_eq_get_of_written {fields' : List (Label × Tree)} {c' : Config} {s : Setting}
    (h : ofFields env fields = .ok c) (h' : ofFields env fields' = .ok c')
    (hsame : ∀ v, s.Written fields v ↔ s.Written fields' v) : s.get c' = s.get c := by
  obtain ⟨hgiven, habsent⟩ := get_eq_of_ofFields h s
  obtain ⟨hgiven', habsent'⟩ := get_eq_of_ofFields h' s
  by_cases hnone : ∀ t, ¬Gives fields s.names t
  · have hnone' : ∀ t, ¬Gives fields' s.names t := by
      intro t' ht'
      obtain ⟨v, hv, -⟩ := hgiven' t' ht'
      obtain ⟨t, ht, -⟩ := (hsame v).mpr ⟨t', ht', hv⟩
      exact hnone t ht
    rw [habsent hnone, habsent' hnone']
  · push Not at hnone
    obtain ⟨t, ht⟩ := hnone
    obtain ⟨v, hv, hget⟩ := hgiven t ht
    obtain ⟨t', ht', hv'⟩ := (hsame v).mp ⟨t, ht, hv⟩
    obtain ⟨v', hadmits, hget'⟩ := hgiven' t' ht'
    rw [hget, hget', hadmits.eq hv']

/-- **Overlay**. For every mapping that is accepted, in every environment, each setting has the value that the mapping
gives it, after the replacement of references, if it gives one, and otherwise the value that it has for the document
without settings. There is nothing else in a configuration, and two accepted mappings that give a setting the same
values agree on it, whatever else they hold. -/
theorem load_overlay (hparse : Yaml.parse bs = .ok [.record m fields]) (hload : load env bs = .ok c) :
    ∃ defaults, load env (lit "version: 0\n") = .ok defaults ∧
      (∀ s : Setting,
        (∀ t, Gives fields s.names t → ∃ v, s.rule.Admits t v ∧ s.get c = s.settle env v) ∧
        ((∀ t, ¬Gives fields s.names t) → s.get c = s.get defaults)) ∧
      (∀ c', (∀ s : Setting, s.get c' = s.get c) → c' = c) ∧
      ∀ bs' m' fields' c', Yaml.parse bs' = .ok [.record m' fields'] → load env bs' = .ok c' →
        ∀ s : Setting, (∀ v, s.Written fields v ↔ s.Written fields' v) → s.get c' = s.get c := by
  rw [load_of_parse hparse] at hload
  refine ⟨{}, load_version env, get_eq_of_ofFields hload, fun c' h => eq_of_forall_get_eq h, ?_⟩
  intro bs' m' fields' c' hparse' hload' s hsame
  rw [load_of_parse hparse'] at hload'
  exact get_eq_get_of_written hload hload' hsame

/-- A section that is filled in part, a list with a reference, and a kill grace in milliseconds. -/
def filledInPart : Bytes := lit "kill_grace: 1500ms\nanalyzer:\n  args: [check, $LOG]\n"

theorem load_overlay_filledInPart :
    ∃ m fields c, Yaml.parse filledInPart = .ok [.record m fields] ∧ load logOnly filledInPart = .ok c ∧
      (c.analyzer = ⟨lit "cargo-ffi-checker", [lit "check", lit "run.log"], []⟩ ∧ c.killGrace = ⟨1500000000⟩) ∧
      ∃ defaults, load logOnly (lit "version: 0\n") = .ok defaults ∧
        (∀ s : Setting,
          (∀ t, Gives fields s.names t → ∃ v, s.rule.Admits t v ∧ s.get c = s.settle logOnly v) ∧
          ((∀ t, ¬Gives fields s.names t) → s.get c = s.get defaults)) ∧
        (∀ c', (∀ s : Setting, s.get c' = s.get c) → c' = c) ∧
        ∀ bs' m' fields' c', Yaml.parse bs' = .ok [.record m' fields'] → load logOnly bs' = .ok c' →
          ∀ s : Setting, (∀ v, s.Written fields v ↔ s.Written fields' v) → s.get c' = s.get c := by
  obtain ⟨m, fields, hparse⟩ : ∃ m fields, Yaml.parse filledInPart = .ok [.record m fields] :=
    exists_parse_eq_record (by decide +kernel)
  have hfacts : (load logOnly filledInPart).toOption.map (fun c => (c.analyzer, c.killGrace)) =
      some (⟨lit "cargo-ffi-checker", [lit "check", lit "run.log"], []⟩, ⟨1500000000⟩) := by decide +kernel
  obtain ⟨c, hload, hc⟩ := exists_load_eq_ok hfacts
  exact ⟨m, fields, c, hparse, hload, Prod.mk.inj hc, load_overlay hparse hload⟩

end CrateAudit.Config
