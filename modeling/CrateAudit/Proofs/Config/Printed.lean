import CrateAudit.Proofs.Config.Draft
import CrateAudit.Proofs.Duration
import CrateAudit.Yaml.Printer

/-!
# Printed configurations

A configuration can be printed as a document. Read again, the document gives the configuration back if it
passes the checks, and it fails them in two cases only: a setting that must not be empty has become so by
the expansion of its references, or the kill grace is printed with more than one unit, or as a fraction, or
in microseconds, none of which may be written in a document (`load_print`, `load_ninetySeconds`).

That printing and parsing keep the values of a document is not shown here but supposed (`Yaml.keeps`).
-/

namespace CrateAudit

open Bytes

/-- Whether a document is the same after it was printed and parsed. -/
def Yaml.keeps (j : Json) : Bool :=
  match parse (print j) with
  | .ok [t] => t.shows j
  | _ => false

theorem Yaml.exists_of_keeps {j : Json} (h : keeps j = true) :
    ∃ t, parse (print j) = .ok [t] ∧ t.shows j = true := by
  unfold keeps at h
  split at h
  · rename_i t hparse
    exact ⟨t, hparse, h⟩
  · contradiction

namespace Config

open Yaml

variable {env : Environment} {bs : Bytes} {c : Config} {fields : List (Label × Tree)}

/-! ### What was accepted -/

theorem table_outputNames_ne_nil {fallback : OutputNames} (hfallback : fallback.table ≠ []) :
    (outputNames fallback fields).value.table ≠ [] :=
  inSection_value (P := fun names : OutputNames => names.table ≠ []) hfallback fun _ =>
    ne_nil_of_filled? hfallback (leaf_value filled? fallback.table id)

theorem narrative_outputNames_ne_nil {fallback : OutputNames} (hfallback : fallback.narrative ≠ []) :
    (outputNames fallback fields).value.narrative ≠ [] :=
  inSection_value (P := fun names : OutputNames => names.narrative ≠ []) hfallback fun _ =>
    ne_nil_of_filled? hfallback (leaf_value filled? fallback.narrative id)

/-- Accepted fields are those of a draft, with the kill grace read and the references replaced. -/
theorem exists_of_ofFields (h : ofFields env fields = .ok c) :
    ∃ grace, Duration.read env (draft fields).value.grace = .ok grace ∧
      c = { (draft fields).value.config with killGrace := grace }.expand env := by
  dsimp only [ofFields] at h
  split at h
  · contradiction
  split at h
  · contradiction
  split at h
  · contradiction
  · rename_i grace hgrace
    exact ⟨grace, hgrace, (Except.ok.inj h).symm⟩

theorem exists_of_load (h : load env bs = .ok c) : ∃ fields, ofFields env fields = .ok c := by
  unfold load at h
  split at h
  · contradiction
  · unfold ofTrees at h
    split at h
    · exact ⟨[], h⟩
    · exact ⟨_, h⟩
    · contradiction
    · contradiction

/-- What is known of the settings that no reference can change. -/
theorem settings_of_load (h : load env bs = .ok c) :
    c.version = 0 ∧ (c.output.table ≠ [] ∧ c.output.narrative ≠ []) ∧ 0 ≤ c.killGrace.nanoseconds.toInt := by
  obtain ⟨fields, hfields⟩ := exists_of_load h
  obtain ⟨grace, hgrace, rfl⟩ := exists_of_ofFields hfields
  refine ⟨rfl, ⟨?_, ?_⟩, Duration.nonneg_of_read hgrace⟩
  · exact table_outputNames_ne_nil (by decide)
  · exact narrative_outputNames_ne_nil (by decide)

/-! ### Kill graces -/

/-- A kill grace is admitted as it is printed if one number and one unit are enough for it. -/
theorem fitsGrace_text_iff {d : Duration} (h : 0 ≤ d.nanoseconds.toInt) :
    fitsGrace d.text = true ↔ Duration.SingleUnit d.nanoseconds.toInt.toNat := by
  rw [Duration.text_of_nonneg h, fitsGrace, Bool.and_eq_true, List.contains_iff_mem]
  constructor
  · -- admitted units have letters only; with several units, a digit or a point stands behind the first
    rintro ⟨-, hunit⟩
    by_contra hsingle
    obtain ⟨k, tail, htext, hhead, hletters⟩ := Duration.compound_magnitudeText hsingle
    rw [htext, (Bytes.takeWhile_decimal_append k hhead).2] at hunit
    have hunits : ∀ unit ∈ graceUnits, unit.all isLetter = true := by decide
    rw [hunits tail hunit] at hletters
    contradiction
  · intro hsingle
    obtain ⟨unit, hunit, k, -, htext⟩ := Duration.exists_magnitudeText_of_singleUnit hsingle
    have hunits : ∀ unit ∈ Duration.wholeUnits, unit.1 ∈ graceUnits := by decide
    have hhead := (Duration.plainUnits_spec unit (Duration.mem_plainUnits_of_mem_wholeUnits unit hunit)).1
    rw [htext, (Bytes.takeWhile_decimal_append k hhead).1, (Bytes.takeWhile_decimal_append k hhead).2]
    refine ⟨?_, hunits unit hunit⟩
    rw [List.isEmpty_eq_false_iff.mpr (decimal_ne_nil k)]
    rfl

/-! ### References -/

/-- The parts of a command that may refer to environment variables. -/
def commandTexts (c : Command) : List Bytes := c.path :: (c.args ++ c.env)

/-- The settings that may refer to environment variables. -/
def expandedTexts (c : Config) : List Bytes :=
  [c.analyzer, c.preprocess, c.cleanup, c.wrapper].flatMap commandTexts ++ [c.output.dir, c.logging.target]

theorem expand_command_eq_self {command : Command} (h : ∀ s ∈ commandTexts command, 0x24 ∉ s)
    (env : Environment) : command.expand env = command := by
  have hself : ∀ s ∈ commandTexts command, env.expand s = s :=
    fun s hs => Environment.expand_eq_self (h s hs) env
  simp only [commandTexts, List.forall_mem_cons, List.forall_mem_append] at hself
  obtain ⟨hpath, hargs, henv⟩ := hself
  rw [Command.expand, hpath, List.map_congr_left hargs, List.map_congr_left henv, List.map_id', List.map_id']

/-- Where nothing refers to a variable, nothing is replaced. -/
theorem expand_eq_self (h : ∀ s ∈ c.expandedTexts, 0x24 ∉ s) (env : Environment) : c.expand env = c := by
  rw [expandedTexts, List.forall_mem_append, List.forall_mem_flatMap] at h
  obtain ⟨hcommands, hothers⟩ := h
  have hcommand : ∀ command ∈ [c.analyzer, c.preprocess, c.cleanup, c.wrapper], command.expand env = command :=
    fun command hmem => expand_command_eq_self (hcommands command hmem) env
  have hother : ∀ s ∈ [c.output.dir, c.logging.target], env.expand s = s :=
    fun s hs => Environment.expand_eq_self (hothers s hs) env
  simp only [List.forall_mem_cons] at hcommand hother
  obtain ⟨hanalyzer, hpreprocess, hcleanup, hwrapper, -⟩ := hcommand
  obtain ⟨hdir, htarget, -⟩ := hother
  rw [expand, hanalyzer, hpreprocess, hcleanup, hwrapper, hdir, htarget]

/-! ### Reading a printed configuration -/

/-- Fields are accepted if what is read for them passes the checks, and refused otherwise. -/
theorem ofFields_of_reads {d : Draft} {P : Prop} (h : (draft fields).Reads d P) {grace : Duration}
    (hgrace : P → Duration.read env d.grace = .ok grace) :
    (P → ofFields env fields = .ok ({ d.config with killGrace := grace }.expand env)) ∧
      (¬ P → ∃ issues, ofFields env fields = .error issues) := by
  refine ⟨fun hP => ?_, fun hP => ?_⟩
  · simp only [ofFields, h.conflicts_iff.mpr hP, h.unknown_eq hP, h.value_eq hP, hgrace hP]
    rfl
  · have hconflicts : (draft fields).conflicts.isEmpty = false :=
      List.isEmpty_eq_false_iff.mpr fun hnil => hP (h.conflicts_iff.mp hnil)
    exact ⟨(draft fields).conflicts, by simp only [ofFields, hconflicts]; rfl⟩

/-- What comes of the text of a configuration. -/
theorem load_print_cases (hversion : c.version = 0) (hgrace : 0 ≤ c.killGrace.nanoseconds.toInt)
    (hdollar : ∀ s ∈ c.expandedTexts, 0x24 ∉ s) (hkeeps : keeps c.toJson = true) (env : Environment) :
    (c.Passes → load env (print c.toJson) = .ok c) ∧
      (¬ c.Passes → ∃ issues, load env (print c.toJson) = .error issues) := by
  obtain ⟨t, hparse, hshows⟩ := exists_of_keeps hkeeps
  obtain ⟨m, fields, rfl, hreads⟩ := exists_draft_of_shows hversion hshows
  have hload : load env (print c.toJson) = ofFields env fields := by
    rw [load, hparse]
    rfl
  have hread : c.Passes → Duration.read env c.killGrace.text = .ok c.killGrace := fun hpasses =>
    Duration.read_text_of_singleUnit hgrace ((fitsGrace_text_iff hgrace).mp hpasses.2.2.2) env
  have hfields := ofFields_of_reads hreads hread
  rwa [← hload, expand_eq_self hdollar env] at hfields

/-- **Printed configurations**. A configuration that was read from a document, with no reference left in it,
is printed; its text is accepted again, and gives the configuration back, exactly if none of the required
settings is empty and the kill grace is printed as one number with one unit. Otherwise the text is refused. -/
theorem load_print (h : load env bs = .ok c) (hdollar : ∀ s ∈ c.expandedTexts, 0x24 ∉ s)
    (hkeeps : keeps c.toJson = true) (env' : Environment) :
    (load env' (print c.toJson) = .ok c ↔
        (∀ field ∈ required, field c ≠ []) ∧ Duration.SingleUnit c.killGrace.nanoseconds.toInt.toNat) ∧
      ((∃ issues, load env' (print c.toJson) = .error issues) ↔
        ¬ ((∀ field ∈ required, field c ≠ []) ∧ Duration.SingleUnit c.killGrace.nanoseconds.toInt.toNat)) := by
  obtain ⟨hversion, ⟨htable, hnarrative⟩, hgrace⟩ := settings_of_load h
  have hpasses : c.Passes ↔
      (∀ field ∈ required, field c ≠ []) ∧ Duration.SingleUnit c.killGrace.nanoseconds.toInt.toNat := by
    rw [Passes, fitsGrace_text_iff hgrace, and_iff_right hnarrative, and_iff_right htable]
  obtain ⟨hok, herror⟩ := load_print_cases hversion hgrace hdollar hkeeps env'
  rw [← hpasses]
  by_cases hP : c.Passes
  · have hload := hok hP
    refine ⟨iff_of_true hload hP, iff_of_false ?_ (not_not_intro hP)⟩
    rintro ⟨issues, hissues⟩
    rw [hload] at hissues
    contradiction
  · obtain ⟨issues, hissues⟩ := herror hP
    refine ⟨iff_of_false ?_ hP, iff_of_true ⟨issues, hissues⟩ hP⟩
    intro hload
    rw [hload] at hissues
    contradiction

/-- An output directory that is given by a variable, and a kill grace in another unit than it is printed in. -/
def halfMinute : Bytes := lit "output:\n  dir: $LOG.d\nkill_grace: 30000ms\n"

theorem load_print_halfMinute :
    ∃ c, load logOnly halfMinute = .ok c ∧ (∀ s ∈ c.expandedTexts, 0x24 ∉ s) ∧ keeps c.toJson = true ∧
      c.killGrace = ⟨30000000000⟩ ∧ load ⟨[]⟩ (print c.toJson) = .ok c := by
  have hfacts : (load logOnly halfMinute).toOption.map (fun c => (decide (∀ s ∈ c.expandedTexts, 0x24 ∉ s),
      keeps c.toJson, c.killGrace, decide (∀ field ∈ required, field c ≠ []),
      decide (Duration.SingleUnit c.killGrace.nanoseconds.toInt.toNat))) =
      some (true, true, ⟨30000000000⟩, true, true) := by decide +kernel
  obtain ⟨c, hload, hc⟩ := exists_load_eq_ok hfacts
  simp only [Prod.mk.injEq, decide_eq_true_eq] at hc
  obtain ⟨hdollar, hkeeps, hgrace, hpasses⟩ := hc
  exact ⟨c, hload, hdollar, hkeeps, hgrace, (load_print hload hdollar hkeeps ⟨[]⟩).1.mpr hpasses⟩

/-- A kill grace of ninety seconds is accepted, and it is printed in a way that is not. -/
theorem load_ninetySeconds :
    ∃ c, load ⟨[]⟩ (lit "kill_grace: 90s\n") = .ok c ∧ (∀ s ∈ c.expandedTexts, 0x24 ∉ s) ∧
      keeps c.toJson = true ∧ ∃ issues, load ⟨[]⟩ (print c.toJson) = .error issues := by
  have hfacts : (load ⟨[]⟩ (lit "kill_grace: 90s\n")).toOption.map (fun c =>
      (decide (∀ s ∈ c.expandedTexts, 0x24 ∉ s), keeps c.toJson, fitsGrace c.killGrace.text)) =
      some (true, true, false) := by decide +kernel
  obtain ⟨c, hload, hc⟩ := exists_load_eq_ok hfacts
  simp only [Prod.mk.injEq, decide_eq_true_eq] at hc
  obtain ⟨hdollar, hkeeps, hgrace⟩ := hc
  obtain ⟨hversion, -, hnonneg⟩ := settings_of_load hload
  have hpasses : ¬ c.Passes := fun h => Bool.false_ne_true (hgrace.symm.trans h.2.2.2)
  exact ⟨c, hload, hdollar, hkeeps, (load_print_cases hversion hnonneg hdollar hkeeps ⟨[]⟩).2 hpasses⟩

end Config

end CrateAudit
