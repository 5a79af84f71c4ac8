import CrateAudit.Config.Schema
import CrateAudit.Proofs.Duration
import CrateAudit.Proofs.Environment

/-!
# Settings that must not be empty

The paths of the commands, the output directory and the log target must not be empty. A document is
checked for this as it is written, and references to environment variables are replaced afterwards
without a second check. So whether a document is accepted does not depend on the environment (`load_cases`),
and what must not be empty is so after all when nothing but references to missing variables was written.

Main results: `load_required`, which tells exactly when a required setting is empty, and
`load_unset_dir`, a document for which this happens.
-/

namespace CrateAudit.Config

open Bytes Yaml

/-! ### Fields -/

section Fields

variable {α : Type} {path : List Bytes} {trees : List Tree} {fields : List (Label × Tree)}

/-- A field has its default, or a value that its rule admits; a value that breaks the rule leaves it at
its default. -/
theorem leaf_value [DecidableEq α] (rule : Tree → Option α) (fallback : α) (blame : Tree → Tree) :
    (leaf path rule fallback blame trees).value = fallback ∨
      ∃ t ∈ trees, rule t = some (leaf path rule fallback blame trees).value := by
  simp only [leaf]
  split
  · exact .inl rfl
  · split
    · rename_i v _ _ hvalues
      have hv : v ∈ List.filterMap rule _ := hvalues ▸ List.mem_cons_self
      obtain ⟨t', ht', hrule⟩ := List.mem_filterMap.mp hv
      split <;> exact .inr ⟨t', ht', hrule⟩
    · exact .inl rfl

theorem commandPath_value (rule : Tree → Option Bytes) (fallback : Bytes) :
    (commandPath path rule fallback trees).value = fallback ∨
      ∃ t ∈ trees, rule t = some (commandPath path rule fallback trees).value := by
  simp only [commandPath]
  split
  · exact leaf_value rule fallback id
  · exact .inl rfl

/-- What holds of the default of a section, and of whatever is read for it, holds of the section. -/
theorem inSection_value {P : α → Prop} {name : String} {known : List String} {fallback : α}
    {read : List (Label × Tree) → Checked α} (hfallback : P fallback)
    (hread : ∀ inner, P (read inner).value) : P (inSection name known fallback read fields).value := by
  simp only [inSection]
  split
  · exact hread _
  · exact hfallback

/-- A text that must not be empty is not, if its default is not. -/
theorem ne_nil_of_filled? {value fallback : Bytes} (hfallback : fallback ≠ [])
    (h : value = fallback ∨ ∃ t ∈ trees, filled? t = some value) : value ≠ [] := by
  obtain rfl | ⟨t, -, ht⟩ := h
  · exact hfallback
  · simpa using (Option.filter_eq_some_iff.mp ht).2

theorem path_command_ne_nil (name : String) {fallback : Command} (hfallback : fallback.path ≠ []) :
    (command name filled? fallback fields).value.path ≠ [] :=
  inSection_value (P := fun c : Command => c.path ≠ []) hfallback fun _ =>
    ne_nil_of_filled? hfallback (commandPath_value filled? fallback.path)

theorem dir_outputNames_ne_nil {fallback : OutputNames} (hfallback : fallback.dir ≠ []) :
    (outputNames fallback fields).value.dir ≠ [] :=
  inSection_value (P := fun names : OutputNames => names.dir ≠ []) hfallback fun _ =>
    ne_nil_of_filled? hfallback (leaf_value filled? fallback.dir id)

theorem target_loggingSettings_ne_nil {fallback : Logging} (hfallback : fallback.target ≠ []) :
    (loggingSettings fallback fields).value.target ≠ [] :=
  inSection_value (P := fun logging : Logging => logging.target ≠ []) hfallback fun _ =>
    ne_nil_of_filled? hfallback (leaf_value filled? fallback.target id)

end Fields

/-! ### Documents -/

/-- The settings that must not be empty and may refer to environment variables. -/
def required : List (Config → Bytes) :=
  [(·.analyzer.path), (·.preprocess.path), (·.cleanup.path), (·.output.dir), (·.logging.target)]

/-- The required settings are among those that are expanded. -/
theorem required_expand (env : Environment) (c : Config) {field : Config → Bytes} (h : field ∈ required) :
    field (c.expand env) = env.expand (field c) := by
  simp only [required, List.mem_cons, List.not_mem_nil, or_false] at h
  rcases h with rfl | rfl | rfl | rfl | rfl <;> rfl

/-- The required settings are not empty as they are written. -/
theorem required_draft_ne_nil (fields : List (Label × Tree)) (grace : Duration) :
    ∀ field ∈ required, field { (draft fields).value.config with killGrace := grace } ≠ [] := by
  simp only [required, List.forall_mem_cons]
  exact ⟨path_command_ne_nil _ (by decide), path_command_ne_nil _ (by decide),
    path_command_ne_nil _ (by decide), dir_outputNames_ne_nil (by decide),
    target_loggingSettings_ne_nil (by decide), fun _ => (absurd · List.not_mem_nil)⟩

/-- There is no room for a reference in a kill grace. -/
theorem dollar_not_mem_of_grace? {t : Tree} {s : Bytes} (h : grace? t = some s) : 0x24 ∉ s := by
  have hrule := (Option.filter_eq_some_iff.mp h).2
  rw [Bool.and_eq_true, List.contains_iff_mem] at hrule
  have hunits : ∀ unit ∈ graceUnits, 0x24 ∉ unit := by decide
  intro hmem
  -- digits, and then a unit: a dollar sign is in neither
  rw [← @List.takeWhile_append_dropWhile _ isDigit s, List.mem_append] at hmem
  obtain hdigit | hunit := hmem
  · exact absurd (List.mem_takeWhile_imp hdigit) (by decide)
  · exact hunits _ hrule.2 hunit

theorem dollar_not_mem_grace (path : List Bytes) (trees : List Tree) :
    0x24 ∉ (leaf path grace? (Config.killGrace {}).text id trees).value := by
  obtain hvalue | ⟨t, -, ht⟩ := leaf_value grace? (Config.killGrace {}).text id
  · rw [hvalue]
    decide
  · exact dollar_not_mem_of_grace? ht

/-- So the environment has no say in how it is read. -/
theorem read_grace_draft (fields : List (Label × Tree)) (env env' : Environment) :
    Duration.read env (draft fields).value.grace = Duration.read env' (draft fields).value.grace := by
  have hdollar : 0x24 ∉ (draft fields).value.grace := dollar_not_mem_grace _ _
  rw [Duration.read_eq, Duration.read_eq, Environment.expand_eq_self hdollar, Environment.expand_eq_self hdollar]

theorem ofFields_cases (fields : List (Label × Tree)) :
    (∃ issues, ∀ env, ofFields env fields = .error issues) ∨
      ∃ raw : Config, (∀ env, ofFields env fields = .ok (raw.expand env)) ∧
        ∀ field ∈ required, field raw ≠ [] := by
  -- all tests are about the draft, and no environment has a share in it
  by_cases hconflicts : (draft fields).conflicts = []
  · by_cases hunknown : (draft fields).unknown = []
    · have hread : ∀ env, Duration.read env (draft fields).value.grace =
          Duration.read ⟨[]⟩ (draft fields).value.grace := fun env => read_grace_draft fields env _
      cases hgrace : Duration.read ⟨[]⟩ (draft fields).value.grace with
      | error e =>
        exact .inl ⟨[unreadable], fun env => by simp [ofFields, hconflicts, hunknown, hread, hgrace]⟩
      | ok grace =>
        refine .inr ⟨{ (draft fields).value.config with killGrace := grace }, fun env => ?_,
          required_draft_ne_nil fields grace⟩
        simp [ofFields, hconflicts, hunknown, hread, hgrace]
    · exact .inl ⟨(draft fields).unknown, fun env => by simp [ofFields, hconflicts, hunknown]⟩
  · exact .inl ⟨(draft fields).conflicts, fun env => by simp [ofFields, hconflicts]⟩

/-- A document is refused in every environment, or it has settings that each environment only expands. -/
theorem load_cases (bs : Bytes) :
    (∃ issues, ∀ env, load env bs = .error issues) ∨
      ∃ raw : Config, (∀ env, load env bs = .ok (raw.expand env)) ∧ ∀ field ∈ required, field raw ≠ [] := by
  simp only [load]
  cases Yaml.parse bs with
  | error e => exact .inl ⟨_, fun _ => rfl⟩
  | ok trees =>
    match trees with
    | [] => exact ofFields_cases []
    | [.record _ fields] => exact ofFields_cases fields
    | [.scalar ..] => exact .inl ⟨_, fun _ => rfl⟩
    | [.list ..] => exact .inl ⟨_, fun _ => rfl⟩
    | _ :: _ :: _ => exact .inl ⟨_, fun env => by simp only [ofTrees]; rfl⟩

theorem exists_load_eq_ok {α : Type} {env : Environment} {bs : Bytes} {f : Config → α} {a : α}
    (h : (load env bs).toOption.map f = some a) : ∃ c, load env bs = .ok c ∧ f c = a := by
  obtain ⟨c, hc, hf⟩ := Option.map_eq_some_iff.mp h
  cases hload : load env bs with
  | error issues =>
    rw [hload] at hc
    contradiction
  | ok c' =>
    rw [hload] at hc
    exact ⟨c', rfl, Option.some.inj hc ▸ hf⟩

/-- **Required settings**. The settings of an accepted document are the same in every environment but for
the references in them, and the required ones are not empty as they are written. What becomes of them is
not checked again: after the expansion a required setting is empty exactly if nothing was written but
references that are broken, or whose variables are empty or not set. -/
theorem load_required {env : Environment} {bs : Bytes} {c : Config} (h : load env bs = .ok c) :
    ∃ raw : Config, (∀ env', load env' bs = .ok (raw.expand env')) ∧
      ∀ field ∈ required, field raw ≠ [] ∧ (field c = [] ↔ env.Blank (field raw)) := by
  obtain ⟨issues, hissues⟩ | ⟨raw, hraw, hfilled⟩ := load_cases bs
  · rw [hissues] at h
    contradiction
  · obtain rfl : raw.expand env = c := Except.ok.inj ((hraw env).symm.trans h)
    refine ⟨raw, hraw, fun field hfield => ⟨hfilled field hfield, ?_⟩⟩
    rw [required_expand env raw hfield, Environment.expand_eq_nil_iff]

/-- An environment with one variable. -/
def logOnly : Environment := ⟨[(lit "LOG", lit "run.log")]⟩

/-- Settings that are references, one of them to the variable of `logOnly`. -/
def referring : Bytes := lit "output:\n  dir: $UNSET$1\nservice:\n  log: $LOG\n"

theorem load_required_referring :
    ∃ c, load logOnly referring = .ok c ∧ (c.output.dir = [] ∧ c.logging.target = lit "run.log") ∧
      ∃ raw : Config, (∀ env, load env referring = .ok (raw.expand env)) ∧
        ∀ field ∈ required, field raw ≠ [] ∧ (field c = [] ↔ logOnly.Blank (field raw)) := by
  have hfields : (load logOnly referring).toOption.map (fun c => (c.output.dir, c.logging.target)) =
      some ([], lit "run.log") := by decide +kernel
  obtain ⟨c, hload, hc⟩ := exists_load_eq_ok hfields
  exact ⟨c, hload, Prod.mk.inj hc, load_required hload⟩

/-- An empty output directory is refused, and one that is empty in the end is not. -/
theorem load_unset_dir :
    (∃ issues, load ⟨[]⟩ (lit "output:\n  dir: \"\"\n") = .error issues) ∧
      ∃ c, load ⟨[]⟩ (lit "output:\n  dir: $UNSET\n") = .ok c ∧ c.output.dir = [] := by
  refine ⟨?_, exists_load_eq_ok (by decide +kernel)⟩
  have hnone : (load ⟨[]⟩ (lit "output:\n  dir: \"\"\n")).toOption.isNone = true := by decide +kernel
  cases hload : load ⟨[]⟩ (lit "output:\n  dir: \"\"\n") with
  | error issues => exact ⟨issues, rfl⟩
  | ok c =>
    rw [hload] at hnone
    contradiction

end CrateAudit.Config
