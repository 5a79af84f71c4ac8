import CrateAudit.Proofs.Log.Target
import CrateAudit.Proofs.Session.Launches

/-!
# What setting up a session changes

Up to the point where logging is configured, setting up a session only reads: what changes are the environment
and the error stream (`Session.Calm`). Then the directory of the log file is made, and from there on only log lines
are written. So a session whose setting up fails has new directories at most, and one that is set up has log lines
besides (`Setup.setUp_cases`).
-/

namespace CrateAudit

open Bytes FileTree

variable {α β : Type}

namespace Session

/-- A session that differs from another one in its environment and its error stream at most. -/
structure Calm (s s' : Session) : Prop where
  host_eq : s'.host = s.host
  tree_eq : s'.world.tree = s.world.tree
  launches_eq : s'.world.launches = s.world.launches
  calls_eq : s'.world.calls = s.world.calls
  logging_eq : s'.logging = s.logging
  output_eq : s'.stream .output = s.stream .output

theorem Calm.refl (s : Session) : s.Calm s := ⟨rfl, rfl, rfl, rfl, rfl, rfl⟩

theorem Calm.trans {s s' s'' : Session} (h : s.Calm s') (h' : s'.Calm s'') : s.Calm s'' :=
  ⟨h'.host_eq.trans h.host_eq, h'.tree_eq.trans h.tree_eq, h'.launches_eq.trans h.launches_eq,
    h'.calls_eq.trans h.calls_eq, h'.logging_eq.trans h.logging_eq, h'.output_eq.trans h.output_eq⟩

theorem stream_write (s : Session) (stream : Stream) (w : Writing) (other : Stream) :
    (s.write stream w).stream other = s.stream other ++ if stream = other then w.bytes else [] := by
  unfold Session.stream write
  rw [List.filter_append, List.flatMap_append]
  split_ifs with h
  · simp [h]
  · simp [h]

theorem calm_write (s : Session) (w : Writing) : s.Calm (s.write .error w) := by
  refine ⟨rfl, rfl, rfl, rfl, rfl, ?_⟩
  rw [stream_write, if_neg (by decide), List.append_nil]

/-- Before logging is configured, records go to the error stream. -/
theorem calm_logged {s : Session} (hs : s.logging = none) (context : Log.Context) (record : Log.Record) :
    s.Calm (s.logged context record) := by
  unfold logged
  rw [hs]
  exact s.calm_write _

/-- Logging writes to a stream or to the log file, and to nothing else. -/
theorem logged_eq (s : Session) (context : Log.Context) (record : Log.Record) :
    ∃ t written, s.logged context record = { s with world := { s.world with tree := t }, written } ∧
      (t = s.world.tree ∨ ∃ path logger line, s.logging = some (.file path, logger) ∧
        t = (Log.appendLine path line s.world.tree).1) := by
  unfold logged
  split
  · exact ⟨s.world.tree, _, rfl, .inl rfl⟩
  · rename_i target logger hlogging
    dsimp only
    split_ifs
    · exact ⟨s.world.tree, s.written, rfl, .inl rfl⟩
    · cases target with
      | stderr => exact ⟨s.world.tree, _, rfl, .inl rfl⟩
      | stdout => exact ⟨s.world.tree, _, rfl, .inl rfl⟩
      | discard => exact ⟨s.world.tree, s.written, rfl, .inl rfl⟩
      | file path => exact ⟨_, s.written, rfl, .inr ⟨path, logger, _, hlogging, rfl⟩⟩

@[simp]
theorem host_logged (s : Session) (context : Log.Context) (record : Log.Record) :
    (s.logged context record).host = s.host := by
  obtain ⟨t, written, heq, -⟩ := s.logged_eq context record
  rw [heq]

@[simp]
theorem logging_logged (s : Session) (context : Log.Context) (record : Log.Record) :
    (s.logged context record).logging = s.logging := by
  obtain ⟨t, written, heq, -⟩ := s.logged_eq context record
  rw [heq]

/-- Where logging is configured, a record that is written is a line for its target. -/
theorem world_logged {target : Log.Target} {logger : Log.Logger} {s : Session}
    (hs : s.logging = some (target, logger)) (context : Log.Context) (record : Log.Record) :
    (s.logged context record).world = { s.world with
      tree := if (logger.line s.host.clock context record).isEmpty then s.world.tree
        else target.append (logger.line s.host.clock context record) s.world.tree } := by
  unfold logged
  rw [hs]
  dsimp only
  split_ifs
  · rfl
  · cases target <;> rfl

/-- The session after some records were logged. -/
def loggedAll (s : Session) (context : Log.Context) (records : List Log.Record) : Session :=
  records.foldl (fun s record => s.logged context record) s

/-- A session that differs from another one in its environment, its error stream, its logging and new directories
at most. -/
structure Grows (s s' : Session) : Prop where
  host_eq : s'.host = s.host
  tree : s.world.tree.Grows Set.univ s'.world.tree
  launches_eq : s'.world.launches = s.world.launches
  calls_eq : s'.world.calls = s.world.calls
  output_eq : s'.stream .output = s.stream .output

theorem Calm.grows {s s' : Session} (h : s.Calm s') : s.Grows s' :=
  ⟨h.host_eq, h.tree_eq ▸ .refl _ _, h.launches_eq, h.calls_eq, h.output_eq⟩

end Session

namespace Step

/-- A step that only reads, as long as logging is not configured. -/
def Calm (x : Step α) : Prop := ∀ s : Session, s.logging = none → s.Calm (x.run s).2

variable {x : Step α} {f : α → Step β}

theorem calm_pure (a : α) : Calm (pure a) := fun s _ => .refl s

theorem calm_throw (fault : Fault) : Calm (throw fault : Step α) := fun s _ => .refl s

theorem calm_get : Calm (get : Step Session) := fun s _ => .refl s

theorem Calm.bind (hx : Calm x) (hf : ∀ a, Calm (f a)) : Calm (x >>= f) := by
  intro s hs
  have hfirst := hx s hs
  rw [run_bind]
  revert hfirst
  cases x.run s with
  | mk r s' =>
    intro hfirst
    cases r with
    | ok a => exact hfirst.trans (hf a s' (hfirst.logging_eq.trans hs))
    | error fault => exact hfirst

theorem calm_forEach {as : List α} {g : α → Step Unit} (h : ∀ a, Calm (g a)) :
    Calm (forIn as PUnit.unit fun a _ => do g a; return .yield PUnit.unit) := by
  induction as with
  | nil => exact calm_pure _
  | cons a as ih =>
    rw [List.forIn_cons]
    exact ((h a).bind fun _ => calm_pure _).bind fun r => by
      cases r with
      | done b => exact calm_pure b
      | yield b => exact ih

theorem calm_log (context : Log.Context) (record : Log.Record) : Calm (log context record) :=
  fun _ hs => Session.calm_logged hs context record

theorem calm_during (context : Bytes) (r : Except Fault α) : Calm (during context r) := by
  cases r with
  | ok a => exact calm_pure a
  | error fault => exact calm_throw _

theorem run_logAll (context : Log.Context) (records : List Log.Record) (s : Session) :
    (forIn records PUnit.unit fun record _ => do
      log context record
      return ForInStep.yield PUnit.unit : Step PUnit).run s = (.ok PUnit.unit, s.loggedAll context records) := by
  induction records generalizing s with
  | nil => rfl
  | cons record records ih =>
    rw [List.forIn_cons, run_bind]
    exact ih (s.logged context record)

theorem run_onTree (g : FileTree → FileTree × Option Fault) (s : Session) : (onTree g).run s =
    match g s.world.tree with
    | (t, some fault) => (.error fault, s.withTree t)
    | (t, none) => (.ok (), s.withTree t) := by
  -- only what becomes of this tree matters
  have hconst : (onTree g).run s = (onTree fun _ => g s.world.tree).run s := rfl
  rw [hconst]
  cases g s.world.tree with
  | mk t fault? => cases fault? <;> rfl

theorem calm_openFile (context : String) (path : Bytes) : Calm (openFile context path) :=
  calm_get.bind fun _ => calm_during _ _

end Step

namespace Setup

open Step

theorem calm_loadEnvironment : Calm loadEnvironment := by
  refine calm_get.bind fun s => ?_
  dsimp only
  split
  · split_ifs
    · exact calm_throw _
    · exact calm_pure ()
  · refine (calm_during _ _).bind fun content => (calm_during _ _).bind fun vars => ?_
    exact fun s _ => ⟨rfl, rfl, rfl, rfl, rfl, rfl⟩

theorem calm_loadConfig (path : Bytes) : Calm (loadConfig path) := by
  unfold loadConfig
  split_ifs
  · exact calm_pure _
  · refine (calm_openFile _ _).bind fun entry => calm_get.bind fun s => ?_
    dsimp only
    split
    · exact calm_pure _
    · exact (calm_forEach fun _ => calm_log _ _).bind fun _ => calm_throw _

/-- Finds the configuration: its path and what it says together with the flags. -/
def findConfig (options : CommandLine.Options) : Step (Bytes × Config) := do
  let user := userDirectory? (← get).world.environment
  loadEnvironment
  let path := configPath (← get).world options user
  return (path, withOptions (← loadConfig path) options)

/-- The records that are logged first. -/
def firstRecords (path : Bytes) (config : Config) : List Log.Record :=
  [Log.record .debug "crateval run" [.text "configPath" path],
    Log.record .debug "crateval run" [(lit "config", .document config.toJson)]]

theorem setUp_eq (options : CommandLine.Options) : setUp options = do
    let (path, config) ← findConfig options
    configureLogging config.logging
    for record in firstRecords path config do
      log {} record
    return (path, config) := by
  simp [setUp, findConfig, firstRecords]

theorem calm_findConfig (options : CommandLine.Options) : Calm (findConfig options) := by
  refine calm_get.bind fun s => calm_loadEnvironment.bind fun _ => calm_get.bind fun s' => ?_
  exact (calm_loadConfig _).bind fun config => calm_pure _

theorem run_configureLogging (l : Logging) (s : Session) : (configureLogging l).run s =
    match (Log.Target.ofSetting l.target).prepare s.world.tree with
    | (t, some fault) => (.error (.during (lit "opening log output " ++ l.target) (.file fault)), s.withTree t)
    | (t, none) =>
      (.ok (), { s.withTree t with logging := some (Log.Target.ofSetting l.target, { verbose := l.verbose }) }) := by
  rw [configureLogging, run_bind, run_onTree]
  dsimp only
  cases (Log.Target.ofSetting l.target).prepare s.world.tree with
  | mk t fault? => cases fault? <;> rfl

theorem grows_prepare (target : Log.Target) (t : FileTree) : t.Grows Set.univ (target.prepare t).1 := by
  cases target with
  | file path => exact t.grows_univ_makeDirectories _
  | stderr => exact .refl _ t
  | stdout => exact .refl _ t
  | discard => exact .refl _ t

/-- A session whose logging is configured and whose log has no lines yet. -/
structure Opened (config : Config) (s s' : Session) : Prop where
  grows : s.Grows s'
  logging_eq : s'.logging =
    some (Log.Target.ofSetting config.logging.target, { verbose := config.logging.verbose })
  prepared : (Log.Target.ofSetting config.logging.target).prepare s.world.tree = (s'.world.tree, none)

/-- **Setting up a session**: it fails before logging is configured, or logging is configured and the first
records are logged. -/
theorem setUp_cases (options : CommandLine.Options) {s : Session} (hs : s.logging = none) :
    (∃ fault s', (setUp options).run s = (.error fault, s') ∧ s.Grows s' ∧ s'.logging = none) ∨
      ∃ path config s', (setUp options).run s = (.ok (path, config), s'.loggedAll {} (firstRecords path config)) ∧
        Opened config s s' := by
  have hcalm := calm_findConfig options s hs
  rw [setUp_eq, run_bind]
  revert hcalm
  cases (findConfig options).run s with
  | mk r s₁ =>
    intro (hcalm : s.Calm s₁)
    have hnone : s₁.logging = none := hcalm.logging_eq.trans hs
    cases r with
    | error fault => exact .inl ⟨fault, s₁, rfl, hcalm.grows, hnone⟩
    | ok found =>
      obtain ⟨path, config⟩ := found
      dsimp only
      -- from here on the only change is that the log gets its directories
      rw [run_bind, run_configureLogging]
      have hgrows := grows_prepare (Log.Target.ofSetting config.logging.target) s₁.world.tree
      revert hgrows
      cases hprepare : (Log.Target.ofSetting config.logging.target).prepare s₁.world.tree with
      | mk t fault? =>
        intro hgrows
        rw [hcalm.tree_eq] at hgrows
        cases fault? with
        | some fault =>
          exact .inl ⟨_, _, rfl, ⟨hcalm.host_eq, hgrows, hcalm.launches_eq, hcalm.calls_eq, hcalm.output_eq⟩, hnone⟩
        | none =>
          let s₂ : Session := { s₁.withTree t with
            logging := some (Log.Target.ofSetting config.logging.target, { verbose := config.logging.verbose }) }
          refine .inr ⟨path, config, s₂, ?_, ⟨hcalm.host_eq, hgrows, hcalm.launches_eq, hcalm.calls_eq,
            hcalm.output_eq⟩, rfl, hcalm.tree_eq ▸ hprepare⟩
          dsimp only
          rw [run_bind, run_logAll]
          rfl

/-- A session that was set up has its first records logged. -/
theorem opened_of_setUp {options : CommandLine.Options} {s u : Session} {path : Bytes} {config : Config}
    (hs : s.logging = none) (h : (setUp options).run s = (.ok (path, config), u)) :
    ∃ s', Opened config s s' ∧ u = s'.loggedAll {} (firstRecords path config) := by
  obtain ⟨fault, s', hrun, -⟩ | ⟨path', config', s', hrun, hopened⟩ := setUp_cases options hs
  · rw [h] at hrun
    cases hrun
  · rw [h] at hrun
    obtain ⟨heq, rfl⟩ := Prod.mk.inj hrun
    obtain ⟨rfl, rfl⟩ := Prod.mk.inj (Except.ok.inj heq)
    exact ⟨s', hopened, rfl⟩

/-- The configuration of a session is the one that was found. -/
theorem exists_findConfig {options : CommandLine.Options} {s u : Session} {path : Bytes} {config : Config}
    (h : (setUp options).run s = (.ok (path, config), u)) :
    ∃ v, (findConfig options).run s = (.ok (path, config), v) := by
  rw [setUp_eq] at h
  obtain ⟨found, v, hfind, h⟩ := exists_of_run_bind h
  obtain ⟨-, w, -, h⟩ := exists_of_run_bind h
  obtain ⟨-, w', -, h⟩ := exists_of_run_bind h
  obtain rfl : found = (path, config) := Except.ok.inj (congrArg Prod.fst h)
  exact ⟨v, hfind⟩

end Setup

end CrateAudit
