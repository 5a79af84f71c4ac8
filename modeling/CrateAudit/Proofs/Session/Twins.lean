import CrateAudit.Proofs.Log.Target
import CrateAudit.Proofs.Session.SetUp
import Mathlib.Data.List.Find

/-!
# Sessions that go the same way

Two sessions are twins if nothing tells them apart but what stands in a region, and what programs do
(`Session.Twins`). Setting up a session and reading the list of crates calls no program. So twins have the same
configuration and the same jobs, or fail both, if the paths that they read and write keep clear of the region
(`Setup.ends_findConfig`, `Setup.ends_open`, `Run.ends_readJobs`).
-/

namespace CrateAudit

open Bytes FileTree

variable {α β γ δ : Type} {T : Set Location} {s s' u u' : Session}

/-- Sessions that nothing tells apart but what stands in a region, what programs do, and what was written. -/
structure Session.Twins (T : Set Location) (s s' : Session) : Prop where
  host_eq : s.host = s'.host
  environment_eq : s.world.environment = s'.world.environment
  logging_eq : s.logging = s'.logging
  tree : s.world.tree.Matches Eq (fun _ _ _ => True) T s'.world.tree

namespace Step

/-! ### Two runs -/

/-- Two runs that fail both, or succeed both with what they should. -/
inductive Ends (Q : α → β → Session → Session → Prop) :
    Except Fault α × Session → Except Fault β × Session → Prop where
  | ok {a : α} {b : β} {u u' : Session} (h : Q a b u u') : Ends Q (.ok a, u) (.ok b, u')
  | error (fault fault' : Fault) (u u' : Session) : Ends Q (.error fault, u) (.error fault', u')

variable {Q : α → β → Session → Session → Prop} {R : γ → δ → Session → Session → Prop} {x : Step α} {y : Step β}

/-- Both succeed with what they should, or both fail. -/
theorem Ends.cases {p : Except Fault α × Session} {q : Except Fault β × Session} (h : Ends Q p q) :
    (∃ a b u u', p = (.ok a, u) ∧ q = (.ok b, u') ∧ Q a b u u') ∨
      ∃ fault fault' u u', p = (.error fault, u) ∧ q = (.error fault', u') := by
  cases h with
  | ok h => exact .inl ⟨_, _, _, _, rfl, rfl, h⟩
  | error fault fault' u u' => exact .inr ⟨fault, fault', u, u', rfl, rfl⟩

theorem Ends.bind {f : α → Step γ} {g : β → Step δ} (h : Ends Q (x.run s) (y.run s'))
    (hfg : ∀ a b u u', Q a b u u' → Ends R ((f a).run u) ((g b).run u')) :
    Ends R ((x >>= f).run s) ((y >>= g).run s') := by
  rw [run_bind, run_bind]
  obtain ⟨a, b, u, u', hx, hy, h⟩ | ⟨fault, fault', u, u', hx, hy⟩ := h.cases
  · rw [hx, hy]
    exact hfg a b u u' h
  · rw [hx, hy]
    exact .error fault fault' u u'

theorem Ends.imp {R : α → β → Session → Session → Prop} {p : Except Fault α × Session}
    {q : Except Fault β × Session} (h : Ends Q p q) (himp : ∀ a b u u', Q a b u u' → R a b u u') : Ends R p q := by
  cases h with
  | ok h => exact .ok (himp _ _ _ _ h)
  | error => exact .error _ _ _ _

/-- What runs that succeed have given. -/
theorem Ends.ran (h : Ends Q (x.run s) (y.run s')) :
    Ends (fun a b u u' => Q a b u u' ∧ x.run s = (.ok a, u) ∧ y.run s' = (.ok b, u')) (x.run s) (y.run s') := by
  obtain ⟨a, b, u, u', hx, hy, h⟩ | ⟨fault, fault', u, u', hx, hy⟩ := h.cases
  · rw [hx, hy]
    exact .ok ⟨h, rfl, rfl⟩
  · rw [hx, hy]
    exact .error fault fault' u u'

theorem exists_run_bind_throw (x : Step α) (fault : Fault) (s : Session) :
    ∃ fault' u, (x >>= fun _ => throw fault : Step β).run s = (.error fault', u) := by
  rw [run_bind]
  cases x.run s with
  | mk r u =>
    cases r with
    | ok a => exact ⟨fault, u, rfl⟩
    | error fault' => exact ⟨fault', u, rfl⟩

theorem ends_during (context : Bytes) {S : α → β → Prop} {a : Except Fault α} {b : Except Fault β}
    (h : Compares S a b) (s s' : Session) :
    Ends (fun a b u u' => S a b ∧ u = s ∧ u' = s') ((during context a).run s) ((during context b).run s') := by
  cases h with
  | ok h => exact .ok ⟨h, rfl, rfl⟩
  | error => exact .error _ _ _ _

/-- Twins open the same file. -/
theorem ends_openFile (context : String) {path : Bytes} (h : s.Twins T s')
    (hpath : s.world.tree.Clear T s.world.tree.current path) :
    Ends (fun entry entry' u u' => (∃ P, entry.Kin Eq P entry') ∧ u = s ∧ u' = s')
      ((openFile context path).run s) ((openFile context path).run s') := by
  have hopen := (Matches.lockstep Eq (fun _ _ _ => True) T).openRead h.tree hpath
  unfold openFile
  rw [run_get_bind, run_get_bind]
  refine (ends_during (lit context) (hopen.mapError .file) s s').imp ?_
  rintro entry entry' u u' ⟨⟨place, hentry⟩, hu⟩
  exact ⟨⟨_, hentry⟩, hu⟩

end Step

namespace Setup

open Step

variable {options : CommandLine.Options}

/-! ### The configuration -/

/-- Twins read the same environment file. -/
theorem ends_loadEnvironment (h : s.Twins T s')
    (hpath : s.world.tree.Clear T s.world.tree.current environmentFile) :
    Ends (fun _ _ u u' => u.Twins T u') (loadEnvironment.run s) (loadEnvironment.run s') := by
  have hopen := (Matches.lockstep Eq (fun _ _ _ => True) T).openRead h.tree hpath
  unfold loadEnvironment
  rw [run_get_bind, run_get_bind]
  dsimp only
  obtain ⟨entry, entry', hfound, hfound', place, hentry⟩ | ⟨fault, hfound, hfound'⟩ := hopen.cases
  · rw [hfound, hfound']
    dsimp only
    rw [content_eq_of_kin hentry]
    refine (ends_during _ (Compares.eq_iff.mpr rfl) s s').bind ?_
    rintro content _ _ _ ⟨rfl, rfl, rfl⟩
    refine (ends_during _ (Compares.eq_iff.mpr rfl) _ _).bind ?_
    rintro vars _ _ _ ⟨rfl, rfl, rfl⟩
    exact .ok ⟨h.host_eq, congrArg (EnvironmentFile.extend · vars) h.environment_eq, h.logging_eq, h.tree⟩
  · rw [hfound, hfound']
    dsimp only
    split_ifs
    · exact .error _ _ _ _
    · exact .ok h

theorem isFile_eq (h : s.Twins T s') {path : Bytes} (hpath : s.world.tree.Clear T s.world.tree.current path) :
    isFile s.world.tree path = isFile s'.world.tree path := by
  have hstat := (Matches.lockstep Eq (fun _ _ _ => True) T).stat h.tree hpath
  unfold isFile
  obtain ⟨entry, entry', hfound, hfound', place, hentry⟩ | ⟨fault, hfound, hfound'⟩ := hstat.cases
  · rw [hfound, hfound']
    dsimp only
    rw [hentry.isDirectory_eq]
  · rw [hfound, hfound']

/-- The paths at which the configuration is looked for if nothing names it. -/
def candidates (user : Option Bytes) : List Bytes := (lit "." :: user.toList).map (Path.join · configFile)

/-- Twins find the same configuration file. -/
theorem configPath_eq (h : s.Twins T s') {user : Option Bytes}
    (hpaths : ∀ path ∈ candidates user, s.world.tree.Clear T s.world.tree.current path) :
    configPath s.world options user = configPath s'.world options user := by
  unfold configPath
  rw [h.environment_eq]
  cases s'.world.environment.get? configVariable with
  | some path => rfl
  | none =>
    dsimp only
    split_ifs
    · rfl
    · congr 1
      exact List.find?_congr fun path hpath => isFile_eq h (hpaths path hpath)

/-- Twins load the same configuration. -/
theorem ends_loadConfig {path : Bytes} (h : s.Twins T s') (hs : s.logging = none)
    (hpath : s.world.tree.Clear T s.world.tree.current path) :
    Ends (fun config config' u u' => config = config' ∧ u.Twins T u')
      ((loadConfig path).run s) ((loadConfig path).run s') := by
  unfold loadConfig
  split_ifs
  · exact .ok ⟨rfl, h⟩
  · refine (ends_openFile "opening config file" h hpath).bind ?_
    rintro entry entry' u u' ⟨⟨P, hentry⟩, rfl, rfl⟩
    rw [run_get_bind, run_get_bind, content_eq_of_kin hentry, h.environment_eq]
    dsimp only
    split
    · exact .ok ⟨rfl, h⟩
    · obtain ⟨fault, v, hrun⟩ := exists_run_bind_throw _ _ u
      obtain ⟨fault', v', hrun'⟩ := exists_run_bind_throw _ _ u'
      rw [hrun, hrun']
      exact .error _ _ _ _

/-- The paths that are read to find the configuration. -/
def sources (options : CommandLine.Options) (s : Session) : List Bytes :=
  let user := userDirectory? s.world.environment
  environmentFile :: configPath (loadEnvironment.run s).2.world options user :: candidates user

/-- **Twins find the same configuration.** -/
theorem ends_findConfig (h : s.Twins T s') (hs : s.logging = none)
    (hpaths : ∀ path ∈ sources options s, s.world.tree.Clear T s.world.tree.current path) :
    Ends (fun found found' u u' => found = found' ∧ u.Twins T u')
      ((findConfig options).run s) ((findConfig options).run s') := by
  obtain ⟨henvironment, hconfig, hcandidates⟩ :
      s.world.tree.Clear T s.world.tree.current environmentFile ∧
      s.world.tree.Clear T s.world.tree.current
        (configPath (loadEnvironment.run s).2.world options (userDirectory? s.world.environment)) ∧
      ∀ path ∈ candidates (userDirectory? s.world.environment), s.world.tree.Clear T s.world.tree.current path := by
    simpa only [sources, List.forall_mem_cons] using hpaths
  unfold findConfig
  rw [run_get_bind, run_get_bind, ← h.environment_eq]
  refine (ends_loadEnvironment h henvironment).ran.bind ?_
  rintro _ _ u u' ⟨hu, hrun, -⟩
  have hcalm := calm_loadEnvironment s hs
  rw [hrun] at hcalm hconfig
  dsimp only at hcalm hconfig
  rw [← hcalm.tree_eq] at hconfig hcandidates
  rw [run_get_bind, run_get_bind, ← configPath_eq hu hcandidates]
  refine (ends_loadConfig hu (hcalm.logging_eq.trans hs) hconfig).bind ?_
  rintro config _ v v' ⟨rfl, hv⟩
  exact .ok ⟨rfl, hv⟩

/-! ### Logging -/

/-- Twins log the same lines. -/
theorem twins_logged {target : Log.Target} {logger : Log.Logger} (h : s.Twins T s')
    (hs : s.logging = some (target, logger)) (hclear : target.Clear T s.world.tree) (context : Log.Context)
    (record : Log.Record) : (s.logged context record).Twins T (s'.logged context record) := by
  have hs' : s'.logging = some (target, logger) := h.logging_eq ▸ hs
  refine ⟨?_, ?_, ?_, ?_⟩
  · rw [Session.host_logged, Session.host_logged, h.host_eq]
  · rw [Session.world_logged hs, Session.world_logged hs']
    exact h.environment_eq
  · rw [Session.logging_logged, Session.logging_logged, h.logging_eq]
  · rw [Session.world_logged hs, Session.world_logged hs', h.host_eq]
    dsimp only
    split_ifs
    · exact h.tree
    · exact Log.Target.matches_append (fun _ _ heq => heq ▸ rfl) rfl h.tree hclear

theorem twins_loggedAll {target : Log.Target} {logger : Log.Logger} (h : s.Twins T s')
    (hs : s.logging = some (target, logger)) (hclear : target.Clear T s.world.tree) (context : Log.Context)
    (records : List Log.Record) : (s.loggedAll context records).Twins T (s'.loggedAll context records) := by
  induction records generalizing s s' with
  | nil => exact h
  | cons record records ih =>
    refine ih (twins_logged h hs hclear context record) ((s.logging_logged context record).trans hs) ?_
    rw [Session.world_logged hs]
    dsimp only
    split_ifs
    · exact hclear
    · exact hclear.of_keeps (target.keeps_univ_append _ _)

/-- Twins open the same log. -/
theorem ends_configureLogging (l : Logging) (h : s.Twins T s')
    (hclear : (Log.Target.ofSetting l.target).Clear T s.world.tree) :
    Ends (fun _ _ u u' => u.Twins T u' ∧ ∃ target logger, u.logging = some (target, logger) ∧
      target.Clear T u.world.tree) ((configureLogging l).run s) ((configureLogging l).run s') := by
  have hgrows := grows_prepare (Log.Target.ofSetting l.target) s.world.tree
  obtain ⟨t, t', fault?, hmade, hmade', htree⟩ := (Log.Target.matches_prepare h.tree hclear).exists_eq
  rw [hmade] at hgrows
  rw [run_configureLogging, run_configureLogging, hmade, hmade']
  cases fault? with
  | some fault => exact .error _ _ _ _
  | none => exact .ok ⟨⟨h.host_eq, h.environment_eq, rfl, htree⟩, _, _, rfl, hclear.of_keeps hgrows.keeps⟩

/-- The log that the configuration names keeps clear of a region. -/
def LogClear (D : Set Location) (options : CommandLine.Options) (s : Session) : Prop :=
  ∀ path config u, (findConfig options).run s = (.ok (path, config), u) →
    (Log.Target.ofSetting config.logging.target).Clear D s.world.tree

/-- **Twins are set up** in the same way. -/
theorem ends_setUp (h : s.Twins T s') (hs : s.logging = none)
    (hpaths : ∀ path ∈ sources options s, s.world.tree.Clear T s.world.tree.current path)
    (hlog : LogClear T options s) :
    Ends (fun found found' u u' => found = found' ∧ u.Twins T u')
      ((setUp options).run s) ((setUp options).run s') := by
  rw [setUp_eq]
  refine (ends_findConfig h hs hpaths).ran.bind ?_
  rintro ⟨path, config⟩ _ u u' ⟨⟨rfl, hu⟩, hrun, -⟩
  have hcalm := calm_findConfig options s hs
  rw [hrun] at hcalm
  have hclear : (Log.Target.ofSetting config.logging.target).Clear T u.world.tree :=
    hcalm.tree_eq ▸ hlog path config u hrun
  refine (ends_configureLogging config.logging hu hclear).bind ?_
  rintro _ _ v v' ⟨hv, target, logger, hlogging, hclear⟩
  rw [run_bind, run_bind, run_logAll, run_logAll]
  exact .ok ⟨rfl, twins_loggedAll hv hlogging hclear {} (firstRecords path config)⟩

end Setup

namespace Run

open Step

/-- **Twins read the same jobs.** -/
theorem ends_readJobs {r : Request} (h : s.Twins T s')
    (hlist : s.world.tree.Clear T s.world.tree.current r.list) :
    Ends (fun jobs jobs' u u' => jobs = jobs' ∧ u = s ∧ u' = s') ((readJobs r).run s) ((readJobs r).run s') := by
  refine (ends_openFile "opening crate list" h hlist).bind ?_
  rintro entry entry' u u' ⟨⟨P, hentry⟩, rfl, rfl⟩
  rw [content_eq_of_kin hentry]
  exact ends_during _ (Compares.eq_iff.mpr rfl) u u'

end Run

end CrateAudit
