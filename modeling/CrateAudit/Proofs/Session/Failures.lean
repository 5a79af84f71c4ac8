import CrateAudit.Proofs.Session.Audit
import CrateAudit.Proofs.Session.Rejected
import CrateAudit.Proofs.Session.Twins

/-!
# Failures of jobs

What the commands of an audit do decides what its artifacts say, and nothing else: two audits that differ in the
commands only have the same exit status, and their tables have a row for each crate of the list
(`failures_do_not_matter`). The commands may fail in any way or be missing. They must not write where the log and the
artifacts are, and the paths that an audit reads and writes must not lead through them (`Run.Fenced`).

The table is lost if another artifact has the same place, which different names do not rule out
(`table_overwritten`).
-/

namespace CrateAudit

open Bytes FileTree

variable {T D E : Set Location} {s s' u v : Session} {t t' : FileTree}

/-! ### The log -/

namespace Log.Target

/-- The tree with the first line of the log. -/
def begun (target : Target) (t : FileTree) : FileTree := target.append [] (target.prepare t).1

theorem similar_begun {target : Target} (h : t.Similar E t') (hclear : target.Clear E t) :
    (target.begun t).Similar E (target.begun t') := by
  refine similar_append (matches_prepare h hclear).1 ?_ [] []
  exact hclear.of_keeps (Setup.grows_prepare target t).keeps

theorem Clear.mono {target : Target} (h : target.Clear E t) (hD : D ⊆ E) : target.Clear D t := by
  cases target with
  | file path => exact ⟨h.1.mono hD, h.2.mono hD⟩
  | stderr => trivial
  | stdout => trivial
  | discard => trivial

end Log.Target

namespace Run

open Step
open CommandLine (Invocation Options)

variable {options : Options} {list dir : Bytes} {workers seconds : Int64} {mode : Mode}

/-! ### Audits behind a fence -/

/-- An audit whose commands work in a region `D`, off its log and its artifacts, and which reads and writes nothing
through a region `T`. -/
structure Fenced (T D : Set Location) (options : Options) (list dir : Bytes) (workers seconds : Int64) (s : Session) :
    Prop where
  sources : ∀ path ∈ Setup.sources options s, s.world.tree.Clear T s.world.tree.current path
  crates : s.world.tree.Clear T s.world.tree.current list
  log : Setup.LogClear (T ∪ D) options s
  artifacts : ∀ found config u, (Setup.findConfig options).run s = (.ok (found, config), u) →
    ∀ path ∈ config.output.dir :: Artifact.paths config.output,
      s.world.tree.Clear (T ∪ D) s.world.tree.current path
  commands : ∀ config jobs u,
    ((Invocation.run list dir workers seconds).scope options).run s = (.ok (config, jobs), u) →
    ∀ l ∈ jobs.flatMap (Evaluator.evaluation ⟨config, Duration.ofSeconds seconds⟩), u.world.Confines D l

theorem run_scope {config : Config} {found : Bytes} {jobs : List Job}
    (hsetUp : (Setup.setUp options).run s = (.ok (found, config), u))
    (hjobs : (readJobs ⟨list, dir, workers, seconds, mode⟩).run u = (.ok jobs, v)) :
    ((Invocation.run list dir workers seconds).scope options).run s = (.ok (config, jobs), v) := by
  unfold Invocation.scope
  rw [run_bind, hsetUp]
  dsimp only
  rw [run_bind]
  have hjobs' : (readJobs ⟨list, dir, workers, seconds, .lenient⟩).run u = (.ok jobs, v) := hjobs
  rw [hjobs']
  rfl

/-- What is left of the tree when the jobs are known. -/
theorem keeps_scope (hs : s.logging = none) {config : Config} {jobs : List Job}
    (h : ((Invocation.run list dir workers seconds).scope options).run s = (.ok (config, jobs), u)) :
    s.world.tree.Keeps Set.univ u.world.tree := by
  unfold Invocation.scope at h
  obtain ⟨found, v, hsetUp, hscope⟩ := exists_of_run_bind h
  obtain ⟨jobs', w, hjobs, hend⟩ := exists_of_run_bind hscope
  obtain rfl := (exists_of_readJobs hjobs).1
  obtain rfl : w = u := congrArg Prod.snd hend
  exact Setup.keeps_setUp hs hsetUp

/-- **An audit behind a fence** comes to its artifacts, with results for its jobs; outside the fence the tree is as it
was when the log was begun. -/
theorem exists_finish (hs : s.logging = none) (hworkers : 1 ≤ workers)
    (hfenced : Fenced T D options list dir workers seconds s) {config : Config} {found : Bytes} {jobs : List Job}
    (hsetUp : (Setup.setUp options).run s = (.ok (found, config), u))
    (hjobs : (readJobs ⟨list, dir, workers, seconds, mode⟩).run u = (.ok jobs, u)) (host : Host) :
    ∃ results v, results.map (·.id) = jobs.map (·.id) ∧
      ((Log.Target.ofSetting config.logging.target).begun s.world.tree).Similar (T ∪ D) v.world.tree ∧
      s.world.tree.Keeps Set.univ v.world.tree ∧
      (audit config ⟨list, dir, workers, seconds, mode⟩ host jobs).run u = (finish config host mode results).run v := by
  have hscope := run_scope hsetUp hjobs
  obtain ⟨w, hfind⟩ := Setup.exists_findConfig hsetUp
  have hclear := hfenced.log found config w hfind
  obtain ⟨s₁, hopened, rfl⟩ := Setup.opened_of_setUp hs hsetUp
  have hfront := s₁.wears_loggedAll D {} (Setup.firstRecords found config)
  obtain ⟨-, entry, text, -, -, hread⟩ := exists_of_readJobs hjobs
  obtain ⟨seen, -, hne, hseen⟩ := Job.exists_of_readList hread
  obtain ⟨results, v, t, line, hids, hwears, htree, hrun⟩ := run_audit (r := ⟨list, dir, workers, seconds, mode⟩) host
    (hfront.logging_eq.trans hopened.logging_eq) hworkers (by simpa [hseen] using hne)
    (Job.nodup_id_of_readList hread) (hfenced.commands config jobs _ hscope)
  have hwears' := (hfront.tree hopened.logging_eq).trans hwears
  have hgrows := hopened.grows.tree
  refine ⟨results, v, hids, ?_, ?_, hrun⟩
  · rw [htree, Log.Target.begun, hopened.prepared]
    exact hwears'.similar_append Set.subset_union_right (Log.Target.ready_of_prepare hopened.prepared)
      (hclear.of_keeps hgrows.keeps) line
  · rw [htree]
    exact (hgrows.keeps.trans hwears'.keeps).trans (Log.Target.keeps_univ_append _ _ _)

/-! ### What is left of an audit -/

/-- The table of an audit has one row for each crate of the list that was read in a session, in the order of the list,
if the artifacts have different places. -/
def Tabled (list : Bytes) (config : Config) (u : Session) (t : FileTree) : Prop :=
  (Artifact.paths config.output).Pairwise (Artifact.Distinct t) →
    ∃ entry text place content rows, u.world.tree.openRead list = .ok entry ∧ FileTree.content list entry = .ok text ∧
      t.find true (Path.join config.output.dir config.output.table) = .ok (place, .file content) ∧
      Table.read? content = some (Table.header :: rows) ∧ rows.map List.head? = (Job.listed text).map some

theorem run_finish (config : Config) (host : Host) (mode : Mode) (results : List Result) (s : Session) :
    (finish config host mode results).run s =
      match Artifact.writeAll config.output results (some (bom host mode results)) s.world.tree with
      | (t, some fault) => (.error fault, s.withTree t)
      | (t, none) => (.ok (), (s.withTree t).write .output (.text (Console.summary (Summary.ofResults results)))) := by
  unfold finish
  rw [run_bind, run_onTree]
  cases Artifact.writeAll config.output results (some (bom host mode results)) s.world.tree with
  | mk t fault? => cases fault? <;> rfl

theorem tabled_of_writeAll {config : Config} {jobs : List Job} {results : List Result} {b : Bom}
    (hjobs : (readJobs ⟨list, dir, workers, seconds, mode⟩).run u = (.ok jobs, v))
    (hids : results.map (·.id) = jobs.map (·.id))
    (hwrite : Artifact.writeAll config.output results (some b) t = (t', none)) : Tabled list config u t' := by
  intro hdistinct
  obtain ⟨-, entry, text, hopen, hcontent, hread⟩ := exists_of_readJobs hjobs
  obtain ⟨place, hfind⟩ := Artifact.find_table hwrite hdistinct
  refine ⟨entry, text, place, _, results.map Table.fields, hopen, hcontent, hfind, Artifact.read?_table results, ?_⟩
  rw [← Job.map_id_of_readList hread, ← hids, List.map_map, List.map_map]
  rfl

/-- Two audits with the same configuration and the same jobs that both have their tables. -/
def SameEnd (options : Options) (list dir : Bytes) (workers seconds : Int64) (s s' u u' : Session) : Prop :=
  ∃ config jobs v v',
    ((Invocation.run list dir workers seconds).scope options).run s = (.ok (config, jobs), v) ∧
    ((Invocation.run list dir workers seconds).scope options).run s' = (.ok (config, jobs), v') ∧
    Tabled list config v u.world.tree ∧ Tabled list config v' u'.world.tree

/-- **Twins behind a fence** end in the same way. -/
theorem ends_run (h : s.Twins T s') (hs : s.logging = none) (hworkers : 1 ≤ workers)
    (hfenced : Fenced T D options list dir workers seconds s)
    (hfenced' : Fenced T D options list dir workers seconds s') (mode : Config → Mode) :
    Ends (fun _ _ => SameEnd options list dir workers seconds s s')
      ((Setup.setUp options >>= fun found => run found.2 ⟨list, dir, workers, seconds, mode found.2⟩).run s)
      ((Setup.setUp options >>= fun found => run found.2 ⟨list, dir, workers, seconds, mode found.2⟩).run s') := by
  have hlog : Setup.LogClear T options s :=
    fun found config u hfind => (hfenced.log found config u hfind).mono Set.subset_union_left
  refine (Setup.ends_setUp h hs hfenced.sources hlog).ran.bind ?_
  rintro ⟨found, config⟩ _ u u' ⟨⟨rfl, hu⟩, hsetUp, hsetUp'⟩
  have hlist : u.world.tree.Clear T u.world.tree.current list :=
    (Setup.keeps_setUp hs hsetUp).clear hfenced.crates
  rw [run_eq, run_get_bind, run_get_bind]
  refine (ends_readJobs hu hlist).ran.bind ?_
  rintro jobs _ v v' ⟨⟨rfl, rfl, rfl⟩, hjobs, hjobs'⟩
  obtain ⟨results, w, hids, hsimilar, hkeeps, hrun⟩ := exists_finish hs hworkers hfenced hsetUp hjobs v.host
  obtain ⟨results', w', hids', hsimilar', -, hrun'⟩ :=
    exists_finish (h.logging_eq ▸ hs) hworkers hfenced' hsetUp' hjobs' v'.host
  obtain ⟨x, hfind⟩ := Setup.exists_findConfig hsetUp
  -- behind the first line of the log, nothing tells the trees apart outside the fence
  have htrees : w.world.tree.Similar (T ∪ D) w'.world.tree :=
    hsimilar.symm.trans ((Log.Target.similar_begun (h.tree.similar Set.subset_union_left)
      (hfenced.log found config x hfind)).trans hsimilar')
  have hclear : ∀ path ∈ config.output.dir :: Artifact.paths config.output,
      w.world.tree.Clear (T ∪ D) w.world.tree.current path :=
    fun path hpath => hkeeps.clear (hfenced.artifacts found config x hfind path hpath)
  have hfault := Artifact.writeAll_lockstep (Matches.lockstep _ _ (T ∪ D)) (fun _ _ => trivial) htrees
    (hclear _ List.mem_cons_self) (fun path hpath => hclear path (List.mem_cons_of_mem _ hpath)) results results'
    (bom v.host (mode config) results) (bom v'.host (mode config) results')
  rw [hrun, hrun', run_finish, run_finish]
  cases hwrite : Artifact.writeAll config.output results (some (bom v.host (mode config) results)) w.world.tree with
  | mk t fault? =>
    cases hwrite' : Artifact.writeAll config.output results' (some (bom v'.host (mode config) results'))
        w'.world.tree with
    | mk t' fault?' =>
      rw [hwrite, hwrite'] at hfault
      obtain rfl : fault? = fault?' := hfault
      cases fault? with
      | some fault => exact .error _ _ _ _
      | none =>
        exact .ok ⟨config, jobs, v, v', run_scope hsetUp hjobs, run_scope hsetUp' hjobs',
          tabled_of_writeAll hjobs hids hwrite, tabled_of_writeAll hjobs' hids' hwrite'⟩

end Run

open CommandLine (Invocation Options)

/-- The command line of an audit asks for help, or for an audit by one worker at least. -/
theorem CommandLine.eq_run_of_find {args rest : List Bytes} (hfind : find args = .ok (.run, rest))
    {invocation : Invocation} {options : Options} (hread : read args = .ok (invocation, options)) :
    invocation = .help ∨ ∃ list dir workers seconds, invocation = .run list dir workers seconds ∧ 1 ≤ workers := by
  obtain ⟨p, -, ⟨-, hhelp⟩ | ⟨found, hfound, heq⟩⟩ := exists_of_read hfind hread
  · exact .inl hhelp
  · right
    obtain ⟨rfl, rfl⟩ := Prod.mk.inj heq
    have hpositive := positive_of_read hread
    unfold Command.invocation at hfound
    split at hfound
    · obtain ⟨w, -, hfound⟩ := exists_of_bind_eq_ok hfound
      obtain ⟨n, -, hfound⟩ := exists_of_bind_eq_ok hfound
      obtain rfl := Except.ok.inj hfound
      exact ⟨_, _, w, n, rfl, one_le_of_pos hpositive.1⟩
    all_goals simp_all

theorem invoke_of_ends {args : List Bytes} {Q : Session → Session → Prop}
    (h : Step.Ends (fun _ _ => Q) ((perform args).run s) ((perform args).run s')) :
    (invoke args s).1 = (invoke args s').1 ∧ ((invoke args s).1 = 0 → Q (invoke args s).2 (invoke args s').2) := by
  unfold invoke
  obtain ⟨a, b, u, u', hrun, hrun', h⟩ | ⟨fault, fault', u, u', hrun, hrun'⟩ := h.cases
  · rw [hrun, hrun']
    exact ⟨rfl, fun _ => h⟩
  · rw [hrun, hrun']
    exact ⟨rfl, fun hzero => absurd (show (1 : UInt8) = 0 from hzero) (by decide)⟩

/-- An audit of the crates of a list, with one worker and five seconds for each crate. -/
def auditArgs : List Bytes := ["run", "list", "crates", "1", "5"].map lit

/-- A session with one crate and its list, a cleanup command, and something else besides. -/
def bench (others : List (Location × Entry)) : Session :=
  { host := ⟨[], ⟨0⟩, 0, []⟩
    world :=
      { environment := ⟨[(lit "PATH", lit "/bin")]⟩
        tree := { entries := others ++ [
          ([lit "list"], .file (lit "a\n")), ([lit "crates"], .directory), ([lit "crates", lit "a"], .directory),
          ([lit "bin"], .directory),
          ([lit "bin", lit "cargo"], .program (.runs fun _ => { removed := [lit "target"] })),
          ([lit "usr"], .directory), ([lit "usr", lit "bin"], .directory)] } } }

/-- A wrapper that leaves a file in the crate and fails. -/
def wrapper : Location × Entry :=
  ([lit "usr", lit "bin", lit "time"], .program (.runs fun _ => { files := [lit "target/report"], ending := .exits 3 }))

/-- The place of the wrapper. -/
def wrapperPlace : Set Location := {wrapper.1}

/-- The places of the crate. -/
def cratePlaces : Set Location := {place | [lit "crates", lit "a"] <+: place}

instance : DecidablePred (· ∈ wrapperPlace) := fun place => inferInstanceAs (Decidable (place = wrapper.1))

instance : DecidablePred (· ∈ cratePlaces) :=
  fun place => inferInstanceAs (Decidable ([lit "crates", lit "a"] <+: place))

theorem read_auditArgs : CommandLine.read auditArgs = .ok (.run (lit "list") (lit "crates") 1 5, {}) :=
  CommandLine.eq_ok_of_toOption (by decide +kernel)

/-- Without the wrapper the bench is the same elsewhere. -/
theorem twins_bench : (bench [wrapper]).Twins wrapperPlace (bench []) := by
  have hget : ∀ place ∉ wrapperPlace, (bench []).world.tree.get? place = (bench [wrapper]).world.tree.get? place := by
    intro place hplace
    have hne : wrapper.1 ≠ place := fun heq => hplace heq.symm
    unfold FileTree.get?
    split_ifs
    · rfl
    · exact congrArg (Option.map _) (List.find?_cons_of_neg (by simpa using hne)).symm
  have hnone : (bench []).world.tree.get? wrapper.1 = none := Option.isNone_iff_eq_none.mp (by decide +kernel)
  have hkept : ∀ place entry, (bench []).world.tree.get? place = some entry →
      (bench [wrapper]).world.tree.get? place = some entry := by
    intro place entry h
    by_cases hplace : place ∈ wrapperPlace
    · obtain rfl : place = wrapper.1 := hplace
      exact absurd (hnone.symm.trans h) (by simp)
    · rw [← hget place hplace, h]
  have hkeeps : (bench [wrapper]).world.tree.Keeps wrapperPlace (bench []).world.tree :=
    ⟨rfl, hget, fun place _ => hkept place _, fun place _ => hkept place _⟩
  exact ⟨rfl, rfl, rfl, hkeeps.matches (fun _ => rfl) fun _ _ => trivial⟩

/-- The commands on the bench work in the crate. -/
theorem fenced_bench {others : List (Location × Entry)} (h : others = [] ∨ others = [wrapper]) :
    Run.Fenced wrapperPlace cratePlaces {} (lit "list") (lit "crates") 1 5 (bench others) := by
  have hconfig : ((Setup.findConfig {}).run (bench others)).1.toOption = some ([], {}) := by
    obtain rfl | rfl := h <;> decide +kernel
  have hjobs : (((Invocation.run (lit "list") (lit "crates") 1 5).scope {}).run (bench others)).1.toOption =
      some ({}, [⟨lit "a", lit "crates/a"⟩]) := by
    obtain rfl | rfl := h <;> decide +kernel
  have hfound : ∀ found config u, (Setup.findConfig {}).run (bench others) = (.ok (found, config), u) →
      config = {} := by
    intro found config u hrun
    rw [hrun] at hconfig
    exact congrArg Prod.snd (Option.some.inj hconfig)
  refine ⟨?_, ?_, ?_, ?_, ?_⟩
  · obtain rfl | rfl := h <;> decide +kernel
  · obtain rfl | rfl := h <;> decide +kernel
  · intro found config u hrun
    rw [hfound found config u hrun]
    trivial
  · intro found config u hrun
    rw [hfound found config u hrun]
    obtain rfl | rfl := h <;> decide +kernel
  · intro config jobs u hrun l hl
    rw [hrun] at hjobs
    obtain ⟨rfl, rfl⟩ := Prod.mk.inj (Option.some.inj hjobs)
    have hkeeps := Run.keeps_scope (s := bench others) rfl hrun
    have hdir : l.dir = lit "crates/a" := by
      simp only [List.flatMap_singleton, Evaluator.evaluation, List.mem_cons, List.not_mem_nil, or_false] at hl
      obtain rfl | rfl | rfl := hl <;> rfl
    refine World.confines_of_programs hkeeps.descends hkeeps.current_eq ?_
    intro place action hprogram call hcall
    rw [hdir] at hcall
    have hroot : place ≠ [] := by
      rintro rfl
      cases hprogram
    have hmem := mem_entries_of_get? hprogram hroot
    have hcrate : call.directory = [lit "crates", lit "a"] := by
      have hway : ∀ step ∈ (bench others).world.tree.way [] (lit "crates/a"),
          step.2 = true → step.1 = [lit "crates", lit "a"] := by
        obtain rfl | rfl := h <;> decide +kernel
      exact hway _ hcall rfl
    have haction : action = (fun _ => { removed := [lit "target"] }) ∨
        action = fun _ => { files := [lit "target/report"], ending := .exits 3 } := by
      obtain rfl | rfl := h <;> simp [bench, wrapper] at hmem <;> tauto
    rw [hcrate]
    obtain rfl | rfl := haction
    · refine ⟨?_, fun _ hpath => absurd hpath List.not_mem_nil, fun _ hpath => absurd hpath List.not_mem_nil⟩
      intro path hpath step hstep L hL
      obtain rfl := List.mem_singleton.mp hpath
      have hway : ∀ step ∈ (bench others).world.tree.way [lit "crates", lit "a"] (lit "target"),
          step.1 ∈ cratePlaces := by
        obtain rfl | rfl := h <;> decide +kernel
      exact (hway step hstep).trans hL
    · refine ⟨fun _ hpath => absurd hpath List.not_mem_nil, fun _ hpath => absurd hpath List.not_mem_nil, ?_⟩
      intro path hpath
      obtain rfl := List.mem_singleton.mp hpath
      obtain rfl | rfl := h <;> decide +kernel

/-- A configuration in which the narrative has another name than the table, and the same place. -/
def crowded : Location × Entry :=
  ([lit "crateval.yaml"], .file (lit "output:\n  narrative: ./result.csv\n  bom: \"\"\n"))

end CrateAudit
