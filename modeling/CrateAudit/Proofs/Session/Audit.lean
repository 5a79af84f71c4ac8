import CrateAudit.Proofs.Evaluator
import CrateAudit.Proofs.Execution.Region
import CrateAudit.Proofs.Job
import CrateAudit.Proofs.Log.Target
import CrateAudit.Proofs.Report.Artifact
import CrateAudit.Proofs.Session.SetUp

/-!
# An audit at work

Once the jobs of an audit are known, it logs, prints, and evaluates them. Whatever becomes of a job, none of this
fails: an audit that is not canceled has a result for every job and goes on to write the artifacts. If the commands are
confined to a region, the tree has only changed there and by log lines until then (`Run.run_audit`), and at least one
line has been logged.
-/

namespace CrateAudit

open Bytes FileTree

variable {D : Set Location} {s s' s'' : Session} {target : Log.Target} {logger : Log.Logger}

/-! ### Logging and working in a region -/

namespace Session

/-- A session that has come from another one by printing, by logging and by work in a region. -/
structure Wears (D : Set Location) (s s' : Session) : Prop where
  logging_eq : s'.logging = s.logging
  descends : s.world.Descends s'.world
  tree : ∀ {target logger}, s.logging = some (target, logger) → target.Wears D s.world.tree s'.world.tree

theorem Wears.trans (h : s.Wears D s') (h' : s'.Wears D s'') : s.Wears D s'' :=
  ⟨h'.logging_eq.trans h.logging_eq, h.descends.trans h'.descends,
    fun hs => (h.tree hs).trans (h'.tree (h.logging_eq.trans hs))⟩

theorem wears_write (D : Set Location) (s : Session) (stream : Stream) (w : Writing) :
    s.Wears D (s.write stream w) := ⟨rfl, .refl s.world, fun _ => .refl⟩

theorem wears_logged (D : Set Location) (s : Session) (context : Log.Context) (record : Log.Record) :
    s.Wears D (s.logged context record) := by
  cases hs : s.logging with
  | none =>
    have hlogged : s.logged context record = s.write .error (.plainRecord (record.plainLine ++ [newline])) := by
      unfold logged
      rw [hs]
    rw [hlogged]
    exact s.wears_write D _ _
  | some found =>
    obtain ⟨target, logger⟩ := found
    have hwears : target.Wears D s.world.tree (s.logged context record).world.tree := by
      rw [world_logged hs]
      dsimp only
      split_ifs
      · exact .refl
      · exact .line .refl _
    refine ⟨s.logging_logged context record, ⟨hwears.keeps.descends, hwears.keeps.current_eq, ?_⟩, fun hs' => ?_⟩
    · rw [world_logged hs]
    · obtain ⟨rfl, rfl⟩ := Prod.mk.inj (Option.some.inj (hs.symm.trans hs'))
      exact hwears

theorem wears_loggedAll (D : Set Location) (s : Session) (context : Log.Context) (records : List Log.Record) :
    s.Wears D (s.loggedAll context records) := by
  induction records generalizing s with
  | nil => exact ⟨rfl, .refl s.world, fun _ => .refl⟩
  | cons record records ih => exact (s.wears_logged D context record).trans (ih (s.logged context record))

theorem wears_of_keeps {w : World} (h : s.world.Keeps D w) : s.Wears D { s with world := w } :=
  ⟨rfl, h.descends, fun _ => .work .refl h.tree⟩

theorem routine_wears (D : Set Location) : Step.Routine (Wears D) where
  refl s := ⟨rfl, .refl s.world, fun _ => .refl⟩
  trans h h' := h.trans h'
  write := wears_write D
  logged := wears_logged D

end Session

namespace Setup

/-- What setting up a session leaves of the tree. -/
theorem keeps_setUp {options : CommandLine.Options} {path : Bytes} {config : Config} (hs : s.logging = none)
    (h : (setUp options).run s = (.ok (path, config), s')) : s.world.tree.Keeps Set.univ s'.world.tree := by
  obtain ⟨s₁, hopened, rfl⟩ := opened_of_setUp hs h
  have hlogged := (s₁.wears_loggedAll ∅ {} (firstRecords path config)).tree hopened.logging_eq
  exact hopened.grows.tree.keeps.trans hlogged.keeps

end Setup

namespace Run

open Step

variable {config : Config} {r : Request} {jobs : List Job}

/-! ### All jobs -/

/-- The evaluation of a job as the audit sees it. -/
def evaluation (x : Evaluated) : Evaluation := { job := x.1, outcome := x.2.outcome }

/-- Evaluating all jobs gives an outcome for each of them. -/
theorem run_evaluateAll {e : Evaluator} (h : ∀ l ∈ jobs.flatMap e.evaluation, s.world.Confines D l) :
    ∃ evaluated w, (evaluateAll e jobs).run s = (.ok evaluated, { s with world := w }) ∧ s.world.Keeps D w ∧
      evaluated.map (·.1) = jobs ∧ ∀ x ∈ evaluated, x.2.outcome.id = x.1.id := by
  unfold evaluateAll
  induction jobs generalizing s with
  | nil => exact ⟨[], s.world, rfl, .refl D s.world, rfl, fun _ hx => absurd hx List.not_mem_nil⟩
  | cons job jobs ih =>
    rw [List.flatMap_cons, List.forall_mem_append] at h
    obtain ⟨hjob, hjobs⟩ := h
    let x := e.evaluate job none s.world
    have hkeeps : s.world.Keeps D x.2 := Evaluator.keeps_evaluate (hjob _ (by simp [Evaluator.evaluation]))
      (hjob _ (by simp [Evaluator.evaluation]))
    let s' : Session := { s with world := x.2 }
    obtain ⟨evaluated, w, hrun, hkeeps', hmap, hid⟩ :=
      ih (s := s') fun l hl => (hjobs l hl).of_descends hkeeps.descends
    refine ⟨(job, x.1) :: evaluated, w, ?_, hkeeps.trans hkeeps', ?_, ?_⟩
    · rw [List.mapM_cons]
      show ((jobs.mapM fun job => return (job, ← inWorld (e.evaluate job none)) : Step (List Evaluated)) >>=
        fun rest => pure ((job, x.1) :: rest)).run s' = _
      rw [run_bind, hrun]
      rfl
    · rw [List.map_cons, hmap]
    · exact List.forall_mem_cons.mpr ⟨(e.evaluate_consistent job none s.world).id_eq, hid⟩

/-- The audit of the outcomes has a result for every job, in the order of the jobs. -/
theorem exists_report_of_evaluated {workers : Int64} (hworkers : 1 ≤ workers) (mode : Mode) {evaluated : List Evaluated}
    (hjobs : evaluated.map (·.1) = jobs) (hid : ∀ x ∈ evaluated, x.2.outcome.id = x.1.id) (hne : jobs ≠ [])
    (hnodup : (jobs.map (·.id)).Nodup) :
    ∃ report, Audit.run workers mode (evaluated.map evaluation) false = .ok report ∧ report.fault = none ∧
      (report.results.ordered (jobs.map (·.id))).map (·.id) = jobs.map (·.id) := by
  have hids : (evaluated.map evaluation).map (·.job.id) = jobs.map (·.id) := by
    rw [← hjobs, List.map_map, List.map_map]
    rfl
  have hproper : Audit.Proper (evaluated.map evaluation) := by
    refine ⟨hids ▸ hnodup, ?_⟩
    intro e he
    obtain ⟨x, hx, rfl⟩ := List.mem_map.mp he
    exact hid x hx
  obtain ⟨report, hrun, haccounts⟩ := Audit.exists_report_uncanceled mode hworkers
    (by simpa using (hjobs ▸ hne : evaluated.map (·.1) ≠ [])) hproper
    fun e he => by obtain ⟨x, -, rfl⟩ := List.mem_map.mp he; rfl
  refine ⟨report, hrun, ?_, ?_⟩
  · rw [haccounts.fault_eq, if_neg (Nat.lt_irrefl _)]
  · rw [← hids, ResultSet.ordered_eq_map fun e he => haccounts.get?_eq_some hproper he, List.map_map]
    refine List.map_congr_left fun e he => ?_
    exact (e.id_result mode).trans (hproper.named e he)

/-! ### The whole audit -/

/-- The jobs that were read are those of the list, and reading them changes nothing. -/
theorem exists_of_readJobs (h : (readJobs r).run s = (.ok jobs, s')) :
    s' = s ∧ ∃ entry text, s.world.tree.openRead r.list = .ok entry ∧ FileTree.content r.list entry = .ok text ∧
      Job.readList r.dir text = .ok jobs := by
  unfold readJobs openFile at h
  obtain ⟨entry, v, hentry, hlist⟩ := exists_of_run_bind h
  rw [run_get_bind] at hentry
  obtain ⟨hopen, rfl⟩ := of_run_during hentry
  obtain ⟨hjobs, rfl⟩ := of_run_during hlist
  obtain ⟨text, hcontent, hread⟩ := exists_of_bind_eq_ok hjobs
  exact ⟨rfl, entry, text, eq_ok_of_mapError hopen, eq_ok_of_mapError hcontent, hread⟩

/-- What an audit does once its jobs are known. -/
def audit (config : Config) (r : Request) (host : Host) (jobs : List Job) : Step Unit := do
  let context := context host
  for command in [config.analyzer, config.cleanup, config.wrapper] do
    preflight command.path
  log context (Log.record .info "starting evaluation" [.number "jobs" jobs.length,
    .number "workers" r.workers.toInt, .number "timeout" r.seconds.toInt, .text "mode" r.mode.name])
  print (Console.plan jobs.length r.workers.toInt)
  let evaluated ← evaluateAll ⟨config, Duration.ofSeconds r.seconds⟩ jobs
  let report ← (Audit.run r.workers r.mode (evaluated.map evaluation) false)
  for n in report.notices do
    tell context evaluated n
  if let some fault := report.fault then throw fault
  let results := report.results.ordered (jobs.map (·.id))
  log context (Log.record .info "evaluation done" [.text "elapsed" (Duration.text ⟨0⟩)])
  onTree (Artifact.writeAll config.output results (some (bom host r.mode results)))
  print (Console.summary (Summary.ofResults results))

/-- What an audit does once its results are known. -/
def finish (config : Config) (host : Host) (mode : Mode) (results : List Result) : Step Unit := do
  onTree (Artifact.writeAll config.output results (some (bom host mode results)))
  print (Console.summary (Summary.ofResults results))

theorem run_eq (config : Config) (r : Request) :
    run config r = get >>= fun s => readJobs r >>= fun jobs => audit config r s.host jobs := rfl

/-- A record is written from a certain level on, whatever the logger. -/
theorem line_ne_nil (logger : Log.Logger) (now : Bytes) (context : Log.Context) {record : Log.Record}
    (h : Log.Level.info.rank ≤ record.level.rank) : (logger.line now context record).isEmpty = false := by
  have henabled : logger.isEnabled record.level = true := by
    refine decide_eq_true (le_trans ?_ h)
    split
    · decide
    · exact le_rfl
  rw [Log.Logger.line, if_pos henabled]
  simp

/-- **An audit** comes to its artifacts: it has results for its jobs, and the tree has worn by log lines and work in
the region, with one line at least. -/
theorem run_audit (host : Host) (hs : s.logging = some (target, logger)) (hworkers : 1 ≤ r.workers) (hne : jobs ≠ [])
    (hnodup : (jobs.map (·.id)).Nodup)
    (h : ∀ l ∈ jobs.flatMap (Evaluator.evaluation ⟨config, Duration.ofSeconds r.seconds⟩), s.world.Confines D l) :
    ∃ results s' u line, results.map (·.id) = jobs.map (·.id) ∧ target.Wears D s.world.tree u ∧
      s'.world.tree = target.append line u ∧
      (audit config r host jobs).run s = (finish config host r.mode results).run s' := by
  have hR := Session.routine_wears D
  obtain ⟨_, s₁, hrun₁, hs₁⟩ := hR.leads_forEach [config.analyzer, config.cleanup, config.wrapper]
    (fun command => leads_preflight hR command.path) s
  obtain ⟨_, s₂, hrun₂, hs₂⟩ := hR.leads_log (context host) (Log.record .info "starting evaluation"
    [.number "jobs" jobs.length, .number "workers" r.workers.toInt, .number "timeout" r.seconds.toInt,
      .text "mode" r.mode.name]) s₁
  obtain ⟨_, s₃, hrun₃, hs₃⟩ := hR.leads_print (Console.plan jobs.length r.workers.toInt) s₂
  have hfront := (hs₁.trans hs₂).trans hs₃
  -- the commands still write in the region only, since log lines move nothing into it
  obtain ⟨evaluated, w, hrun₄, hkeeps, hjobs, hid⟩ :=
    run_evaluateAll fun l hl => (h l hl).of_descends hfront.descends
  have hs₄ := hfront.trans (Session.wears_of_keeps hkeeps)
  obtain ⟨report, hreport, hfault, hids⟩ := exists_report_of_evaluated hworkers r.mode hjobs hid hne hnodup
  obtain ⟨_, s₅, hrun₅, hs₅⟩ := hR.leads_forEach report.notices
    (fun n => leads_tell hR (context host) evaluated n) { s₃ with world := w }
  have hs' := hs₄.trans hs₅
  let done := Log.record .info "evaluation done" [.text "elapsed" (Duration.text ⟨0⟩)]
  have hline : (logger.line s₅.host.clock (context host) done).isEmpty = false := line_ne_nil _ _ _ (by decide)
  refine ⟨report.results.ordered (jobs.map (·.id)), s₅.logged (context host) done, s₅.world.tree,
    logger.line s₅.host.clock (context host) done, hids, hs'.tree hs, ?_, ?_⟩
  · rw [Session.world_logged (hs'.logging_eq.trans hs), if_neg (by simp [hline])]
  -- what is left is to put the steps together
  · unfold audit
    rw [run_bind, hrun₁]
    dsimp only
    rw [run_bind, hrun₂]
    dsimp only
    rw [run_bind, hrun₃]
    dsimp only
    rw [run_bind, hrun₄]
    dsimp only
    rw [hreport, run_ok_bind, run_bind, hrun₅]
    dsimp only
    rw [hfault]
    rfl

end Run

end CrateAudit
