import CrateAudit.Proofs.Bytes.Order
import CrateAudit.Proofs.Evaluator.Cleanup
import CrateAudit.Proofs.Execution.Region
import CrateAudit.Proofs.Session.Audit

/-!
# Crates that are prepared at the same time

Workers prepare crates at the same time, so the steps of one preparation come between those of another one: its
preprocess command, the look at its markers, and its cleanup. A schedule says whose turn it is (`Course.step`). What a
program does one crate after the other is one of the schedules (`Prepare.run_inTurn`).

If the commands of every crate work in the crate, and no path that a crate is found and judged by leads into another
crate or to the log file (`Independent`), then every crate finds what it would find alone (`Course.Undisturbed`), so all
schedules have the same crates ready (`Independent.ready_eq`).
-/

namespace CrateAudit

open Bytes FileTree

/-- How far the preparation of a crate has come. -/
inductive Stage where
  | waiting
  | preprocessed (x : Execution)
  | judged (ready : Except Fault Bool)
  | finished

/-- Crates on their way, and those that have finished, in the order in which they have. -/
structure Course where
  session : Session
  stage : Job → Stage := fun _ => .waiting
  prepared : List Prepared := []

namespace Course

variable (e : Evaluator) (context : Log.Context)

/-- The next step of a crate. -/
def step (c : Course) (job : Job) : Course :=
  match c.stage job with
  | .waiting =>
    let (x, w) := c.session.world.execute (e.launch e.config.preprocess job) none
    { c with session := { c.session with world := w }, stage := Function.update c.stage job (.preprocessed x) }
  | .preprocessed x =>
    let ready := match x.fault? with
      | some fault => .error fault
      | none => Evaluator.hasMarkers c.session.world.tree job Evaluator.markers
    { c with stage := Function.update c.stage job (.judged ready) }
  | .judged ready =>
    let (after, w) := c.session.world.execute (e.cleanup job) none
    let s : Session := { c.session with world := w }
    { session := (s.loggedAll (Evaluator.context context job) (Evaluator.cleanupRecords after)).loggedAll context
        (Prepared.record? ⟨job, ready⟩).toList
      stage := Function.update c.stage job .finished
      prepared := c.prepared ++ [⟨job, ready⟩] }
  | .finished => c

/-- The course of a schedule. -/
def run (c : Course) (schedule : List Job) : Course := schedule.foldl (step e context) c

/-- Crates that are to be prepared in a session. -/
def start (s : Session) : Course := { session := s }

/-- A schedule in which some crates, and no others, are prepared to the end. -/
structure Completes (s : Session) (jobs schedule : List Job) : Prop where
  only : ∀ job ∈ schedule, job ∈ jobs
  all : ∀ job ∈ jobs, ((start s).run e context schedule).stage job = .finished

/-- The crates that a schedule has ready. -/
def ready (s : Session) (schedule : List Job) : List Bytes :=
  Preparation.ready ⟨((start s).run e context schedule).prepared, false⟩

variable {e context} {c : Course} {job other : Job}

theorem stage_step_of_ne (h : other ≠ job) : (c.step e context job).stage other = c.stage other := by
  unfold step
  split
  · exact Function.update_of_ne h _ _
  · exact Function.update_of_ne h _ _
  · exact Function.update_of_ne h _ _
  · rfl

theorem stage_run_of_finished (h : c.stage job = .finished) (schedule : List Job) :
    (c.run e context schedule).stage job = .finished := by
  induction schedule generalizing c with
  | nil => exact h
  | cons next schedule ih =>
    refine ih ?_
    by_cases hnext : job = next
    · subst hnext
      rw [step, h]
      exact h
    · rw [stage_step_of_ne hnext, h]

end Course

/-! ### One crate after the other -/

namespace Prepare

variable (e : Evaluator) (context : Log.Context)

/-- What preparing a crate gives, and the session that it leaves. -/
theorem run_prepareJob (job : Job) (s : Session) :
    (prepareJob e context job).run s = ((e.prepare job none s.world).1.1,
      (({ s with world := (e.prepare job none s.world).2 } : Session).loggedAll (Evaluator.context context job)
        (e.prepare job none s.world).1.2).loggedAll context
          (Prepared.record? ⟨job, (e.prepare job none s.world).1.1⟩).toList) := by
  have hbind : ∀ {α β : Type} (x : StateM Session α) (f : α → StateM Session β) (s : Session),
      (x >>= f).run s = (f (x.run s).1).run (x.run s).2 := fun _ _ _ => rfl
  have hlogged : ∀ (context : Log.Context) (records : List Log.Record) (s : Session),
      (forIn records PUnit.unit fun r _ => do
        modify (·.logged context r)
        return ForInStep.yield PUnit.unit : StateM Session PUnit).run s =
          (PUnit.unit, s.loggedAll context records) := by
    intro context records s
    induction records generalizing s with
    | nil => rfl
    | cons record records ih =>
      rw [List.forIn_cons]
      exact ih (s.logged context record)
  unfold prepareJob
  rw [hbind]
  dsimp only [StateT.run_modifyGet, Id.run]
  rw [hbind, hlogged, hbind, hlogged]
  rfl

/-- Preparing a crate takes three steps. -/
theorem step_step_step {c : Course} {job : Job} (h : c.stage job = .waiting) :
    ((c.step e context job).step e context job).step e context job =
      { session := ((prepareJob e context job).run c.session).2
        stage := Function.update c.stage job .finished
        prepared := c.prepared ++ [⟨job, ((prepareJob e context job).run c.session).1⟩] } := by
  have h₁ : c.step e context job = { c with
      session := { c.session with world := (c.session.world.execute (e.launch e.config.preprocess job) none).2 }
      stage := Function.update c.stage job
        (.preprocessed (c.session.world.execute (e.launch e.config.preprocess job) none).1) } := by
    rw [Course.step, h]
  rw [run_prepareJob, h₁]
  unfold Course.step
  simp only [Function.update_self, Function.update_idem]
  rfl

/-- Prepares jobs one after the other. -/
def prepareJobs (jobs : List Job) : StateM Session (List Prepared) :=
  jobs.mapM fun job => do return { job, ready := ← prepareJob e context job }

theorem run_prepareJobs_cons (job : Job) (jobs : List Job) (s : Session) :
    let first := (prepareJob e context job).run s
    let others := (prepareJobs e context jobs).run first.2
    (prepareJobs e context (job :: jobs)).run s = (⟨job, first.1⟩ :: others.1, others.2) := by
  unfold prepareJobs
  rw [List.mapM_cons]
  rfl

/-- The schedule of one crate after the other. -/
def inTurn (jobs : List Job) : List Job := jobs.flatMap fun job => [job, job, job]

/-- **Preparing crates one after the other** is a schedule, in which all of them finish. -/
theorem run_inTurn {jobs : List Job} (hnodup : jobs.Nodup) {c : Course} (h : ∀ job ∈ jobs, c.stage job = .waiting) :
    let done := (prepareJobs e context jobs).run c.session
    let c' := c.run e context (inTurn jobs)
    c'.session = done.2 ∧ c'.prepared = c.prepared ++ done.1 ∧ ∀ job ∈ jobs, c'.stage job = .finished := by
  induction jobs generalizing c with
  | nil => exact ⟨rfl, (List.append_nil _).symm, fun _ hjob => absurd hjob List.not_mem_nil⟩
  | cons job jobs ih =>
    obtain ⟨hnew, hnodup⟩ := List.nodup_cons.mp hnodup
    obtain ⟨hjob, hjobs⟩ := List.forall_mem_cons.mp h
    -- the others still wait when the first crate has taken its three steps
    let next := ((c.step e context job).step e context job).step e context job
    have hsteps : next = _ := step_step_step e context hjob
    have hrun : c.run e context (inTurn (job :: jobs)) = next.run e context (inTurn jobs) := rfl
    have hwaiting : ∀ other ∈ jobs, next.stage other = .waiting := by
      intro other hother
      have hne : other ≠ job := fun heq => hnew (heq ▸ hother)
      rw [hsteps]
      exact (Function.update_of_ne hne _ _).trans (hjobs other hother)
    obtain ⟨hsession, hprepared, hfinished⟩ := ih hnodup hwaiting
    have hfirst : next.session = ((prepareJob e context job).run c.session).2 := by rw [hsteps]
    dsimp only
    rw [hrun, run_prepareJobs_cons, ← hfirst]
    refine ⟨hsession, ?_, ?_⟩
    · rw [hprepared, hsteps, List.append_assoc]
      rfl
    · refine List.forall_mem_cons.mpr ⟨Course.stage_run_of_finished ?_ _, hfinished⟩
      rw [hsteps]
      exact Function.update_self _ _ _

end Prepare

/-! ### Crates that keep to themselves -/

/-- The places of a crate in a directory. -/
def Job.places (directory : Location) (job : Job) : Set Location := {place | directory ++ [job.id] <+: place}

instance (directory : Location) (job : Job) : DecidablePred (· ∈ job.places directory) :=
  fun place => inferInstanceAs (Decidable (directory ++ [job.id] <+: place))

theorem Job.disjoint_places {directory : Location} {job other : Job} (h : job.id ≠ other.id) :
    Disjoint (job.places directory) (other.places directory) := by
  rw [Set.disjoint_left]
  intro place hjob hother
  have hboth : directory ++ [job.id] <+: directory ++ [other.id] :=
    List.prefix_of_prefix_length_le hjob hother (by simp)
  have heq := List.append_cancel_left (hboth.eq_of_length (by simp))
  exact h (List.singleton_inj.mp heq)

/-- What a crate has no part in: the other crates of a directory, and the log file. -/
def foreign (directory : Location) (target : Log.Target) (jobs : List Job) (t : FileTree) (job : Job) : Set Location :=
  {place | place ∈ target.places t ∨ ∃ other ∈ jobs, other ≠ job ∧ place ∈ other.places directory}

instance (directory : Location) (target : Log.Target) (jobs : List Job) (t : FileTree) (job : Job) :
    DecidablePred (· ∈ foreign directory target jobs t job) :=
  fun place => inferInstanceAs
    (Decidable (place ∈ target.places t ∨ ∃ other ∈ jobs, other ≠ job ∧ place ∈ other.places directory))

/-- Crates of a directory that keep to themselves: their commands write in them only, the log is not written through
them, and neither the preprocess command nor the markers of a crate are looked for in another one or in the log file. -/
structure Independent (e : Evaluator) (directory : Location) (target : Log.Target) (jobs : List Job) (w : World) :
    Prop where
  log : ∀ job ∈ jobs, target.Clear (job.places directory) w.tree
  commands : ∀ job ∈ jobs, ∀ l ∈ e.preparation job, w.Confines (job.places directory) l
  finds : ∀ job ∈ jobs, w.Finds (fun t path => t.Clear (foreign directory target jobs w.tree job) t.current path)
    (e.launch e.config.preprocess job)
  markers : ∀ job ∈ jobs, ∀ name ∈ Evaluator.markers, w.tree.Clear (foreign directory target jobs w.tree job)
    w.tree.current (Path.join job.dir (lit "target/" ++ name))

variable {e : Evaluator} {context : Log.Context} {directory : Location} {target : Log.Target} {jobs : List Job}
  {w : World} {c : Course} {job other : Job}

theorem Independent.disjoint_foreign (h : Independent e directory target jobs w) (hnodup : (jobs.map (·.id)).Nodup)
    (hjob : job ∈ jobs) : Disjoint (job.places directory) (foreign directory target jobs w.tree job) := by
  rw [Set.disjoint_left]
  rintro place hplace (hlog | ⟨other, hother, hne, hplace'⟩)
  · exact Set.disjoint_left.mp (h.log job hjob).disjoint_places hplace hlog
  · have hids : job.id ≠ other.id := fun heq => hne (List.inj_on_of_nodup_map hnodup hother hjob heq.symm)
    exact Set.disjoint_left.mp (Job.disjoint_places hids) hplace hplace'

/-- What one crate does is foreign to another one. -/
theorem subset_foreign {t u : FileTree} {D : Set Location} (hjob : job ∈ jobs) (hne : job ≠ other) (h : t.Keeps D u) :
    job.places directory ∪ target.places u ⊆ foreign directory target jobs t other := by
  rintro place (hplace | hlog)
  · exact .inr ⟨job, hjob, hne, hplace⟩
  · exact .inl (target.places_subset h hlog)

/-! ### What a crate finds -/

/-- A crate that has found what it would have found alone in a world, and will go on so. -/
def Stage.Alone (e : Evaluator) (w : World) (D : Set Location) (job : Job) (t : FileTree) : Stage → Prop
  | .waiting => w.tree.Agrees D t
  | .preprocessed x =>
    x = (w.execute (e.launch e.config.preprocess job) none).1 ∧
      (w.execute (e.launch e.config.preprocess job) none).2.tree.Agrees D t
  | .judged ready => ready = (e.prepare job none w).1.1
  | .finished => True

theorem Stage.Alone.of_keeps {stage : Stage} {D E : Set Location} {t u : FileTree} (h : stage.Alone e w D job t)
    (hu : t.Keeps E u) (hE : E ⊆ D) : stage.Alone e w D job u := by
  cases stage with
  | waiting => exact h.trans_keeps hu hE
  | preprocessed x => exact ⟨h.1, h.2.trans_keeps hu hE⟩
  | judged ready => exact h
  | finished => trivial

namespace Course

/-- Crates on their way that have found what they would have found alone. -/
structure Undisturbed (e : Evaluator) (directory : Location) (target : Log.Target) (jobs : List Job) (w : World)
    (c : Course) : Prop where
  logging : ∃ logger, c.session.logging = some (target, logger)
  ready : target.Ready c.session.world.tree
  keeps : w.Keeps Set.univ c.session.world
  alone : ∀ job ∈ jobs,
    (c.stage job).Alone e w (foreign directory target jobs w.tree job) job c.session.world.tree

/-- A step of a crate is work in the crate, and logging. -/
theorem wears_step (h : ∀ l ∈ e.preparation job, c.session.world.Confines (job.places directory) l) :
    c.session.Wears (job.places directory) (c.step e context job).session := by
  unfold step
  split
  · exact Session.wears_of_keeps (h _ (by simp [Evaluator.preparation])).keeps_execute
  · exact (Session.routine_wears _).refl _
  · have hkeeps := (h (e.cleanup job) (by simp [Evaluator.preparation])).keeps_execute
    have hcleanup := Session.wears_of_keeps (s := c.session) hkeeps
    exact (hcleanup.trans (Session.wears_loggedAll _ _ _ _)).trans (Session.wears_loggedAll _ _ _ _)
  · exact (Session.routine_wears _).refl _

/-- The crate whose turn it is finds what it would find alone. -/
theorem alone_step (hind : Independent e directory target jobs w) (hnodup : (jobs.map (·.id)).Nodup)
    (hjob : job ∈ jobs) (h : c.Undisturbed e directory target jobs w) :
    ((c.step e context job).stage job).Alone e w (foreign directory target jobs w.tree job) job
      (c.step e context job).session.world.tree := by
  have halone := h.alone job hjob
  cases hstage : c.stage job with
  | waiting =>
    -- neither what the command is found by nor what it writes is foreign, so it does what it would do alone
    rw [hstage] at halone
    obtain ⟨hexecution, hmatches⟩ := (hind.commands job hjob _ (by simp [Evaluator.preparation])).matches_execute
      (hind.disjoint_foreign hnodup hjob) (hind.finds job hjob) halone h.keeps.environment_eq.symm
    simp only [step, hstage, Function.update_self]
    exact ⟨hexecution, hmatches⟩
  | preprocessed x =>
    rw [hstage] at halone
    obtain ⟨rfl, hmatches⟩ := halone
    have hkeeps : w.Keeps (job.places directory) (w.execute (e.launch e.config.preprocess job) none).2 :=
      (hind.commands job hjob _ (by simp [Evaluator.preparation])).keeps_execute
    have hmarkers : Evaluator.hasMarkers (w.execute (e.launch e.config.preprocess job) none).2.tree job
        Evaluator.markers = Evaluator.hasMarkers c.session.world.tree job Evaluator.markers :=
      Evaluator.hasMarkers_eq (Matches.lockstep _ _ _) hmatches job
        fun name hname => hkeeps.tree.clear (hind.markers job hjob name hname)
    simp only [step, hstage, Function.update_self]
    rw [Stage.Alone, Evaluator.ready_prepare]
    exact hmarkers ▸ rfl
  | judged ready =>
    simp only [step, hstage, Function.update_self]
    trivial
  | finished =>
    simp only [step, hstage]
    trivial

/-- **One step** disturbs no crate. -/
theorem Undisturbed.step (hind : Independent e directory target jobs w) (hnodup : (jobs.map (·.id)).Nodup)
    (hjob : job ∈ jobs) (h : c.Undisturbed e directory target jobs w) (context : Log.Context) :
    (c.step e context job).Undisturbed e directory target jobs w := by
  have hwears : c.session.Wears (job.places directory) (c.step e context job).session :=
    wears_step fun l hl => (hind.commands job hjob l hl).of_descends h.keeps.descends
  obtain ⟨logger, hlogging⟩ := h.logging
  have htree := hwears.tree hlogging
  obtain ⟨hkeeps, hready⟩ := htree.keeps_of_ready h.ready ((hind.log job hjob).of_keeps h.keeps.tree)
  refine ⟨⟨logger, hwears.logging_eq.trans hlogging⟩, hready,
    h.keeps.trans ⟨htree.keeps, hwears.descends.environment_eq⟩, fun other hother => ?_⟩
  by_cases hne : other = job
  · subst hne
    exact alone_step hind hnodup hother h
  · -- what the step has changed is foreign to the other crates
    rw [stage_step_of_ne hne]
    exact (h.alone other hother).of_keeps hkeeps (subset_foreign hjob (Ne.symm hne) h.keeps.tree)

/-! ### What has finished -/

/-- The crates that have finished are listed, with what they would have found alone. -/
structure Accounts (e : Evaluator) (jobs : List Job) (w : World) (c : Course) : Prop where
  prepared : ∀ p ∈ c.prepared, p.job ∈ jobs ∧ c.stage p.job = .finished ∧ p.ready = (e.prepare p.job none w).1.1
  finished : ∀ job, c.stage job = .finished → job ∈ c.prepared.map (·.job)
  nodup : (c.prepared.map (·.job)).Nodup

theorem Accounts.prepared_update (h : c.Accounts e jobs w) (hbefore : c.stage job ≠ .finished) (stage : Stage)
    {p : Prepared} (hp : p ∈ c.prepared) :
    p.job ∈ jobs ∧ Function.update c.stage job stage p.job = .finished ∧ p.ready = (e.prepare p.job none w).1.1 := by
  obtain ⟨hmem, hfinished, hready⟩ := h.prepared p hp
  have hne : p.job ≠ job := fun heq => hbefore (heq ▸ hfinished)
  exact ⟨hmem, (Function.update_of_ne hne _ _).trans hfinished, hready⟩

theorem Accounts.update (h : c.Accounts e jobs w) (hbefore : c.stage job ≠ .finished) {stage : Stage}
    (hafter : stage ≠ .finished) (s : Session) :
    Accounts e jobs w { c with session := s, stage := Function.update c.stage job stage } where
  prepared p hp := h.prepared_update hbefore stage hp
  finished other hother := by
    have hne : other ≠ job := by
      rintro rfl
      exact hafter ((Function.update_self _ _ _).symm.trans hother)
    exact h.finished other ((Function.update_of_ne hne _ _).symm.trans hother)
  nodup := h.nodup

theorem Accounts.finish (h : c.Accounts e jobs w) (hjob : job ∈ jobs) (hbefore : c.stage job ≠ .finished)
    (s : Session) :
    Accounts e jobs w
      { session := s
        stage := Function.update c.stage job .finished
        prepared := c.prepared ++ [⟨job, (e.prepare job none w).1.1⟩] } where
  prepared p hp := by
    obtain hp | hp := List.mem_append.mp hp
    · exact h.prepared_update hbefore _ hp
    · obtain rfl := List.mem_singleton.mp hp
      exact ⟨hjob, Function.update_self _ _ _, rfl⟩
  finished other hother := by
    rw [List.map_append, List.mem_append]
    by_cases hne : other = job
    · exact .inr (List.mem_singleton.mpr hne)
    · exact .inl (h.finished other ((Function.update_of_ne hne _ _).symm.trans hother))
  nodup := by
    rw [List.map_append]
    refine h.nodup.append (List.nodup_singleton _) (List.disjoint_singleton.mpr fun hmem => ?_)
    obtain ⟨p, hp, rfl⟩ := List.mem_map.mp hmem
    exact hbefore (h.prepared p hp).2.1

theorem Accounts.step (h : c.Accounts e jobs w) (hjob : job ∈ jobs) (hu : c.Undisturbed e directory target jobs w)
    (context : Log.Context) : (c.step e context job).Accounts e jobs w := by
  have halone := hu.alone job hjob
  unfold Course.step
  cases hstage : c.stage job with
  | waiting => exact h.update (by simp [hstage]) (by simp) _
  | preprocessed x => exact h.update (by simp [hstage]) (by simp) _
  | judged ready =>
    rw [hstage] at halone
    obtain rfl : ready = (e.prepare job none w).1.1 := halone
    exact h.finish hjob (by simp [hstage]) _
  | finished => exact h

/-- **A schedule** disturbs no crate. -/
theorem run_undisturbed (hind : Independent e directory target jobs w) (hnodup : (jobs.map (·.id)).Nodup)
    {schedule : List Job} (honly : ∀ job ∈ schedule, job ∈ jobs) (hu : c.Undisturbed e directory target jobs w)
    (h : c.Accounts e jobs w) (context : Log.Context) : (c.run e context schedule).Accounts e jobs w := by
  induction schedule generalizing c with
  | nil => exact h
  | cons job schedule ih =>
    obtain ⟨hjob, honly⟩ := List.forall_mem_cons.mp honly
    exact ih honly (hu.step hind hnodup hjob context) (h.step hjob hu context)

theorem undisturbed_start {s : Session} {logger : Log.Logger} (hs : s.logging = some (target, logger))
    (hready : target.Ready s.world.tree) : (start s).Undisturbed e directory target jobs s.world :=
  ⟨⟨logger, hs⟩, hready, .refl _ s.world, fun _ _ => FileTree.Agrees.refl _ s.world.tree⟩

/-- All crates have finished, and each with what it would have found alone. -/
theorem Accounts.perm (h : c.Accounts e jobs w) (hnodup : jobs.Nodup) (hall : ∀ job ∈ jobs, c.stage job = .finished) :
    c.prepared.Perm (jobs.map fun job => ⟨job, (e.prepare job none w).1.1⟩) := by
  have hjobs : (c.prepared.map (·.job)).Perm jobs := by
    rw [List.perm_ext_iff_of_nodup h.nodup hnodup]
    intro job
    constructor
    · intro hjob
      obtain ⟨p, hp, rfl⟩ := List.mem_map.mp hjob
      exact (h.prepared p hp).1
    · exact fun hjob => h.finished job (hall job hjob)
  -- what is listed with a crate is determined by the crate
  have hprepared : c.prepared = (c.prepared.map (·.job)).map fun job => ⟨job, (e.prepare job none w).1.1⟩ := by
    rw [List.map_map]
    refine (List.map_id' _).symm.trans (List.map_congr_left fun p hp => ?_)
    rw [Function.comp_apply, ← (h.prepared p hp).2.2]
  rw [hprepared]
  exact hjobs.map _

end Course

/-- **Crates that keep to themselves** are ready or not in every schedule as they would be alone. -/
theorem Independent.ready_eq {s : Session} {logger : Log.Logger} (h : Independent e directory target jobs s.world)
    (hs : s.logging = some (target, logger)) (hready : target.Ready s.world.tree) (hnodup : (jobs.map (·.id)).Nodup)
    {schedule : List Job} (hcompletes : Course.Completes e context s jobs schedule) :
    Course.ready e context s schedule =
      Preparation.ready ⟨jobs.map fun job => ⟨job, (e.prepare job none s.world).1.1⟩, false⟩ := by
  have hstart : (Course.start s).Accounts e jobs s.world :=
    ⟨fun p hp => absurd hp List.not_mem_nil, fun job hjob => (nomatch hjob), List.nodup_nil⟩
  have hend := Course.run_undisturbed h hnodup hcompletes.only (Course.undisturbed_start hs hready) hstart context
  have hperm := hend.perm hnodup.of_map hcompletes.all
  exact sort_eq_of_perm ((hperm.filter _).map _)

end CrateAudit
