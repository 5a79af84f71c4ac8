import CrateAudit.Proofs.Session.Routine

/-!
# The commands of a session

Which commands a session launches can be read off its steps. Most steps launch none: some of them always
succeed (`Step.Still`), others may fail (`Step.Quiet`). What is left are the evaluation of a job and its
preparation, which launch the same commands in every world (`launches_evaluate`, `launches_prepare`). So an
audit launches the commands of its jobs one job after the other (`launches_run`), and so does a preparation
(`launches_prepareAll`), as soon as the jobs are known.
-/

namespace CrateAudit

open Bytes

variable {α β : Type} {l l' : List Launch}

/-! ### Evaluating and preparing one job -/

theorem World.launches_execute (w : World) (launch : Launch) (cancellation : Option Nat) :
    (w.execute launch cancellation).2.launches = w.launches ++ [launch] := by
  unfold execute
  dsimp only
  split
  · rfl
  · split <;> rfl

namespace Evaluator

/-- The commands of an evaluation. -/
def evaluation (e : Evaluator) (job : Job) : List Launch := [e.cleanup job, e.analysis job, e.cleanup job]

/-- The commands of a preparation. -/
def preparation (e : Evaluator) (job : Job) : List Launch :=
  [e.launch e.config.preprocess job, e.cleanup job]

theorem launches_evaluate (e : Evaluator) (job : Job) (cancellation : Option Nat) (w : World) :
    (e.evaluate job cancellation w).2.launches = w.launches ++ e.evaluation job := by
  simp only [evaluate, World.launches_execute, evaluation, List.append_assoc]
  rfl

theorem launches_prepare (e : Evaluator) (job : Job) (cancellation : Option Nat) (w : World) :
    (e.prepare job cancellation w).2.launches = w.launches ++ e.preparation job := by
  simp only [prepare, World.launches_execute, preparation, List.append_assoc]
  rfl

end Evaluator

/-! ### Sessions -/

namespace Session

@[simp]
theorem launches_write (s : Session) (stream : Stream) (w : Writing) :
    (s.write stream w).world.launches = s.world.launches := rfl

@[simp]
theorem launches_withTree (s : Session) (t : FileTree) : (s.withTree t).world.launches = s.world.launches := rfl

@[simp]
theorem launches_logged (s : Session) (context : Log.Context) (record : Log.Record) :
    (s.logged context record).world.launches = s.world.launches := by
  unfold logged
  split
  · rfl
  · dsimp only
    split_ifs
    · rfl
    · split <;> rfl

theorem launches_failed (s : Session) (fault : Fault) : (s.failed fault).world.launches = s.world.launches := by
  unfold failed
  dsimp only
  rw [launches_logged]
  split_ifs <;> rfl

/-- A computation that launches these commands and no others. -/
def Launches (x : StateM Session α) (l : List Launch) : Prop :=
  ∀ s, (x.run s).2.world.launches = s.world.launches ++ l

variable {x : StateM Session α} {f : α → StateM Session β}

theorem launches_pure (a : α) : Launches (pure a) [] := fun s => (List.append_nil s.world.launches).symm

theorem launches_modify {g : Session → Session} (h : ∀ s, (g s).world.launches = s.world.launches) :
    Launches (modify g) [] := by
  intro s
  rw [List.append_nil]
  exact h s

theorem Launches.bind (hx : Launches x l) (hf : ∀ a, Launches (f a) l') : Launches (x >>= f) (l ++ l') := by
  intro s
  calc ((x >>= f).run s).2.world.launches
      = (x.run s).2.world.launches ++ l' := hf (x.run s).1 (x.run s).2
    _ = s.world.launches ++ (l ++ l') := by rw [hx s, List.append_assoc]

/-- A computation behind one that launches nothing. -/
theorem Launches.bind_nil (hx : Launches x []) (hf : ∀ a, Launches (f a) l) : Launches (x >>= f) l :=
  hx.bind hf

/-- A computation in front of one that launches nothing. -/
theorem Launches.bind_of_nil (hx : Launches x l) (hf : ∀ a, Launches (f a) []) : Launches (x >>= f) l := by
  have hbind := hx.bind hf
  rwa [List.append_nil] at hbind

/-- A loop that launches nothing. -/
theorem launches_forIn {as : List α} {b : β} {f : α → β → StateM Session (ForInStep β)}
    (h : ∀ a b, Launches (f a b) []) : Launches (forIn as b f) [] := by
  induction as generalizing b with
  | nil => exact launches_pure b
  | cons a as ih =>
    rw [List.forIn_cons]
    refine (h a b).bind_nil fun r => ?_
    cases r with
    | done b => exact launches_pure b
    | yield b => exact ih

/-- The commands for the elements of a list, one after the other. -/
theorem launches_mapM {as : List α} {g : α → List Launch} (h : ∀ a, Launches (f a) (g a)) :
    Launches (as.mapM f) (as.flatMap g) := by
  induction as with
  | nil => exact launches_pure []
  | cons a as ih =>
    rw [List.mapM_cons, List.flatMap_cons]
    exact (h a).bind fun b => ih.bind_of_nil fun bs => launches_pure (b :: bs)

end Session

/-! ### Steps that launch nothing -/

namespace Step

open Session (Launches)

variable {x : Step α} {f : α → Step β}

/-- A step that succeeds and launches nothing. -/
def Still (x : Step α) : Prop := ∀ s, ∃ a s', x.run s = (.ok a, s') ∧ s'.world.launches = s.world.launches

/-- A step that launches nothing, though it may fail. -/
def Quiet (x : Step α) : Prop := Launches x.run []

theorem Still.quiet (hx : Still x) : Quiet x := by
  intro s
  obtain ⟨a, s', hrun, hlaunches⟩ := hx s
  rw [List.append_nil, ← hlaunches]
  exact congrArg (·.2.world.launches) hrun

theorem still_pure (a : α) : Still (pure a) := fun s => ⟨a, s, rfl, rfl⟩

theorem still_get : Still get := fun s => ⟨s, s, rfl, rfl⟩

theorem still_modify {g : Session → Session} (h : ∀ s, (g s).world.launches = s.world.launches) :
    Still (modify g) := fun s => ⟨(), g s, rfl, h s⟩

theorem routine_still : Routine fun s s' => s'.world.launches = s.world.launches where
  refl _ := rfl
  trans h h' := h'.trans h
  write _ _ _ := rfl
  logged s := s.launches_logged

/-- A loop that does something for each element of a list. -/
theorem still_forEach {as : List α} {g : α → Step Unit} (h : ∀ a, Still (g a)) :
    Still (forIn as PUnit.unit fun a _ => do g a; return .yield PUnit.unit) :=
  routine_still.leads_forEach as h

theorem quiet_throw (fault : Fault) : Quiet (throw fault : Step α) := fun s =>
  (List.append_nil s.world.launches).symm

theorem quiet_lift (r : Except Fault α) : Quiet (liftM r) := fun s => (List.append_nil s.world.launches).symm

/-- A step that succeeds may be followed by any other. -/
theorem Still.launches_bind (hx : Still x) (hf : ∀ a, Launches (f a).run l) : Launches (x >>= f).run l := by
  intro s
  obtain ⟨a, s', hrun, hlaunches⟩ := hx s
  show ((x >>= f).run s).2.world.launches = _
  rw [run_bind, hrun, ← hlaunches]
  exact hf a s'

/-- What follows a step is not done if the step fails, so it must launch nothing. -/
theorem launches_bind_quiet (hx : Launches x.run l) (hf : ∀ a, Quiet (f a)) : Launches (x >>= f).run l := by
  intro s
  have hlaunches := hx s
  show ((x >>= f).run s).2.world.launches = _
  rw [run_bind, ← hlaunches]
  show _ = (x.run s).2.world.launches
  cases x.run s with
  | mk r s' =>
    cases r with
    | ok a => exact (hf a s').trans (List.append_nil _)
    | error fault => rfl

theorem Quiet.bind (hx : Quiet x) (hf : ∀ a, Quiet (f a)) : Quiet (x >>= f) := launches_bind_quiet hx hf

/-- The commands that what a step gave asks for; none if it failed. -/
def asked (g : α → List Launch) : Except Fault α → List Launch
  | .ok a => g a
  | .error _ => []

theorem asked_bind_pure (x : Step α) (h : α → β) (g : β → List Launch) (s : Session) :
    asked g ((x >>= fun a => pure (h a)).run s).1 = asked (fun a => g (h a)) (x.run s).1 := by
  rw [run_bind]
  cases x.run s with
  | mk r s' => cases r <;> rfl

/-- **What is launched behind a step** that launches nothing depends on what the step gives. -/
theorem Quiet.launches_bind_eq (hx : Quiet x) {g : α → List Launch} (hf : ∀ a, Launches (f a).run (g a))
    (s : Session) :
    ((x >>= f).run s).2.world.launches = s.world.launches ++ asked g (x.run s).1 := by
  have hlaunches : (x.run s).2.world.launches = s.world.launches := (hx s).trans (List.append_nil _)
  rw [run_bind, ← hlaunches]
  cases x.run s with
  | mk r s' =>
    cases r with
    | ok a => exact hf a s'
    | error fault => exact (List.append_nil _).symm

/-! ### Writing, logging and files -/

theorem still_print (bs : Bytes) : Still (print bs) := routine_still.leads_print bs

theorem still_log (context : Log.Context) (record : Log.Record) : Still (log context record) :=
  routine_still.leads_log context record

theorem quiet_onTree (f : FileTree → FileTree × Option Fault) : Quiet (onTree f) := by
  have hmodify :
      Quiet (modifyGet fun s => ((f s.world.tree).2, s.withTree (f s.world.tree).1) : Step (Option Fault)) :=
    fun s => (List.append_nil s.world.launches).symm
  refine hmodify.bind fun fault? => ?_
  cases fault? with
  | none => exact (still_pure ()).quiet
  | some fault => exact quiet_throw fault

theorem quiet_during (context : Bytes) (r : Except Fault α) : Quiet (during context r) := by
  cases r with
  | ok a => exact (still_pure a).quiet
  | error fault => exact quiet_throw _

theorem quiet_openFile (context : String) (path : Bytes) : Quiet (openFile context path) :=
  still_get.quiet.bind fun _ => quiet_during _ _

end Step

/-! ### Setting up a session -/

namespace Setup

open Step

theorem quiet_loadEnvironment : Quiet loadEnvironment := by
  refine still_get.quiet.bind fun s => ?_
  dsimp only
  split
  · split_ifs
    · exact quiet_throw _
    · exact (still_pure ()).quiet
  · refine (quiet_during _ _).bind fun content => (quiet_during _ _).bind fun vars => ?_
    exact (still_modify fun _ => rfl).quiet

theorem quiet_loadConfig (path : Bytes) : Quiet (loadConfig path) := by
  unfold loadConfig
  split_ifs
  · exact (still_pure _).quiet
  · refine (quiet_openFile _ _).bind fun entry => still_get.quiet.bind fun s => ?_
    dsimp only
    split
    · exact (still_pure _).quiet
    · exact (still_forEach fun _ => still_log _ _).quiet.bind fun _ => quiet_throw _

theorem quiet_configureLogging (l : Logging) : Quiet (configureLogging l) :=
  (quiet_onTree _).bind fun _ => (still_modify fun _ => rfl).quiet

theorem quiet_setUp (options : CommandLine.Options) : Quiet (setUp options) := by
  refine still_get.quiet.bind fun s => quiet_loadEnvironment.bind fun _ => still_get.quiet.bind fun s' => ?_
  refine (quiet_loadConfig _).bind fun config => (quiet_configureLogging _).bind fun _ => ?_
  exact (still_log _ _).quiet.bind fun _ => (still_log _ _).quiet.bind fun _ => (still_pure _).quiet

end Setup

/-! ### Auditing -/

namespace Run

open Step
open Session (Launches)

theorem quiet_readJobs (r : Request) : Quiet (readJobs r) :=
  (quiet_openFile _ _).bind fun _ => quiet_during _ _

theorem still_preflight (path : Bytes) : Still (preflight path) := leads_preflight routine_still path

theorem still_tell (context : Log.Context) (evaluated : List Evaluated) (n : Notice) :
    Still (tell context evaluated n) := leads_tell routine_still context evaluated n

/-- All jobs are evaluated, each with its commands. -/
theorem launches_evaluateAll (e : Evaluator) (jobs : List Job) :
    Launches (evaluateAll e jobs).run (jobs.flatMap e.evaluation) := by
  unfold evaluateAll
  induction jobs with
  | nil => exact Session.launches_pure _
  | cons job jobs ih =>
    intro s
    -- the session once the first job has been evaluated
    let s' : Session := { s with world := (e.evaluate job none s.world).2 }
    have hfirst : s'.world.launches = s.world.launches ++ e.evaluation job :=
      e.launches_evaluate job none s.world
    rw [List.mapM_cons, List.flatMap_cons, ← List.append_assoc, ← hfirst]
    exact launches_bind_quiet ih (fun _ => (still_pure _).quiet) s'

/-- **An audit** launches the commands of its jobs, if it can read their list. -/
theorem launches_run (config : Config) (r : Request) (s : Session) :
    ((run config r).run s).2.world.launches = s.world.launches ++
      asked (fun jobs => jobs.flatMap (Evaluator.evaluation ⟨config, Duration.ofSeconds r.seconds⟩))
        ((readJobs r).run s).1 := by
  unfold run
  rw [run_get_bind]
  refine (quiet_readJobs r).launches_bind_eq (fun jobs => ?_) s
  refine (still_forEach fun command => still_preflight _).launches_bind fun _ => ?_
  refine (still_log _ _).launches_bind fun _ => (still_print _).launches_bind fun _ => ?_
  refine launches_bind_quiet (launches_evaluateAll _ jobs) fun evaluated => ?_
  refine (quiet_lift _).bind fun report => (still_forEach fun n => still_tell _ _ n).quiet.bind fun _ => ?_
  have hend : ∀ results : List Result, Quiet (do
      log (context s.host) (Log.record .info "evaluation done" [.text "elapsed" (Duration.text ⟨0⟩)])
      onTree (Artifact.writeAll config.output results (some (bom s.host r.mode results)))
      print (Console.summary (Summary.ofResults results))) := by
    intro results
    exact (still_log _ _).quiet.bind fun _ => (quiet_onTree _).bind fun _ => (still_print _).quiet
  cases report.fault with
  | none => exact hend _
  | some fault => exact (quiet_throw fault).bind fun _ => hend _

end Run

/-! ### Preparing -/

namespace Prepare

open Step
open Session (Launches)

theorem quiet_readKnown (path : Bytes) : Quiet (readKnown path) := by
  unfold readKnown
  split_ifs
  · exact (still_pure _).quiet
  · exact (quiet_openFile _ _).bind fun _ => quiet_during _ _

theorem launches_prepareJob (e : Evaluator) (context : Log.Context) (job : Job) :
    Launches (prepareJob e context job) (e.preparation job) := by
  have hprepare : Launches (modifyGet fun s => ((e.prepare job none s.world).1,
      { s with world := (e.prepare job none s.world).2 })) (e.preparation job) :=
    fun s => e.launches_prepare job none s.world
  have hlogged : ∀ (context : Log.Context) (records : List Log.Record),
      Launches (forIn records PUnit.unit fun r _ => do
        modify (·.logged context r)
        return ForInStep.yield PUnit.unit) [] := by
    intro context records
    refine Session.launches_forIn fun r _ => ?_
    refine (Session.launches_modify fun s => s.launches_logged context r).bind_nil fun _ => ?_
    exact Session.launches_pure _
  refine hprepare.bind_of_nil ?_
  rintro ⟨ready, records⟩
  exact (hlogged _ records).bind_nil fun _ => (hlogged context _).bind_nil fun _ => Session.launches_pure ready

theorem launches_preparation {workers : Int64} (hworkers : ¬ workers < 1) (known : List Bytes) (jobs : List Job)
    {prepare : Job → StateM Session (Except Fault Bool)} {g : Job → List Launch}
    (h : ∀ job, Launches (prepare job) (g job)) :
    Launches (Preparation.run workers known jobs false prepare)
      ((Preparation.pending known jobs).flatMap g) := by
  unfold Preparation.run
  rw [if_neg hworkers]
  refine (Session.launches_mapM fun job => ?_).bind_of_nil fun prepared => Session.launches_pure _
  exact (h job).bind_of_nil fun ready => Session.launches_pure _

/-- The jobs of a preparation: those of a directory that are not known. -/
def jobs (r : Request) : Step (List Job) := do
  let jobs ← Job.ofDirectory (← get).world.tree r.dir
  return Preparation.pending (← readKnown r.known) jobs

/-- **A preparation** launches the commands of its jobs, if it can find them. -/
theorem launches_prepareAll (config : Config) {r : Request} (hworkers : ¬ r.workers < 1)
    (hseconds : ¬ r.seconds < 0) (s : Session) :
    ((run config r).run s).2.world.launches = s.world.launches ++
      asked (fun jobs => jobs.flatMap (Evaluator.preparation ⟨config, Duration.ofSeconds r.seconds⟩))
        ((jobs r).run s).1 := by
  unfold run jobs
  rw [if_neg hseconds, run_get_bind, run_get_bind, run_get_bind]
  cases hjobs : Job.ofDirectory s.world.tree r.dir with
  | error fault => exact (List.append_nil s.world.launches).symm
  | ok jobs =>
    rw [run_ok_bind, run_ok_bind, asked_bind_pure]
    refine (quiet_readKnown r.known).launches_bind_eq (fun known => ?_) s
    have hrun := launches_preparation hworkers known jobs
      (launches_prepareJob ⟨config, Duration.ofSeconds r.seconds⟩ (context s.host))
    refine launches_bind_quiet hrun fun prepared => (still_log _ _).quiet.bind fun _ => ?_
    exact (still_forEach fun id => still_print _).quiet.bind fun _ => (still_pure ()).quiet

end Prepare

end CrateAudit
