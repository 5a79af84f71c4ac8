import CrateAudit.Proofs.Evaluator
import CrateAudit.Proofs.Execution
import CrateAudit.Proofs.Session.Launches

/-!
# Cleaning up

Every evaluation and every preparation of a job ends with a cleanup, which no deadline and no cancellation
can keep from running to its end (`World.undisturbed_execute`). What a cleanup reports, or whether it
can be launched at all, has no share in the result: the outcome of an evaluation is judged by the execution
of the analysis alone, and whether a crate is ready is decided when the preprocess command has ended, by the
files that it has left behind.

A cleanup in front of the analysis does change the files that the analysis finds, and it takes time. So the
independence is stated of two worlds in which programs do the same work and may report different things,
except that the analysis (or the preprocess command) itself does the same in both (`Retold`).

Main result: `cleanup_closes`.
-/

namespace CrateAudit

open Bytes

variable {w w' : World} {l : Launch}

/-! ### Commands that nothing interrupts -/

namespace Execution

/-- An execution that neither a deadline nor a cancellation had any part in. -/
structure Undisturbed (x : Execution) : Prop where
  not_interrupted : ∀ cause ending, x.conclusion ≠ .interrupted cause ending
  not_canceled : x.conclusion ≠ .unstarted .canceled

end Execution

/-- Without a cancellation nothing is refused because of one. -/
theorem World.start_ne_canceled (w : World) (l : Launch) (file : Bytes) :
    w.start l file none ≠ .error .canceled := by
  intro hstart
  unfold World.start at hstart
  dsimp only at hstart
  rw [if_neg (by simp)] at hstart
  split at hstart
  · cases hstart
  split at hstart
  · cases hstart
  cases hdirectory : w.workingDirectory l.dir with
  | error _ =>
    rw [hdirectory] at hstart
    cases hstart
  | ok directory =>
    rw [hdirectory] at hstart
    simp only [Except.mapError, bind, Except.bind] at hstart
    cases hplace : (w.tree.inside directory).find true file with
    | error _ =>
      rw [hplace] at hstart
      cases hstart
    | ok found =>
      rw [hplace] at hstart
      dsimp only at hstart
      split at hstart <;> cases hstart

/-- A command without a deadline that is not canceled is left to itself. -/
theorem World.undisturbed_execute (w : World) (hl : l.deadline = none) :
    (w.execute l none).1.Undisturbed := by
  rw [execute_eq]
  cases (w.launched l).executable? l.command.path with
  | none => exact ⟨by simp, by simp⟩
  | some file =>
    dsimp only
    cases hstart : (w.launched l).start l file none with
    | error fault =>
      refine ⟨by simp, ?_⟩
      intro hfault
      refine (w.launched l).start_ne_canceled l file ?_
      rw [hstart, Conclusion.unstarted.inj hfault]
    | ok started =>
      have hended : (l.outlive none started.2).1 = .ended started.2.ending := by
        rw [Launch.outlive, hl, firstInterruption]
      constructor
      · simp [ran, hended]
      · simp [ran, hended]

/-! ### Worlds in which other things are reported -/

/-- Programs do the same work in both worlds; in one call of one program they do the same altogether. -/
def Retold (invocation : Option (Location × Call)) : Comparison := fun place call a a' =>
  a.SameWork a' ∧ (invocation = some (place, call) → a = a')

theorem Retold.execution_eq {invocation : Option (Location × Call)} (h : w.Alike (Retold invocation) w')
    (hl : w.invocation? l = invocation) (cancellation : Option Nat) :
    (w.execute l cancellation).1 = (w'.execute l cancellation).1 := by
  refine h.execution_eq ?_ cancellation
  intro place call a a' hcall haction
  exact haction.2 (hl ▸ hcall)

theorem Retold.execute {invocation : Option (Location × Call)} (h : w.Alike (Retold invocation) w')
    (l : Launch) (cancellation : Option Nat) :
    (w.execute l cancellation).2.Alike (Retold invocation) (w'.execute l cancellation).2 ∧
      (w.execute l cancellation).1.duration = (w'.execute l cancellation).1.duration :=
  h.execute (fun _ _ _ _ haction => haction.1) l cancellation

namespace Evaluator

variable {e : Evaluator} {job : Job} {cancellation : Option Nat}

theorem deadline_cleanup (e : Evaluator) (job : Job) : (e.cleanup job).deadline = none := rfl

/-! ### Evaluating -/

/-- A cleanup that was not launched leaves the analysis as it is. -/
theorem analysis_of_unlaunched
    (h : (w.execute (e.cleanup job) cancellation).1.conclusion = .missing ∨
      ∃ fault, (w.execute (e.cleanup job) cancellation).1.conclusion = .unstarted fault) :
    ((w.execute (e.cleanup job) cancellation).2.execute (e.analysis job)
        (remaining cancellation (w.execute (e.cleanup job) cancellation).1.duration)).1 =
      (w.execute (e.analysis job) cancellation).1 := by
  obtain ⟨hduration, hworld⟩ := World.execute_of_unlaunched h
  have hremaining : remaining cancellation 0 = cancellation := Option.map_id'
  rw [hduration, hworld, hremaining, World.Alike.execution_launched]

/-- Whatever else programs report, the outcome is the same if the analysis does the same. -/
theorem outcome_evaluate_of_retold
    (h : w.Alike (Retold ((w.execute (e.cleanup job) cancellation).2.invocation? (e.analysis job))) w') :
    (e.evaluate job cancellation w').1.outcome = (e.evaluate job cancellation w).1.outcome := by
  obtain ⟨hbefore, hduration⟩ := Retold.execute h (e.cleanup job) cancellation
  rw [outcome_evaluate, outcome_evaluate, ← hduration, Retold.execution_eq hbefore rfl]

/-! ### Preparing -/

theorem ready_prepare (e : Evaluator) (job : Job) (cancellation : Option Nat) (w : World) :
    (e.prepare job cancellation w).1.1 =
      match (w.execute (e.launch e.config.preprocess job) cancellation).1.fault? with
      | some fault => .error fault
      | none => hasMarkers (w.execute (e.launch e.config.preprocess job) cancellation).2.tree job markers :=
  rfl

theorem hasMarkers_eq {F : Bytes → Bytes → Prop} {P : Location → Program → Program → Prop}
    {Q : FileTree → FileTree → Prop} {allowed : FileTree → Bytes → Prop} (L : FileTree.Lockstep F P Q allowed)
    {t t' : FileTree} (h : Q t t') (job : Job) {names : List Bytes}
    (hpaths : ∀ name ∈ names, allowed t (Path.join job.dir (lit "target/" ++ name))) :
    hasMarkers t job names = hasMarkers t' job names := by
  induction names with
  | nil => rfl
  | cons name rest ih =>
    rw [List.forall_mem_cons] at hpaths
    unfold hasMarkers
    obtain ⟨entry, entry', hfound, hfound', -⟩ | ⟨fault, hfound, hfound'⟩ := (L.stat h hpaths.1).cases
    · rw [hfound, hfound']
      exact ih hpaths.2
    · rw [hfound, hfound']

theorem hasMarkers_eq_ok_true_iff (t : FileTree) (job : Job) (names : List Bytes) :
    hasMarkers t job names = .ok true ↔
      ∀ name ∈ names, ∃ entry, t.stat (Path.join job.dir (lit "target/" ++ name)) = .ok entry := by
  induction names with
  | nil => simp [hasMarkers]
  | cons name rest ih =>
    rw [hasMarkers, List.forall_mem_cons]
    cases t.stat (Path.join job.dir (lit "target/" ++ name)) with
    | ok entry => simp [ih]
    | error fault =>
      dsimp only
      split <;> simp

theorem ready_prepare_of_retold
    (h : w.Alike (Retold (w.invocation? (e.launch e.config.preprocess job))) w') :
    (e.prepare job cancellation w').1.1 = (e.prepare job cancellation w).1.1 := by
  obtain ⟨hafter, -⟩ := Retold.execute h (e.launch e.config.preprocess job) cancellation
  rw [ready_prepare, ready_prepare, ← Retold.execution_eq h rfl,
    hasMarkers_eq (FileTree.Alike.lockstep _) hafter.tree job fun _ _ => trivial]

/-- Preparing with another cleanup command gives the same answer. -/
theorem ready_prepare_cleanup (e : Evaluator) (job : Job) (cancellation : Option Nat) (w : World)
    (cleanup : Command) :
    (Evaluator.prepare { e with config := { e.config with cleanup } } job cancellation w).1.1 =
      (e.prepare job cancellation w).1.1 :=
  rfl

/-- A crate is ready if the preprocess command succeeded and has left all markers behind. -/
theorem ready_prepare_eq_ok_true_iff (e : Evaluator) (job : Job) (cancellation : Option Nat) (w : World) :
    (e.prepare job cancellation w).1.1 = .ok true ↔
      (w.execute (e.launch e.config.preprocess job) cancellation).1.conclusion = .ended (.exits 0) ∧
      ∀ name ∈ markers, ∃ entry,
        (w.execute (e.launch e.config.preprocess job) cancellation).2.tree.stat
          (Path.join job.dir (lit "target/" ++ name)) = .ok entry := by
  rw [ready_prepare, ← Execution.fault?_eq_none_iff, ← hasMarkers_eq_ok_true_iff]
  cases (w.execute (e.launch e.config.preprocess job) cancellation).1.fault? with
  | none => simp
  | some fault => simp

/-! ### Both -/

/-- **Cleaning up** closes every job, whatever the commands do and whenever the run is canceled.

An evaluation attempts a cleanup, the analysis (by the wrapper, if there is one) and a cleanup again. The last
one is executed without regard to the cancellation, and nothing interrupts it. The outcome is judged by the
execution of the analysis alone: if the first cleanup cannot be launched, that is the execution that there
would be without it, and if programs report something else anywhere but in the analysis itself, the outcome is
the same.

A preparation attempts the preprocess command and then a cleanup, which nothing interrupts either. The crate
is ready exactly if the preprocess command ended by itself with status zero and both markers are there when it
has ended. The answer is the same if programs report something else anywhere but in the preprocess command,
and with any other cleanup command. -/
theorem cleanup_closes (e : Evaluator) (job : Job) (cancellation : Option Nat) (w : World) :
    let before := w.execute (e.cleanup job) cancellation
    let analysis := before.2.execute (e.analysis job) (remaining cancellation before.1.duration)
    let after := analysis.2.execute (e.cleanup job) none
    let preprocess := w.execute (e.launch e.config.preprocess job) cancellation
    let after' := preprocess.2.execute (e.cleanup job) none
    ((e.evaluate job cancellation w).2.launches =
        w.launches ++ [e.cleanup job, e.analysis job, e.cleanup job] ∧
      (e.analysis job).command = (if e.config.wrapper.path = [] then e.config.analyzer else
        ⟨e.config.wrapper.path, e.config.wrapper.args ++ e.config.analyzer.path :: e.config.analyzer.args,
          e.config.wrapper.env ++ e.config.analyzer.env⟩) ∧
      (e.evaluate job cancellation w).2 = after.2 ∧ after.1.Undisturbed ∧
      (e.evaluate job cancellation w).1.outcome = (e.judge job analysis.1).1 ∧
      ((before.1.conclusion = .missing ∨ ∃ fault, before.1.conclusion = .unstarted fault) →
        analysis.1 = (w.execute (e.analysis job) cancellation).1) ∧
      ∀ w', w.Alike (Retold (before.2.invocation? (e.analysis job))) w' →
        (e.evaluate job cancellation w').1.outcome = (e.evaluate job cancellation w).1.outcome) ∧
    ((e.prepare job cancellation w).2.launches =
        w.launches ++ [e.launch e.config.preprocess job, e.cleanup job] ∧
      (e.prepare job cancellation w).2 = after'.2 ∧ after'.1.Undisturbed ∧
      ((e.prepare job cancellation w).1.1 = .ok true ↔ preprocess.1.conclusion = .ended (.exits 0) ∧
        ∀ name ∈ [lit "entry_points", lit "bitcode_paths"], ∃ entry,
          preprocess.2.tree.stat (Path.join job.dir (lit "target/" ++ name)) = .ok entry) ∧
      (∀ w', w.Alike (Retold (w.invocation? (e.launch e.config.preprocess job))) w' →
        (e.prepare job cancellation w').1.1 = (e.prepare job cancellation w).1.1) ∧
      ∀ cleanup : Command,
        (Evaluator.prepare { e with config := { e.config with cleanup } } job cancellation w).1.1 =
          (e.prepare job cancellation w).1.1) := by
  intro before analysis after preprocess after'
  have hcommand : (e.analysis job).command = (if e.config.wrapper.path = [] then e.config.analyzer else
      ⟨e.config.wrapper.path, e.config.wrapper.args ++ e.config.analyzer.path :: e.config.analyzer.args,
        e.config.wrapper.env ++ e.config.analyzer.env⟩) := by
    simp only [Evaluator.analysis, launch, analysisCommand, isWrapped, Bool.not_eq_true',
      List.isEmpty_eq_false_iff]
    split <;> simp_all
  refine ⟨⟨launches_evaluate e job cancellation w, hcommand, rfl, ?_, outcome_evaluate e job cancellation w,
    analysis_of_unlaunched, fun w' => outcome_evaluate_of_retold⟩,
    launches_prepare e job cancellation w, rfl, ?_, ready_prepare_eq_ok_true_iff e job cancellation w,
    fun w' => ready_prepare_of_retold, ready_prepare_cleanup e job cancellation w⟩
  · exact World.undisturbed_execute _ (deadline_cleanup e job)
  · exact World.undisturbed_execute _ (deadline_cleanup e job)

/-- A world with one crate, a checker that makes the markers and reports a diagnosis, and a cleanup command that
removes the markers, writes something and ends in some way. -/
def workshop (stdout : Bytes) (ending : Ending) : World where
  environment := ⟨[(lit "PATH", lit "/bin")]⟩
  tree := { entries := [
    ([lit "a"], .directory), ([lit "bin"], .directory),
    ([lit "bin", lit "cargo"], .program (.runs fun _ => { stdout, ending, removed := [lit "target"] })),
    ([lit "bin", lit "cargo-ffi-checker"], .program (.runs fun _ =>
      { stdout := lit "leak", files := [lit "target/entry_points", lit "target/bitcode_paths"] }))] }

/-- The default commands, without a wrapper. -/
def unwrapped : Evaluator := ⟨{ wrapper := ⟨[], [], []⟩ }, ⟨5000000000⟩⟩

theorem alike_workshop {invocation : Option (Location × Call)}
    (h : invocation.map Prod.fst = some [lit "bin", lit "cargo-ffi-checker"]) (stdout stdout' : Bytes)
    (ending ending' : Ending) :
    (workshop stdout ending).Alike (Retold invocation) (workshop stdout' ending') := by
  have hsame : ∀ (a : Action) place call, Retold invocation place call a a := by
    intro a place call
    exact ⟨⟨rfl, rfl, rfl, rfl, rfl, rfl⟩, fun _ => rfl⟩
  refine ⟨⟨rfl, .cons ⟨rfl, .directory⟩ (.cons ⟨rfl, .directory⟩ (.cons ⟨rfl, .program (.runs ?_)⟩
    (.cons ⟨rfl, .program (.runs fun call => hsame _ _ call)⟩ .nil)))⟩, rfl⟩
  intro call
  refine ⟨⟨rfl, rfl, rfl, rfl, rfl, rfl⟩, ?_⟩
  rintro rfl
  have hne : ([lit "bin", lit "cargo"] : Location) ≠ [lit "bin", lit "cargo-ffi-checker"] := by decide
  exact absurd (Option.some.inj h) hne

/-- A cleanup that fails and prints something changes neither the outcome of the crate nor whether it is ready,
and it does not take away the markers too early. -/
theorem cleanup_closes_workshop :
    let job : Job := ⟨lit "a", lit "/a"⟩
    (unwrapped.evaluate job none (workshop (lit "oops") (.exits 1))).1.outcome =
        (unwrapped.evaluate job none (workshop [] (.exits 0))).1.outcome ∧
      (unwrapped.evaluate job none (workshop [] (.exits 0))).1.outcome.diagnostics = lit "leak" ∧
      (unwrapped.prepare job none (workshop (lit "oops") (.exits 1))).1.1 =
        (unwrapped.prepare job none (workshop [] (.exits 0))).1.1 ∧
      (unwrapped.prepare job none (workshop [] (.exits 0))).1.1.toOption = some true := by
  intro job
  obtain ⟨⟨-, -, -, -, -, -, hevaluate⟩, -, -, -, -, hprepare, -⟩ :=
    cleanup_closes unwrapped job none (workshop [] (.exits 0))
  exact ⟨hevaluate _ (alike_workshop (by decide +kernel) _ _ _ _), by decide +kernel,
    hprepare _ (alike_workshop (by decide +kernel) _ _ _ _), by decide +kernel⟩

end Evaluator

end CrateAudit
