import CrateAudit.Evaluator
import CrateAudit.Proofs.Audit.Run

/-!
# What a result can say

The fields of an outcome are not independent: a job that timed out has no diagnostics, one with a fault
has no figures, and so on. Nothing checks this when an outcome is built. It holds because there are only
five ways to judge an analysis, each of which fills in its own fields (`judge_cases`). From these comes
what the fields of every outcome say of one another (`Outcome.Consistent`), and with the classification
of its diagnostics what those of every result do (`Result.Consistent`).

Main results: `conclude_evaluate_consistent`, for the result that an audit stores when a job has been
evaluated, and `run_consistent`, for all results of a whole audit.
-/

namespace CrateAudit

/-! ### The fields of an outcome -/

/-- What the fields of the outcome of a job say of one another. -/
structure Outcome.Consistent (job : Job) (o : Outcome) : Prop where
  id_eq : o.id = job.id
  of_timedOut : o.timedOut = true → o.succeeded = false ∧ o.diagnostics = [] ∧
    o.elapsed = Binary64.zero ∧ o.peakKB = 0 ∧ o.fault = none
  of_fault : o.fault ≠ none → o.succeeded = false ∧ o.timedOut = false ∧ o.diagnostics = [] ∧
    o.elapsed = Binary64.zero ∧ o.peakKB = 0
  of_succeeded : o.succeeded = true → o.fault = none ∧ o.timedOut = false
  of_diagnostics : o.diagnostics ≠ [] → o.succeeded = true

/-- What the fields of the result of a job say of one another. -/
structure Result.Consistent (job : Job) (r : Result) : Prop extends
    Outcome.Consistent job r.toOutcome where
  of_classifyFault : r.classifyFault ≠ none → r.succeeded = true ∧ r.counts = {}
  of_counts : r.counts ≠ {} → r.status = .ok
  of_unclassified : r.status = .unclassified → r.succeeded = true
  malformed_iff : r.status = .malformed ↔ ∃ fault, r.fault = some fault ∧ fault.isMalformedUsage = true

namespace Evaluator

variable {e : Evaluator} {job : Job} {x : Execution}

/-- **The five ways to judge an analysis**, each with the whole outcome: it ran into its deadline; it was
not started or was killed; what it used could not be read; it failed; it succeeded. -/
theorem judge_cases (e : Evaluator) (job : Job) (x : Execution) :
    (x.timedOut = true ∧ (e.judge job x).1 = { id := job.id, timedOut := true }) ∨
    (∃ fault, x.fault? = some fault ∧ x.exitCode < 0 ∧
      (e.judge job x).1 = { id := job.id, fault := some fault }) ∨
    (∃ fault, e.usage x = .error fault ∧ (e.judge job x).1 = { id := job.id, fault := some fault }) ∨
    (∃ fault usage, x.fault? = some fault ∧ e.usage x = .ok usage ∧
      (e.judge job x).1 = { id := job.id, elapsed := usage.elapsed, peakKB := usage.peakKB }) ∨
    (∃ usage, x.fault? = none ∧ e.usage x = .ok usage ∧
      (e.judge job x).1 = { id := job.id, elapsed := usage.elapsed, peakKB := usage.peakKB
                            succeeded := true, diagnostics := x.stdout }) := by
  unfold judge
  by_cases ht : x.timedOut = true
  · exact .inl ⟨ht, by rw [if_pos ht]⟩
  rw [if_neg ht]
  cases hf : x.fault? with
  | none =>
    cases hu : e.usage x with
    | error fault => exact .inr (.inr (.inl ⟨fault, rfl, rfl⟩))
    | ok usage => exact .inr (.inr (.inr (.inr ⟨usage, rfl, rfl, rfl⟩)))
  | some fault =>
    by_cases hc : x.exitCode < 0
    · exact .inr (.inl ⟨fault, rfl, hc, by simp only [decide_eq_true hc]⟩)
    · cases hu : e.usage x with
      | error fault => exact .inr (.inr (.inl ⟨fault, rfl, by simp only [decide_eq_false hc]⟩))
      | ok usage => exact .inr (.inr (.inr (.inl ⟨fault, usage, rfl, rfl, by simp only [decide_eq_false hc]⟩)))

theorem judge_consistent (e : Evaluator) (job : Job) (x : Execution) :
    (e.judge job x).1.Consistent job := by
  obtain ⟨-, h⟩ | ⟨_, -, -, h⟩ | ⟨_, -, h⟩ | ⟨_, _, -, -, h⟩ | ⟨_, -, -, h⟩ := judge_cases e job x <;>
    rw [h] <;> constructor <;> simp

/-- The outcome of a job is what its analysis is judged to be. The cleaning in front of it has a share
only in the world that the analysis finds, and in the time that is left. -/
theorem outcome_evaluate (e : Evaluator) (job : Job) (cancellation : Option Nat) (w : World) :
    (e.evaluate job cancellation w).1.outcome =
      (e.judge job ((w.execute (e.cleanup job) cancellation).2.execute (e.analysis job)
        (remaining cancellation (w.execute (e.cleanup job) cancellation).1.duration)).1).1 :=
  rfl

theorem evaluate_consistent (e : Evaluator) (job : Job) (cancellation : Option Nat) (w : World) :
    (e.evaluate job cancellation w).1.outcome.Consistent job := by
  rw [outcome_evaluate]
  exact judge_consistent e job _

end Evaluator

/-! ### The fields of a result -/

/-- What a result adds to an outcome: nothing, or counts, or a fault; and something only if there are
diagnostics. -/
theorem Recorded.cases {mode : Mode} {o : Outcome} {r : Result} (h : Recorded mode o r) :
    (r.counts = {} ∧ r.classifyFault = none) ∨ (o.diagnostics ≠ [] ∧ r.classifyFault = none) ∨
      (o.diagnostics ≠ [] ∧ r.counts = {}) := by
  by_cases hd : o.diagnostics = []
  · exact .inl (h.of_empty hd)
  · cases hc : Diagnosis.classify mode o.diagnostics with
    | ok findings => exact .inr (.inl ⟨hd, (h.of_ok findings hd hc).2⟩)
    | error fault => exact .inr (.inr ⟨hd, (h.of_error fault hd hc).1⟩)

namespace Outcome.Consistent

variable {job : Job} {o : Outcome}

theorem malformed_iff (h : o.Consistent job) :
    o.status = .malformed ↔ ∃ fault, o.fault = some fault ∧ fault.isMalformedUsage = true := by
  unfold status
  cases hf : o.fault with
  | none => split_ifs <;> simp_all
  | some fault =>
    obtain ⟨hs, ht, -⟩ := h.of_fault (by simp [hf])
    simp [hs, ht]

theorem status_eq_ok (h : o.Consistent job) (hs : o.succeeded = true) : o.status = .ok := by
  obtain ⟨hfault, htime⟩ := h.of_succeeded hs
  simp [status, hfault, htime, hs]

theorem status_ne_unclassified (o : Outcome) : o.status ≠ .unclassified := by
  unfold status
  split_ifs <;> simp

/-- The classification of its diagnostics makes a consistent result of a consistent outcome. -/
theorem classified (h : o.Consistent job) (mode : Mode) : (o.classified mode).1.Consistent job := by
  obtain ⟨r, hr⟩ : ∃ r, r = (o.classified mode).1 := ⟨_, rfl⟩
  have hrec : Recorded mode o r := hr ▸ recorded_classified mode o
  rw [← hr]
  obtain rfl := hrec.outcome_eq
  -- whatever is added, there is something to classify only if the job succeeded
  have hadded : r.classifyFault ≠ none → r.succeeded = true ∧ r.counts = {} := by
    intro hc
    obtain ⟨-, hnone⟩ | ⟨-, hnone⟩ | ⟨hd, hcounts⟩ := hrec.cases
    · exact absurd hnone hc
    · exact absurd hnone hc
    · exact ⟨h.of_diagnostics hd, hcounts⟩
  have hstatus : r.classifyFault = none → r.status = r.toOutcome.status := by
    intro hc
    rw [Result.status, hc]
    rfl
  refine ⟨h, hadded, fun hc => ?_, fun hu => ?_, ?_⟩
  · obtain ⟨hcounts, -⟩ | ⟨hd, hnone⟩ | ⟨-, hcounts⟩ := hrec.cases
    · exact absurd hcounts hc
    · rw [hstatus hnone, h.status_eq_ok (h.of_diagnostics hd)]
    · exact absurd hcounts hc
  · refine (hadded fun hnone => ?_).1
    rw [hstatus hnone] at hu
    exact status_ne_unclassified _ hu
  · by_cases hc : r.classifyFault = none
    · rw [hstatus hc]
      exact h.malformed_iff
    · obtain ⟨hfault, -⟩ := h.of_succeeded (hadded hc).1
      simp [Result.status, Option.isSome_iff_ne_none.mpr hc, hfault]

end Outcome.Consistent

/-! ### The results of an audit -/

namespace Audit

open Bytes

variable {mode : Mode} {evaluations : List Evaluation}

/-- **The result of an evaluation**. When a job has been evaluated, with whatever configuration, timeout,
moment of cancellation and behaviour of the commands, the end of its evaluation stores one result for it,
and the fields of this result say of one another what they are meant to say. -/
theorem conclude_evaluate_consistent (e : Evaluator) (job : Job) (cancellation : Option Nat) (w : World)
    (mode : Mode) (time delay : Nat) (cancels : Bool) (s : State)
    (hnew : job.id ∉ s.results.stored.map (·.id)) :
    ∃ r, (conclude mode time
        { job, outcome := (e.evaluate job cancellation w).1.outcome, delay, cancels } s).results.stored =
      s.results.stored ++ [r] ∧ r.Consistent job := by
  have hcons := e.evaluate_consistent job cancellation w
  refine ⟨_, stored_conclude time _ ?_, hcons.classified mode⟩
  rwa [hcons.id_eq]

/-- An evaluator without a wrapper. -/
def unwrapped : Evaluator where
  config := { analyzer := ⟨lit "/analyze", [], []⟩, wrapper := ⟨[], [], []⟩ }
  timeout := ⟨0⟩

/-- A crate with a leak. -/
def leakyCrate : Job := ⟨lit "leaky", lit "/"⟩

/-- A world with nothing but an analyzer, which reports the leak without its severity. -/
def leakyWorld : World where
  tree := { entries := [([lit "analyze"], .program (.runs fun _ => { stdout := lit "leak" }))] }
  environment := ⟨[]⟩

/-- The audit of the leaky crate at its end. -/
def leakyState : State :=
  conclude .strict 1
    { job := leakyCrate, outcome := (unwrapped.evaluate leakyCrate none leakyWorld).1.outcome }
    { progress := { total := 1 } }

/-- The cleanup command is missing and the leak is not rated, so that the strict mode refuses it. -/
theorem conclude_evaluate_consistent_leakyCrate :
    leakyCrate.id ∉ ([] : List Result).map (·.id) ∧
      ∃ r, leakyState.results.stored = [r] ∧ r.Consistent leakyCrate ∧ r.status = .unclassified := by
  have hnew : leakyCrate.id ∉ ([] : List Result).map (·.id) := List.not_mem_nil
  obtain ⟨r, hstored, hcons⟩ := conclude_evaluate_consistent unwrapped leakyCrate none leakyWorld
    .strict 1 0 false { progress := { total := 1 } } hnew
  have hstatus : leakyState.results.stored.map Result.status = [.unclassified] := by decide +kernel
  have hone : leakyState.results.stored = [r] := hstored
  rw [hone, List.map_singleton, List.singleton_inj] at hstatus
  exact ⟨hnew, r, hone, hcons, hstatus⟩

/-- A name that has a result keeps it. -/
theorem stored_conclude_of_mem {s : State} (time : Nat) (ev : Evaluation)
    (h : ev.outcome.id ∈ s.results.stored.map (·.id)) :
    (conclude mode time ev s).results.stored = s.results.stored := by
  have hput : s.results.put (ev.result mode) = .error (.duplicateResult (ev.result mode).id) := by
    obtain ⟨r', hget⟩ := Option.ne_none_iff_exists'.mp fun hnone =>
      ResultSet.get?_eq_none_iff.mp hnone (ev.id_result mode ▸ h)
    rw [ResultSet.put, hget]
  rw [conclude_eq, hput]

/-- One event stores at most the result of an evaluation. -/
theorem mem_stored_step {s : State} {event : Event} {r : Result}
    (hr : r ∈ (step mode evaluations s event).results.stored) :
    r ∈ s.results.stored ∨ ∃ ev ∈ evaluations, r = ev.result mode := by
  obtain ⟨ev, -, -, hs⟩ | ⟨ev, time, -, he, hs⟩ | ⟨-, -, hs⟩ := @step_cases mode evaluations s event <;>
    rw [hs] at hr
  · exact .inl hr
  · by_cases hmem : ev.outcome.id ∈ s.results.stored.map (·.id)
    · rw [stored_conclude_of_mem time ev hmem] at hr
      exact .inl hr
    · rw [stored_conclude time ev hmem, List.mem_append, List.mem_singleton] at hr
      exact hr.imp_right fun heq => ⟨ev, mem_of_ended? he, heq⟩
  · exact .inl hr

/-- Whatever is stored after some events is the result of an evaluation. -/
theorem mem_stored_after {total : Int64} {events : List Event} {r : Result}
    (hr : r ∈ (after mode evaluations total events).results.stored) :
    ∃ ev ∈ evaluations, r = ev.result mode := by
  induction events using List.reverseRecOn with
  | nil => simp [after] at hr
  | append_singleton events event ih =>
    rw [after_concat] at hr
    exact (mem_stored_step hr).elim ih id

/-- Whatever an audit stores is the result of an evaluation. -/
theorem mem_stored_run {workers : Int64} {canceled : Bool} {report : Report} {r : Result}
    (hrun : run workers mode evaluations canceled = .ok report) (hr : r ∈ report.results.stored) :
    ∃ ev ∈ evaluations, r = ev.result mode := by
  -- a run that ends in a report has a worker and a job
  have hw : ¬ workers < 1 := fun h => by simp [run, h] at hrun
  have hne : evaluations ≠ [] := by
    rintro rfl
    simp [run, hw] at hrun
  rw [run_eq_ok (Int64.not_lt.mp hw) hne _ rfl _ rfl] at hrun
  obtain rfl := Except.ok.inj hrun
  exact mem_stored_after hr

/-- **The results of an audit**. Whatever an audit of evaluated jobs stores, canceled or not and even if
names of jobs occur twice, the fields of each result say of one another what they are meant to say. -/
theorem run_consistent {workers : Int64} {canceled : Bool} {report : Report}
    (hev : ∀ ev ∈ evaluations, ∃ (e : Evaluator) (cancellation : Option Nat) (w : World),
      ev.outcome = (e.evaluate ev.job cancellation w).1.outcome)
    (hrun : run workers mode evaluations canceled = .ok report) :
    ∀ r ∈ report.results.stored, ∃ ev ∈ evaluations, r.Consistent ev.job := by
  intro r hr
  obtain ⟨ev, hmem, rfl⟩ := mem_stored_run hrun hr
  obtain ⟨e, cancellation, w, hout⟩ := hev ev hmem
  refine ⟨ev, hmem, Outcome.Consistent.classified ?_ mode⟩
  rw [hout]
  exact e.evaluate_consistent ev.job cancellation w

end Audit

end CrateAudit
