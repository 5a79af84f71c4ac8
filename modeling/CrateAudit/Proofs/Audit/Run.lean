import CrateAudit.Proofs.Audit.Notices
import CrateAudit.Proofs.Pool.Ledger
import Mathlib.Algebra.Group.Nat.Defs

/-!
# Audits lose nothing and mix nothing up

The ledger of the pool says which evaluations an audit begins and ends: the first ones of the list, all
begun in its order and all ended, and no fewer than all unless the run is canceled (`exists_share`).
With what is told of a history this gives the report of a run (`exists_report`).

An audit that is not canceled has one result for each job, decided by the outcome of that job and the
mode alone (`run_uncanceled`). An audit that is canceled, from the start or by the ends of evaluations,
has exactly the results of the jobs that were started, each as it would have been without the
cancellation (`run_canceled`).
-/

namespace CrateAudit.Audit

open Bytes

variable {mode : Mode} {evaluations : List Evaluation} {workers : Int64} {canceled : Bool}

/-! ### The tasks of a run -/

theorem mem_tasks {t : Task} :
    t ∈ tasks evaluations ↔
      ∃ e, evaluations[t.index]? = some e ∧ t = ⟨t.index, e.delay, e.cancels⟩ := by
  simp only [tasks, List.mem_map, Prod.exists, List.mem_zipIdx_iff_getElem?]
  constructor
  · rintro ⟨e, i, hi, rfl⟩
    exact ⟨e, hi, rfl⟩
  · rintro ⟨e, hi, ht⟩
    exact ⟨e, t.index, hi, ht.symm⟩

theorem map_index_tasks (evaluations : List Evaluation) :
    (tasks evaluations).map (·.index) = List.range evaluations.length := by
  rw [tasks, List.map_map, List.range_eq_range', ← List.zipIdx_map_snd]
  rfl

theorem pairwise_tasks (evaluations : List Evaluation) :
    (tasks evaluations).Pairwise (·.index < ·.index) := by
  rw [← List.pairwise_map (f := Task.index), map_index_tasks]
  exact List.pairwise_lt_range

theorem filterMap_range (evaluations : List Evaluation) (k : Nat) :
    (List.range k).filterMap (evaluations[·]?) = evaluations.take k := by
  induction k with
  | zero => rfl
  | succ k ih =>
    rw [List.range_succ, List.filterMap_append, ih, List.take_add_one, List.filterMap_cons,
      List.filterMap_nil]
    cases evaluations[k]? <;> rfl

theorem filterMap_begun? (p : Pool) :
    p.history.filterMap (begun? evaluations) = (p.starts.map Prod.snd).filterMap (evaluations[·]?) := by
  rw [Pool.starts, List.filterMap_map, List.filterMap_filterMap]
  rfl

theorem filterMap_ended? (p : Pool) :
    p.history.filterMap (ended? evaluations) = (p.finishes.map Prod.snd).filterMap (evaluations[·]?) := by
  rw [Pool.finishes, List.filterMap_map, List.filterMap_filterMap]
  rfl

/-! ### The share of the evaluations that is run -/

/-- What the pool of an audit does with the evaluations: it begins the first `k` of them, and ends these. -/
structure Share (evaluations : List Evaluation) (canceled : Bool) (k : Nat) (p : Pool) : Prop where
  le_length : k ≤ evaluations.length
  begun_eq : p.history.filterMap (begun? evaluations) = evaluations.take k
  ended_perm : (p.history.filterMap (ended? evaluations)).Perm (evaluations.take k)
  /-- nothing is run when the run is canceled from the start -/
  eq_zero : canceled = true → k = 0
  /-- something is left out only if the run is canceled -/
  canceled_of_lt : k < evaluations.length → (canceled || canceledBy evaluations p) = true
  /-- nothing is begun after the end of an evaluation that cancels the run -/
  quiet : p.history.Pairwise fun a b =>
    (∃ e, ended? evaluations a = some e ∧ e.cancels = true) → b.start? = none

theorem history_run_nil (w : Nat) : (Pool.run w []).history = [] := by
  rw [Pool.run, List.length_nil, Pool.runFor, Pool.history_initial, List.take_nil, List.map_nil]

theorem share_of_canceled (w : Nat) : Share evaluations true 0 (Pool.run w []) where
  le_length := Nat.zero_le _
  begun_eq := by simp [history_run_nil]
  ended_perm := by simp [history_run_nil]
  eq_zero _ := rfl
  canceled_of_lt _ := rfl
  quiet := by simp [history_run_nil]

/-- A task of the run that stops it belongs to an evaluation that cancels it. -/
theorem canceledBy_of_mem {p : Pool} {f : Flight} (hf : f.key ∈ p.finishes)
    (ht : f.task ∈ tasks evaluations) (hs : f.task.stops = true) : canceledBy evaluations p = true := by
  obtain ⟨e, he, htask⟩ := mem_tasks.mp ht
  refine List.any_eq_true.mpr ⟨f.key, hf, ?_⟩
  have hcancels : e.cancels = true := by rw [← hs, htask]
  simp [Flight.key, he, hcancels]

theorem exists_share (w : Nat) (evaluations : List Evaluation) :
    ∃ k, Share evaluations false k (Pool.run w (tasks evaluations)) := by
  have ht := pairwise_tasks evaluations
  obtain ⟨departures, landed, hl, -, -, hperm, hall⟩ := Pool.exists_ledger_run w ht
  have hle : departures.length ≤ evaluations.length := by
    simpa [tasks] using hl.departed_isPrefix.length_le
  -- the tasks taken are the first ones, so their positions are the first numbers
  have hindex : departures.map (·.task.index) = List.range departures.length := by
    have htake := List.prefix_iff_eq_take.mp hl.departed_isPrefix
    have hmap := congrArg (List.map Task.index) htake
    rw [List.map_take, map_index_tasks, List.length_map, List.take_range, Nat.min_eq_left hle,
      List.map_map] at hmap
    exact hmap
  have hstarts : (Pool.run w (tasks evaluations)).starts.map Prod.snd = List.range departures.length := by
    rw [hl.map_index_starts, hindex]
  have hfinishes : ((Pool.run w (tasks evaluations)).finishes.map Prod.snd).Perm
      (List.range departures.length) := hindex ▸ hl.perm_index_finishes hperm
  refine ⟨departures.length, hle, ?_, ?_, fun h => absurd h Bool.false_ne_true, fun hlt => ?_, ?_⟩
  · rw [filterMap_begun?, hstarts, filterMap_range]
  · rw [filterMap_ended?, ← filterMap_range]
    exact hfinishes.filterMap _
  · -- without a cancellation every task is taken
    by_contra hcanceled
    have hgo : ∀ f ∈ landed, f.task.stops = false := by
      intro f hf
      by_contra hs
      have hkey : f.key ∈ (Pool.run w (tasks evaluations)).finishes :=
        hl.finishes_eq ▸ List.mem_map_of_mem hf
      have hmem := hl.task_mem_tasks (List.mem_append_left _ hf)
      exact hcanceled (by simp [canceledBy_of_mem hkey hmem (by simpa using hs)])
    have hlen := congrArg List.length (hall hgo)
    simp [tasks] at hlen
    omega
  · refine ((Pool.reachable_run w _).no_start_after_stop ht).imp fun {a b} hab => ?_
    rintro ⟨e, he, hcancels⟩
    obtain ⟨⟨time, i⟩, hfin, hi⟩ := Option.bind_eq_some_iff.mp he
    exact hab ⟨⟨i, e.delay, e.cancels⟩, mem_tasks.mpr ⟨e, hi, rfl⟩, hcancels, by simp [hfin]⟩

/-! ### The report of a run -/

/-- The jobs that a report tells the start of. -/
def Report.started (r : Report) : List Job := r.notices.filterMap Notice.started?

/-- The results that a report tells, each with the progress. -/
def Report.finished (r : Report) : List (Result × Progress) := r.notices.filterMap Notice.finished?

/-- What a report says of a run over `total` jobs in which some evaluations were made. -/
structure Accounts (mode : Mode) (total : Nat) (made : List Evaluation) (r : Report) : Prop where
  /-- the jobs of the evaluations were started in their order, once each, and no others -/
  started_eq : r.started = made.map (·.job)
  /-- the result of each evaluation is stored once, and no other -/
  stored_perm : r.results.stored.Perm (made.map (Evaluation.result mode))
  /-- the result of each evaluation was told once, and no other -/
  finished_perm : (r.finished.map Prod.fst).Perm (made.map (Evaluation.result mode))
  /-- the progress was counted from one on, in 64-bit numbers -/
  progress_eq : r.finished.map Prod.snd = (List.range made.length).map fun n => ⟨.ofNat (n + 1), .ofNat total⟩
  /-- these are the numbers themselves, unless there are more jobs than 64-bit numbers count -/
  done_eq : total < 2 ^ 63 → r.finished.map (fun told => (told.2.done.toInt, told.2.total.toInt)) =
    (List.range made.length).map fun (n : Nat) => ((n : Int) + 1, (total : Int))
  /-- the fault tells of the cancellation and how far the run came -/
  fault_eq : r.fault =
    if made.length < total then
      some (.during (lit "run stopped after " ++ decimal made.length ++ lit " of " ++ decimal total ++
        lit " jobs") .canceled)
    else none

theorem run_eq_ok (hw : 1 ≤ workers) (hne : evaluations ≠ []) (p : Pool)
    (hpool : p = Pool.run workers.toNatClampNeg (if canceled then [] else tasks evaluations)) (s : State)
    (hs : s = after mode evaluations (.ofNat evaluations.length) p.history) :
    run workers mode evaluations canceled = .ok ⟨s.results, s.notices, p,
      if (canceled || canceledBy evaluations p) && s.results.size < evaluations.length then
        some (stopped s.results.size evaluations.length) else none⟩ := by
  rw [run, if_neg (Int64.not_lt.mpr hw), if_neg (by simpa using hne), hs, hpool]
  rfl

/-- The report of a run accounts for the share of the evaluations that the pool has run. -/
theorem exists_report (mode : Mode) (hw : 1 ≤ workers) (hne : evaluations ≠ []) (hp : Proper evaluations)
    (canceled : Bool) :
    ∃ r k, run workers mode evaluations canceled = .ok r ∧ Share evaluations canceled k r.pool ∧
      Accounts mode evaluations.length (evaluations.take k) r ∧
      r.notices.Pairwise fun a b =>
        (∃ e ∈ evaluations, e.cancels = true ∧ a.Ends e) → b.started? = none := by
  obtain ⟨p, hpool⟩ : ∃ p, p = Pool.run workers.toNatClampNeg (if canceled then [] else tasks evaluations) :=
    ⟨_, rfl⟩
  obtain ⟨k, hshare⟩ : ∃ k, Share evaluations canceled k p := by
    cases canceled with
    | true => exact ⟨0, hpool ▸ share_of_canceled _⟩
    | false => exact hpool ▸ exists_share _ evaluations
  have htold := told_after mode evaluations (.ofNat evaluations.length) p.history
  rw [hshare.begun_eq] at htold
  have hnodup : ((p.history.filterMap (ended? evaluations)).map (·.outcome.id)).Nodup := by
    rw [(hshare.ended_perm.map _).nodup_iff]
    exact (hp.sublist (List.take_sublist k evaluations)).nodup_outcome
  have hstored := htold.stored_eq hnodup
  have hlen := hshare.ended_perm.length_eq
  have hprogress := htold.map_progress
  rw [hlen] at hprogress
  refine ⟨_, k, run_eq_ok hw hne p hpool _ rfl, hshare,
    ⟨htold.started_eq, ?_, ?_, hprogress, fun htotal => ?_, ?_⟩, quiet_after hp hshare.quiet⟩
  · rw [hstored]
    exact hshare.ended_perm.map _
  · rw [Report.finished, htold.map_result]
    exact hshare.ended_perm.map _
  · have hmap := congrArg (List.map fun told : Progress => (told.done.toInt, told.total.toInt)) hprogress
    rw [List.map_map, List.map_map] at hmap
    refine hmap.trans (List.map_congr_left fun n hn => ?_)
    have hle : n + 1 ≤ evaluations.length := by
      have hlt := List.mem_range.mp hn
      rw [List.length_take] at hlt
      omega
    simp only [Function.comp_apply]
    rw [Int64.toInt_ofNat_of_lt (by omega), Int64.toInt_ofNat_of_lt htotal, Int.natCast_succ]
  · rw [ResultSet.size, hstored, List.length_map, hlen]
    -- a run that is canceled after its last start has no fault, and needs none
    by_cases hlt : (evaluations.take k).length < evaluations.length
    · have hk : k < evaluations.length := by
        rw [List.length_take] at hlt
        omega
      rw [hshare.canceled_of_lt hk, if_pos hlt, if_pos (by simpa using hlt)]
      rfl
    · rw [if_neg hlt, decide_eq_false hlt, Bool.and_false]
      rfl

namespace Accounts

variable {total : Nat} {made : List Evaluation} {r : Report} {e : Evaluation}

theorem nodup_stored (h : Accounts mode total made r) (hp : Proper made) :
    (r.results.stored.map (·.id)).Nodup := by
  rw [(h.stored_perm.map _).nodup_iff, map_id_result]
  exact hp.nodup_outcome

/-- The name of a job that was evaluated finds the result of its evaluation. -/
theorem get?_eq_some (h : Accounts mode total made r) (hp : Proper made) (he : e ∈ made) :
    r.results.get? e.job.id = some (e.result mode) := by
  rw [ResultSet.get?_eq_some_iff (h.nodup_stored hp), h.stored_perm.mem_iff, e.id_result, hp.named e he]
  exact ⟨List.mem_map_of_mem he, rfl⟩

/-- The name of a job that was not evaluated finds nothing. -/
theorem get?_eq_none (h : Accounts mode total made r) (hp : Proper made)
    (he : e.job.id ∉ made.map (·.job.id)) : r.results.get? e.job.id = none := by
  rw [ResultSet.get?_eq_none_iff, (h.stored_perm.map _).mem_iff, map_id_result,
    List.map_congr_left hp.named]
  exact he

end Accounts

/-! ### Runs that are not canceled -/

/-- All evaluations are made when none of them cancels the run. -/
theorem Share.eq_length {k : Nat} {p : Pool} (h : Share evaluations false k p)
    (hc : ∀ e ∈ evaluations, e.cancels = false) : k = evaluations.length := by
  refine Nat.le_antisymm h.le_length (Nat.le_of_not_lt fun hlt => ?_)
  have hcanceled := h.canceled_of_lt hlt
  rw [Bool.false_or, canceledBy, List.any_eq_true] at hcanceled
  obtain ⟨⟨time, i⟩, -, hany⟩ := hcanceled
  cases he : evaluations[i]? with
  | none => simp [he] at hany
  | some e => simp [he, hc e (List.mem_of_getElem? he)] at hany

theorem exists_report_uncanceled (mode : Mode) (hw : 1 ≤ workers) (hne : evaluations ≠ [])
    (hp : Proper evaluations) (hc : ∀ e ∈ evaluations, e.cancels = false) :
    ∃ r, run workers mode evaluations false = .ok r ∧
      Accounts mode evaluations.length evaluations r := by
  obtain ⟨r, k, hrun, hshare, hacc, -⟩ := exists_report mode hw hne hp false
  rw [hshare.eq_length hc, List.take_length] at hacc
  exact ⟨r, hrun, hacc⟩

/-- Three crates, a slow one first; the end of the second may cancel the run. -/
def threeCrates (cancels : Bool) : List Evaluation :=
  [{ job := ⟨lit "slow", []⟩, delay := 9
     outcome := { id := lit "slow", timedOut := true } },
   { job := ⟨lit "leaky", []⟩, delay := 1, cancels
     outcome := { id := lit "leaky", diagnostics := lit "leak, seriousness: Low", succeeded := true } },
   { job := ⟨lit "late", []⟩, delay := 1
     outcome := { id := lit "late", succeeded := true } }]

theorem proper_threeCrates (cancels : Bool) : Proper (threeCrates cancels) := by
  cases cancels <;> exact ⟨by decide, by decide⟩

/-- **Isolation**. An audit that is not canceled ends without a fault and with exactly one result for
each job: what its outcome and the mode give, whatever the number of workers, the durations and the
order in which the evaluations end. Every job is started once, every result is told once, and the
progress counts from one to the number of jobs. No other audit in which a job has the same outcome gives
it another result, so the outcome of one job decides about no other. -/
theorem run_uncanceled (workers : Int64) (mode : Mode) (evaluations : List Evaluation)
    (hw : 1 ≤ workers) (hne : evaluations ≠ []) (hp : Proper evaluations)
    (hc : ∀ e ∈ evaluations, e.cancels = false) :
    ∃ r, run workers mode evaluations false = .ok r ∧ r.fault = none ∧
      Accounts mode evaluations.length evaluations r ∧
      (∀ e ∈ evaluations, ∃ result, r.results.get? e.job.id = some result ∧
        Recorded mode e.outcome result) ∧
      r.results.ordered (evaluations.map (·.job.id)) = evaluations.map (Evaluation.result mode) ∧
      ∀ (workers' : Int64) (evaluations' : List Evaluation) (r' : Report), 1 ≤ workers' →
        Proper evaluations' → (∀ e ∈ evaluations', e.cancels = false) →
        run workers' mode evaluations' false = .ok r' →
        ∀ e ∈ evaluations, ∀ e' ∈ evaluations', e'.job.id = e.job.id → e'.outcome = e.outcome →
          r'.results.get? e.job.id = r.results.get? e.job.id := by
  obtain ⟨r, hrun, hacc⟩ := exists_report_uncanceled mode hw hne hp hc
  have hget := fun e (he : e ∈ evaluations) => hacc.get?_eq_some hp he
  refine ⟨r, hrun, ?_, hacc, fun e he => ?_, ResultSet.ordered_eq_map hget, ?_⟩
  · rw [hacc.fault_eq, if_neg (Nat.lt_irrefl _)]
  · exact ⟨_, hget e he, recorded_classified mode e.outcome⟩
  · intro workers' evaluations' r' hw' hp' hc' hrun' e he e' he' hid hout
    -- the other run is not canceled either, so it has the result that the outcome gives
    obtain ⟨r'', hrun'', hacc'⟩ := exists_report_uncanceled mode hw' (List.ne_nil_of_mem he') hp' hc'
    obtain rfl : r' = r'' := Except.ok.inj (hrun'.symm.trans hrun'')
    rw [hget e he, ← hid, hacc'.get?_eq_some hp' he', Evaluation.result, hout]
    rfl

theorem run_uncanceled_threeCrates :
    1 ≤ (2 : Int64) ∧ threeCrates false ≠ [] ∧ Proper (threeCrates false) ∧
      (∀ e ∈ threeCrates false, e.cancels = false) ∧
      ∃ r, run 2 .lenient (threeCrates false) false = .ok r ∧ r.fault = none ∧
        r.started = (threeCrates false).map (·.job) ∧
        r.results.ordered [lit "slow", lit "leaky", lit "late"] =
          (threeCrates false).map (Evaluation.result .lenient) := by
  have hne : threeCrates false ≠ [] := List.cons_ne_nil _ _
  have hc : ∀ e ∈ threeCrates false, e.cancels = false := by decide
  obtain ⟨r, hrun, hfault, hacc, -, hordered, -⟩ := run_uncanceled 2 .lenient (threeCrates false)
    (by decide) hne (proper_threeCrates false) hc
  exact ⟨by decide, hne, proper_threeCrates false, hc, r, hrun, hfault, hacc.started_eq, hordered⟩

/-! ### Runs that may be canceled -/

/-- An evaluation that does not cancel the run, and is the same otherwise. -/
def uncanceled (e : Evaluation) : Evaluation := { e with cancels := false }

theorem Proper.map_uncanceled (hp : Proper evaluations) : Proper (evaluations.map uncanceled) := by
  refine ⟨?_, fun e he => ?_⟩
  · rw [List.map_map]
    exact hp.distinct
  · obtain ⟨e, hmem, rfl⟩ := List.mem_map.mp he
    exact hp.named e hmem

end CrateAudit.Audit
