import CrateAudit.Audit
import CrateAudit.Proofs.ResultSet
import Mathlib.Data.List.Induction

/-!
# What an audit tells

The state of an audit is a fold over the history of its pool. `Told` says what has been stored, counted
and told in terms of two lists: the evaluations that were begun and those that ended. One event keeps it
(`Told.begin`, `Told.conclude`), hence every history has it (`told_after`), in whatever order the
evaluations end. Where a history begins nothing after the end of an evaluation that cancels the run, no
start is told after the result of one (`quiet_after`).
-/

namespace CrateAudit

open Bytes

/-- What the evaluations of a run are taken to be: no two jobs have the same name, and each outcome has
the name of its job. -/
structure Audit.Proper (evaluations : List Evaluation) : Prop where
  distinct : (evaluations.map (·.job.id)).Nodup
  named : ∀ e ∈ evaluations, e.outcome.id = e.job.id

/-! ### The result of an evaluation -/

/-- The result that an outcome gives in a mode. -/
def Evaluation.result (mode : Mode) (e : Evaluation) : Result := (e.outcome.classified mode).1

/-- What a result records of an outcome: the outcome itself, and what the classification of its
diagnostics gives if there are any. -/
structure Recorded (mode : Mode) (o : Outcome) (r : Result) : Prop where
  outcome_eq : r.toOutcome = o
  of_empty : o.diagnostics = [] → r.counts = {} ∧ r.classifyFault = none
  of_ok : ∀ findings, o.diagnostics ≠ [] → Diagnosis.classify mode o.diagnostics = .ok findings →
    r.counts = findings.counts ∧ r.classifyFault = none
  of_error : ∀ fault, o.diagnostics ≠ [] → Diagnosis.classify mode o.diagnostics = .error fault →
    r.counts = {} ∧ r.classifyFault = some fault

theorem recorded_classified (mode : Mode) (o : Outcome) : Recorded mode o (o.classified mode).1 := by
  unfold Outcome.classified
  by_cases hd : o.diagnostics = []
  · constructor <;> simp [hd]
  · cases hc : Diagnosis.classify mode o.diagnostics with
    | ok findings => constructor <;> simp +contextual [hd, hc]
    | error fault => constructor <;> simp [hd, hc]

theorem Evaluation.id_result (mode : Mode) (e : Evaluation) : (e.result mode).id = e.outcome.id :=
  congrArg Outcome.id (recorded_classified mode e.outcome).outcome_eq

theorem map_id_result (mode : Mode) (evaluations : List Evaluation) :
    (evaluations.map (Evaluation.result mode)).map (·.id) = evaluations.map (·.outcome.id) := by
  rw [List.map_map]
  exact List.map_congr_left fun e _ => e.id_result mode

namespace Notice

/-- The job that a notice tells the start of. -/
def started? : Notice → Option Job
  | .started job => some job
  | _ => none

/-- The result that a notice tells, with the progress. -/
def finished? : Notice → Option (Result × Progress)
  | .finished _ result progress => some (result, progress)
  | _ => none

/-- Whether a notice tells the result of an evaluation. -/
def Ends (n : Notice) (e : Evaluation) : Prop := (n.finished?.map (·.1.id)) = some e.job.id

end Notice

namespace Audit

variable {mode : Mode} {evaluations begun ended : List Evaluation} {total : Int64} {s : State}

/-! ### What is told -/

/-- What an audit has stored, counted and told when some evaluations were begun and some ended, each in
their order. -/
structure Told (mode : Mode) (total : Int64) (begun ended : List Evaluation) (s : State) : Prop where
  started_eq : s.notices.filterMap Notice.started? = begun.map (·.job)
  finished_eq : s.notices.filterMap Notice.finished? =
    (ended.zipIdx 1).map fun (e, n) => (e.result mode, ⟨.ofNat n, total⟩)
  progress_eq : s.progress = ⟨.ofNat ended.length, total⟩
  /-- as long as no two evaluations end under one name, every result is stored -/
  stored_eq : (ended.map (·.outcome.id)).Nodup → s.results.stored = ended.map (Evaluation.result mode)

/-! ### One event -/

/-- What is told at the end of an evaluation, whether or not its result can be stored. -/
def tidings (mode : Mode) (time : Nat) (e : Evaluation) (progress : Progress) : List Notice :=
  remarks e.job.id mode (e.result mode) (e.outcome.classified mode).2 ++
    [.finished time (e.result mode) progress]

theorem conclude_eq (time : Nat) (e : Evaluation) :
    conclude mode time e s =
      match s.results.put (e.result mode) with
      | .ok results => ⟨results, s.progress.advance, s.notices ++ tidings mode time e s.progress.advance⟩
      | .error fault => ⟨s.results, s.progress.advance,
          s.notices ++ tidings mode time e s.progress.advance ++ [.refused (e.result mode).id fault]⟩ := by
  simp only [tidings, ← List.append_assoc]
  rfl

theorem filterMap_started?_tidings (mode : Mode) (time : Nat) (e : Evaluation) (progress : Progress) :
    (tidings mode time e progress).filterMap Notice.started? = [] := by
  unfold tidings remarks
  split <;> simp [Notice.started?, List.filterMap_map, Function.comp_def]

theorem filterMap_finished?_tidings (mode : Mode) (time : Nat) (e : Evaluation) (progress : Progress) :
    (tidings mode time e progress).filterMap Notice.finished? = [(e.result mode, progress)] := by
  unfold tidings remarks
  split <;> simp [Notice.finished?, List.filterMap_map, List.filterMap_cons, Function.comp_def]

/-- The end of an evaluation tells of no start. -/
theorem exists_notices_conclude (mode : Mode) (s : State) (time : Nat) (e : Evaluation) :
    ∃ news, (conclude mode time e s).notices = s.notices ++ news ∧ ∀ b ∈ news, b.started? = none := by
  have hquiet := List.filterMap_eq_nil_iff.mp
    (filterMap_started?_tidings mode time e s.progress.advance)
  rw [conclude_eq]
  split
  · exact ⟨_, rfl, hquiet⟩
  · refine ⟨_, List.append_assoc .., fun b hb => ?_⟩
    rcases List.mem_append.mp hb with hb | hb
    · exact hquiet b hb
    · rw [List.mem_singleton.mp hb]
      rfl

theorem filterMap_started?_conclude (time : Nat) (e : Evaluation) :
    (conclude mode time e s).notices.filterMap Notice.started? = s.notices.filterMap Notice.started? := by
  obtain ⟨news, heq, hquiet⟩ := exists_notices_conclude mode s time e
  rw [heq, List.filterMap_append, List.filterMap_eq_nil_iff.mpr hquiet, List.append_nil]

theorem filterMap_finished?_conclude (time : Nat) (e : Evaluation) :
    (conclude mode time e s).notices.filterMap Notice.finished? =
      s.notices.filterMap Notice.finished? ++ [(e.result mode, s.progress.advance)] := by
  rw [conclude_eq]
  split <;> simp [filterMap_finished?_tidings, Notice.finished?]

theorem progress_conclude (time : Nat) (e : Evaluation) :
    (conclude mode time e s).progress = s.progress.advance := by
  rw [conclude_eq]
  split <;> rfl

theorem stored_conclude (time : Nat) (e : Evaluation)
    (h : e.outcome.id ∉ s.results.stored.map (·.id)) :
    (conclude mode time e s).results.stored = s.results.stored ++ [e.result mode] := by
  rw [conclude_eq, ResultSet.put_of_not_mem (e.id_result mode ▸ h)]

namespace Told

theorem init : Told mode total [] [] { progress := { total } } := by
  constructor <;> simp

/-- An evaluation is begun. -/
theorem begin (h : Told mode total begun ended s) (e : Evaluation) :
    Told mode total (begun ++ [e]) ended { s with notices := s.notices ++ [.started e.job] } where
  started_eq := by simp [h.started_eq, Notice.started?]
  finished_eq := by simp [h.finished_eq, Notice.finished?]
  progress_eq := h.progress_eq
  stored_eq := h.stored_eq

/-- An evaluation ends. -/
theorem conclude (h : Told mode total begun ended s) (time : Nat) (e : Evaluation) :
    Told mode total begun (ended ++ [e]) (conclude mode time e s) where
  started_eq := by rw [filterMap_started?_conclude, h.started_eq]
  finished_eq := by
    rw [filterMap_finished?_conclude, h.finished_eq, h.progress_eq, List.zipIdx_append, List.map_append]
    simp [Progress.advance, Nat.add_comm 1]
  progress_eq := by
    rw [progress_conclude, h.progress_eq]
    simp [Progress.advance]
  stored_eq hn := by
    rw [List.map_append, List.nodup_append] at hn
    have hstored := h.stored_eq hn.1
    -- the set refuses only names it has, and all it has are names that have ended before
    have hnew : e.outcome.id ∉ s.results.stored.map (·.id) := by
      rw [hstored, map_id_result]
      exact fun hmem => hn.2.2 _ hmem _ (by simp) rfl
    rw [stored_conclude time e hnew, hstored, List.map_append]
    rfl

/-- The results are told in the order in which the evaluations end. -/
theorem map_result (h : Told mode total begun ended s) :
    (s.notices.filterMap Notice.finished?).map Prod.fst = ended.map (Evaluation.result mode) := by
  rw [h.finished_eq, List.map_map]
  calc (ended.zipIdx 1).map _ = ((ended.zipIdx 1).map Prod.fst).map (Evaluation.result mode) := by
        rw [List.map_map]; rfl
    _ = ended.map (Evaluation.result mode) := by rw [List.zipIdx_map_fst]

/-- The progress counts from one on. -/
theorem map_progress (h : Told mode total begun ended s) :
    (s.notices.filterMap Notice.finished?).map Prod.snd =
      (List.range ended.length).map fun n => ⟨.ofNat (n + 1), total⟩ := by
  have hmap := congrArg (List.map fun n => Progress.mk (.ofNat n) total) (List.zipIdx_map_snd 1 ended)
  rw [List.range'_eq_map_range, List.map_map, List.map_map] at hmap
  rw [h.finished_eq, List.map_map]
  refine hmap.trans (List.map_congr_left fun n _ => ?_)
  rw [Function.comp_apply, Nat.add_comm 1]

end Told

/-! ### Whole histories -/

/-- The evaluation that an event begins. -/
def begun? (evaluations : List Evaluation) (event : Event) : Option Evaluation :=
  event.start?.bind fun start => evaluations[start.2]?

/-- The evaluation that an event ends. -/
def ended? (evaluations : List Evaluation) (event : Event) : Option Evaluation :=
  event.finish?.bind fun finish => evaluations[finish.2]?

/-- The state of an audit after some events. -/
def after (mode : Mode) (evaluations : List Evaluation) (total : Int64) (events : List Event) : State :=
  events.foldl (step mode evaluations) { progress := { total } }

theorem after_concat (events : List Event) (event : Event) :
    after mode evaluations total (events ++ [event]) =
      step mode evaluations (after mode evaluations total events) event := by
  rw [after, List.foldl_concat]
  rfl

/-- What one event does: it begins an evaluation, or ends one, or belongs to none. -/
theorem step_cases (event : Event) :
    (∃ e, begun? evaluations event = some e ∧ ended? evaluations event = none ∧
      step mode evaluations s event = { s with notices := s.notices ++ [.started e.job] }) ∨
    (∃ e time, begun? evaluations event = none ∧ ended? evaluations event = some e ∧
      step mode evaluations s event = conclude mode time e s) ∨
    (begun? evaluations event = none ∧ ended? evaluations event = none ∧
      step mode evaluations s event = s) := by
  cases event with
  | started time i =>
    cases he : evaluations[i]? with
    | none => exact .inr (.inr ⟨he, rfl, by simp [step, he]⟩)
    | some e => exact .inl ⟨e, he, rfl, by simp [step, he]⟩
  | finished time i =>
    cases he : evaluations[i]? with
    | none => exact .inr (.inr ⟨rfl, he, by simp [step, he]⟩)
    | some e => exact .inr (.inl ⟨e, time, rfl, he, by simp [step, he]⟩)

theorem told_after (mode : Mode) (evaluations : List Evaluation) (total : Int64) (events : List Event) :
    Told mode total (events.filterMap (begun? evaluations)) (events.filterMap (ended? evaluations))
      (after mode evaluations total events) := by
  -- a fold from the left: the last event is the outermost step
  induction events using List.reverseRecOn with
  | nil => exact .init
  | append_singleton events event ih =>
    rw [after_concat, List.filterMap_append, List.filterMap_append, List.filterMap_cons,
      List.filterMap_cons, List.filterMap_nil, List.filterMap_nil]
    obtain ⟨e, hb, he, hs⟩ | ⟨e, time, hb, he, hs⟩ | ⟨hb, he, hs⟩ := step_cases event
    · rw [hs, hb, he, List.append_nil]
      exact ih.begin e
    · rw [hs, hb, he, List.append_nil]
      exact ih.conclude time e
    · rw [hs, hb, he, List.append_nil, List.append_nil]
      exact ih

/-- A notice of an end tells of an evaluation that has ended. -/
theorem Told.exists_ended (h : Told mode total begun ended s) {n : Notice} (hn : n ∈ s.notices)
    {e : Evaluation} (hends : n.Ends e) : ∃ e' ∈ ended, e'.outcome.id = e.job.id := by
  obtain ⟨⟨r, progress⟩, hfin, hid⟩ := Option.map_eq_some_iff.mp hends
  have hmem : (r, progress) ∈ s.notices.filterMap Notice.finished? := List.mem_filterMap.mpr ⟨n, hn, hfin⟩
  rw [h.finished_eq] at hmem
  obtain ⟨⟨e', i⟩, hmem, heq⟩ := List.mem_map.mp hmem
  refine ⟨e', List.fst_mem_of_mem_zipIdx hmem, ?_⟩
  rw [← e'.id_result mode, ← hid, ← congrArg Prod.fst heq]

theorem Proper.sublist (hp : Proper evaluations) {l : List Evaluation} (hl : l.Sublist evaluations) :
    Proper l :=
  ⟨hp.distinct.sublist (hl.map _), fun e he => hp.named e (hl.subset he)⟩

theorem Proper.nodup_outcome (hp : Proper evaluations) : (evaluations.map (·.outcome.id)).Nodup := by
  rw [List.map_congr_left hp.named]
  exact hp.distinct

theorem Proper.eq_of_id_eq (hp : Proper evaluations) {e e' : Evaluation} (he : e ∈ evaluations)
    (he' : e' ∈ evaluations) (h : e.outcome.id = e'.job.id) : e = e' := by
  rw [hp.named e he] at h
  exact List.inj_on_of_nodup_map hp.distinct he he' h

theorem mem_of_ended? {event : Event} {e : Evaluation} (h : ended? evaluations event = some e) :
    e ∈ evaluations := by
  obtain ⟨finish, -, he⟩ := Option.bind_eq_some_iff.mp h
  exact List.mem_of_getElem? he

/-- If no event of a history begins anything after the end of an evaluation that cancels the run, no
start is told after the result of such an evaluation. -/
theorem quiet_after (hp : Proper evaluations) {events : List Event}
    (hquiet : events.Pairwise fun a b =>
      (∃ e, ended? evaluations a = some e ∧ e.cancels = true) → b.start? = none) :
    (after mode evaluations total events).notices.Pairwise fun a b =>
      (∃ e ∈ evaluations, e.cancels = true ∧ a.Ends e) → b.started? = none := by
  induction events using List.reverseRecOn with
  | nil => simp [after]
  | append_singleton events event ih =>
    obtain ⟨hevents, -, hlast⟩ := List.pairwise_append.mp hquiet
    have htold := told_after mode evaluations total events
    rw [after_concat]
    obtain ⟨e, hb, he, hs⟩ | ⟨e, time, hb, he, hs⟩ | ⟨hb, he, hs⟩ := step_cases event
    · rw [hs]
      refine List.pairwise_append.mpr ⟨ih hevents, List.pairwise_singleton .., ?_⟩
      rintro a ha b - ⟨e', hmem, hcancel, hends⟩
      -- the evaluation that is told to have ended did end, so nothing begins any more
      obtain ⟨e'', hended, hid⟩ := htold.exists_ended ha hends
      obtain ⟨a', ha', hended⟩ := List.mem_filterMap.mp hended
      obtain rfl := hp.eq_of_id_eq (mem_of_ended? hended) hmem hid
      have hnone := hlast a' ha' event (by simp) ⟨e'', hended, hcancel⟩
      simp [begun?, hnone] at hb
    · obtain ⟨news, heq, hnews⟩ := exists_notices_conclude mode
        (after mode evaluations total events) time e
      rw [hs, heq]
      refine List.pairwise_append.mpr ⟨ih hevents, ?_, fun a _ b hb _ => hnews b hb⟩
      exact List.pairwise_of_forall_mem_list fun a _ b hb _ => hnews b hb
    · rw [hs]
      exact ih hevents

end Audit

end CrateAudit
