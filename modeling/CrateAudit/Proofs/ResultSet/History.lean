import CrateAudit.Proofs.ResultSet
import Mathlib.Algebra.Group.Nat.Defs
import Mathlib.Data.Finset.Card
import Mathlib.Data.List.Induction

/-!
# Results and progress, by their history

The results and the progress of a run are asked and changed by calls, in any order. What is answered can be told from
the calls made before (`History.told`): the first result that was put under a name counts, however many were refused
later, and the progress is the number of advances. A scoreboard recalls its history (`Recalls`) and every call preserves
this (`Recalls.step`), so all answers are those that the history tells, and a refused result leaves no trace in them
(`answers_told`).
-/

namespace CrateAudit

open Bytes

/-- The results and the progress of a run. -/
structure Scoreboard where
  results : ResultSet := {}
  progress : Progress

namespace Scoreboard

/-! ### Calls and answers -/

/-- What is asked of a scoreboard. -/
inductive Call where
  | put (r : Result)
  | get (id : Bytes)
  | size
  | ordered (ids : List Bytes)
  | advance
  | done

/-- What is answered; a result that is put is stored, unless there is a fault. -/
inductive Answer where
  | put (fault? : Option Fault)
  | get (r? : Option Result)
  | size (n : ℕ)
  | ordered (rs : List Result)
  | advance (done total : Int64)
  | done (n : Int64)

/-- A new scoreboard, for a number of jobs. -/
def start (total : Int64) : Scoreboard := { progress := { total } }

/-- Answers a call. -/
def step (b : Scoreboard) : Call → Answer × Scoreboard
  | .put r =>
    match b.results.put r with
    | .ok results => (.put none, { b with results })
    | .error fault => (.put (some fault), b)
  | .get id => (.get (b.results.get? id), b)
  | .size => (.size b.results.size, b)
  | .ordered ids => (.ordered (b.results.ordered ids), b)
  | .advance => (.advance b.progress.advance.done b.progress.advance.total, { b with progress := b.progress.advance })
  | .done => (.done b.progress.done, b)

/-- The answers to some calls, one after the other. -/
def answers (b : Scoreboard) : List Call → List Answer
  | [] => []
  | c :: calls => (b.step c).1 :: answers (b.step c).2 calls

/-- The scoreboard after some calls. -/
def after (b : Scoreboard) (calls : List Call) : Scoreboard := calls.foldl (fun b c => (b.step c).2) b

theorem after_concat (b : Scoreboard) (calls : List Call) (c : Call) :
    b.after (calls ++ [c]) = ((b.after calls).step c).2 := by
  rw [after, List.foldl_append, ← after]
  rfl

theorem answers_append (b : Scoreboard) (calls more : List Call) :
    b.answers (calls ++ more) = b.answers calls ++ (b.after calls).answers more := by
  induction calls generalizing b with
  | nil => rfl
  | cons c calls ih => rw [List.cons_append, answers, answers, ih, List.cons_append, after, after, List.foldl_cons]

theorem length_answers (b : Scoreboard) (calls : List Call) : (b.answers calls).length = calls.length := by
  induction calls generalizing b with
  | nil => rfl
  | cons c calls ih => rw [answers, List.length_cons, List.length_cons, ih]

/-! ### What the history tells -/

/-- The result that a call puts. -/
def Call.put? : Call → Option Result
  | .put r => some r
  | _ => none

/-- Whether a call is an advance. -/
def Call.isAdvance : Call → Bool
  | .advance => true
  | _ => false

/-- The calls that were made so far. -/
structure History where
  calls : List Call

namespace History

variable (h : History)

/-- All results that were put, whether they were stored or not. -/
def puts : List Result := h.calls.filterMap Call.put?

/-- The first result that was put under a name. -/
def first? (id : Bytes) : Option Result := h.puts.find? (·.id = id)

/-- The names under which results were put. -/
def names : Finset Bytes := (h.puts.map (·.id)).toFinset

/-- The number of advances. -/
def advances : ℕ := h.calls.countP Call.isAdvance

/-- **The answer that the history tells**: a result is stored if none was put under its name before, the first result
that was put under a name counts, and the progress is the number of advances. -/
def told (total : Int64) : Call → Answer
  | .put r => .put (if r.id ∈ h.names then some (.duplicateResult r.id) else none)
  | .get id => .get (h.first? id)
  | .size => .size h.names.card
  | .ordered ids => .ordered (ids.filterMap h.first?)
  | .advance => .advance (.ofNat (h.advances + 1)) total
  | .done => .done (.ofNat h.advances)

/-- The history with one more call. -/
def concat (c : Call) : History := ⟨h.calls ++ [c]⟩

theorem puts_concat (c : Call) : (h.concat c).puts = h.puts ++ c.put?.toList := by
  rw [concat, puts, List.filterMap_append, puts]
  cases hput : c.put? <;> simp [hput]

theorem mem_names_iff {id : Bytes} : id ∈ h.names ↔ h.first? id ≠ none := by
  simp [names, first?]

/-- What does not put a result changes no first result. -/
theorem first?_concat_of_put? {c : Call} (hc : c.put? = none) (id : Bytes) : (h.concat c).first? id = h.first? id := by
  rw [first?, puts_concat, hc, Option.toList_none, List.append_nil, first?]

/-- A result under a new name is the first one. -/
theorem first?_concat_put (r : Result) (id : Bytes) :
    (h.concat (.put r)).first? id = (h.first? id).or (if r.id = id then some r else none) := by
  have hone : [r].find? (·.id = id) = if r.id = id then some r else none := by
    by_cases hid : r.id = id <;> simp [hid]
  rw [first?, puts_concat, List.find?_append, first?, ← hone]
  rfl

theorem advances_concat (c : Call) : (h.concat c).advances = h.advances + if c.isAdvance then 1 else 0 := by
  rw [concat, advances, List.countP_append, advances, List.countP_singleton]

end History

/-! ### Scoreboards recall their history -/

/-- A scoreboard holds what the history tells. -/
structure Recalls (b : Scoreboard) (total : Int64) (h : History) : Prop where
  get?_eq : ∀ id, b.results.get? id = h.first? id
  nodup : (b.results.stored.map (·.id)).Nodup
  done_eq : b.progress.done = .ofNat h.advances
  total_eq : b.progress.total = total

variable {b : Scoreboard} {total : Int64} {h : History}

theorem recalls_start (total : Int64) : Recalls (start total) total ⟨[]⟩ :=
  ⟨fun _ => rfl, List.nodup_nil, rfl, rfl⟩

namespace Recalls

/-- As many results are stored as there are names. -/
theorem size_eq (hb : Recalls b total h) : b.results.size = h.names.card := by
  have hnames : (b.results.stored.map (·.id)).toFinset = h.names := by
    ext id
    rw [List.mem_toFinset, h.mem_names_iff, ← hb.get?_eq, ne_eq, ResultSet.get?_eq_none_iff, not_not]
  rw [← hnames, List.toFinset_card_of_nodup hb.nodup, List.length_map, ResultSet.size]

/-- A call that neither puts a result nor advances changes nothing. -/
theorem concat (hb : Recalls b total h) {c : Call} (hput : c.put? = none) (hadvance : c.isAdvance = false) :
    Recalls b total (h.concat c) where
  get?_eq id := by rw [hb.get?_eq, h.first?_concat_of_put? hput]
  nodup := hb.nodup
  done_eq := by simp [hb.done_eq, h.advances_concat, hadvance]
  total_eq := hb.total_eq

/-- A result under a new name is stored. -/
theorem put_of_not_mem (hb : Recalls b total h) {r : Result} (hr : r.id ∉ h.names) :
    b.step (.put r) = (.put none, { b with results := ⟨b.results.stored ++ [r]⟩ }) ∧
      Recalls { b with results := ⟨b.results.stored ++ [r]⟩ } total (h.concat (.put r)) := by
  rw [h.mem_names_iff, not_not, ← hb.get?_eq, ResultSet.get?_eq_none_iff] at hr
  refine ⟨by rw [step, ResultSet.put_of_not_mem hr], fun id => ?_, ?_, ?_, hb.total_eq⟩
  · rw [h.first?_concat_put, ← hb.get?_eq, ResultSet.get?, List.find?_append, ResultSet.get?]
    by_cases hid : r.id = id <;> simp [hid]
  · rw [List.map_append]
    exact hb.nodup.append (List.nodup_singleton _) (by simpa using hr)
  · simp [hb.done_eq, h.advances_concat, Call.isAdvance]

/-- A result under a name that has one is refused, and nothing changes. -/
theorem put_of_mem (hb : Recalls b total h) {r : Result} (hr : r.id ∈ h.names) :
    b.step (.put r) = (.put (some (.duplicateResult r.id)), b) ∧ Recalls b total (h.concat (.put r)) := by
  obtain ⟨first, hfirst⟩ := Option.ne_none_iff_exists'.mp (h.mem_names_iff.mp hr)
  have hget := (hb.get?_eq r.id).trans hfirst
  refine ⟨by rw [step, ResultSet.put, hget], fun id => ?_, hb.nodup, ?_, hb.total_eq⟩
  · rw [h.first?_concat_put, hb.get?_eq]
    by_cases hid : r.id = id
    · rw [← hid, hfirst]
      rfl
    · rw [if_neg hid, Option.or_none]
  · simp [hb.done_eq, h.advances_concat, Call.isAdvance]

/-- **Every call** is answered as the history tells, and then the scoreboard recalls the call as well. -/
theorem step (hb : Recalls b total h) (c : Call) :
    (b.step c).1 = h.told total c ∧ Recalls (b.step c).2 total (h.concat c) := by
  cases c with
  | put r =>
    by_cases hr : r.id ∈ h.names
    · obtain ⟨hstep, hrecalls⟩ := hb.put_of_mem hr
      rw [hstep, History.told, if_pos hr]
      exact ⟨rfl, hrecalls⟩
    · obtain ⟨hstep, hrecalls⟩ := hb.put_of_not_mem hr
      rw [hstep, History.told, if_neg hr]
      exact ⟨rfl, hrecalls⟩
  | get id => exact ⟨congrArg Answer.get (hb.get?_eq id), hb.concat rfl rfl⟩
  | size => exact ⟨congrArg Answer.size hb.size_eq, hb.concat rfl rfl⟩
  | ordered ids =>
    refine ⟨congrArg Answer.ordered ?_, hb.concat rfl rfl⟩
    exact congrArg (ids.filterMap ·) (funext hb.get?_eq)
  | advance =>
    have hdone : b.progress.advance.done = .ofNat (h.advances + 1) := by
      rw [Progress.advance, hb.done_eq, Int64.ofNat_add]
      rfl
    refine ⟨congrArg₂ Answer.advance hdone hb.total_eq, fun id => ?_, hb.nodup, ?_, hb.total_eq⟩
    · rw [h.first?_concat_of_put? rfl, ← hb.get?_eq]
      rfl
    · rw [h.advances_concat]
      exact hdone
  | done => exact ⟨congrArg Answer.done hb.done_eq, hb.concat rfl rfl⟩

end Recalls

/-- **After some calls**, the scoreboard recalls them. -/
theorem recalls_after (total : Int64) (calls : List Call) :
    Recalls ((start total).after calls) total ⟨calls⟩ := by
  induction calls using List.reverseRecOn with
  | nil => exact recalls_start total
  | append_singleton calls c ih =>
    rw [after_concat]
    exact (ih.step c).2

/-- **A run of calls** on a new scoreboard. Every call is answered as the calls before it tell. A result that is refused
leaves no trace: later calls are answered as if it had not been put. And advances are counted exactly, as long as their
number fits into 64 bits. -/
theorem answers_told (total : Int64) (before later : List Call) (c : Call) :
    ((start total).answers (before ++ c :: later))[before.length]? = some (History.told ⟨before⟩ total c) ∧
      (∀ r, c = .put r → r.id ∈ History.names ⟨before⟩ →
        ((start total).answers (before ++ c :: later)).drop (before.length + 1) =
          ((start total).answers (before ++ later)).drop before.length) ∧
      ∀ n : Int64,
        (((start total).answers (before ++ c :: later))[before.length]? = some (.advance n total) →
          History.advances ⟨before⟩ + 1 < 2 ^ 63 → n.toInt = History.advances ⟨before⟩ + 1) ∧
        (((start total).answers (before ++ c :: later))[before.length]? = some (.done n) →
          History.advances ⟨before⟩ < 2 ^ 63 → n.toInt = History.advances ⟨before⟩) := by
  have hrecalls := recalls_after total before
  have hlength := length_answers (start total) before
  have htold :
      ((start total).answers (before ++ c :: later))[before.length]? = some (History.told ⟨before⟩ total c) := by
    rw [answers_append, List.getElem?_append_right hlength.le, hlength, Nat.sub_self, answers, (hrecalls.step c).1]
    rfl
  refine ⟨htold, ?_, fun n => ⟨fun hn hlt => ?_, fun hn hlt => ?_⟩⟩
  · rintro r rfl hr
    rw [answers_append, answers_append, answers, (hrecalls.put_of_mem hr).1, List.drop_left' hlength,
      ← List.singleton_append, ← List.append_assoc, List.drop_left']
    rw [List.length_append, hlength, List.length_singleton]
  · have hadvance := Option.some.inj (htold.symm.trans hn)
    cases c <;> simp only [History.told, Answer.advance.injEq, reduceCtorEq] at hadvance
    rw [← hadvance.1, Int64.toInt_ofNat_of_lt hlt]
    rfl
  · have hdone := Option.some.inj (htold.symm.trans hn)
    cases c <;> simp only [History.told, Answer.done.injEq, reduceCtorEq] at hdone
    rw [← hdone, Int64.toInt_ofNat_of_lt hlt]

/-- The second result of a job is refused, although it is a better one, and no later answer shows that it was put. -/
theorem answers_told_second_result :
    lit "a" ∈ History.names ⟨[.put { id := lit "a" }]⟩ ∧
      ((start 1).answers
          [.put { id := lit "a" }, .put { id := lit "a", succeeded := true }, .get (lit "a"), .size]).drop 2 =
        ((start 1).answers [.put { id := lit "a" }, .get (lit "a"), .size]).drop 1 :=
  have hmem : lit "a" ∈ History.names ⟨[.put { id := lit "a" }]⟩ := by simp [History.names, History.puts, Call.put?]
  ⟨hmem, (answers_told 1 [.put { id := lit "a" }] _ _).2.1 { id := lit "a", succeeded := true } rfl hmem⟩

end Scoreboard

end CrateAudit
