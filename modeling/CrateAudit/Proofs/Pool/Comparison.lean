import CrateAudit.Proofs.Pool.Ledger
import Mathlib.Order.Monotone.Basic

/-!
# Comparing runs

Two runs of different tasks on different numbers of workers are compared. Each task of the one run has a
place among the tasks of the other (`Places`): the order is kept, no task lasts longer at its place, and
no more tasks are added in front of it than there are workers more. Then no task is started later at its
place (`Places.start_le_start`).

The ends come in different orders in the two runs, so nothing is compared step by step. What is carried
from position to position is a count (`Places.countP_le`): at every moment, of the tasks in front no
fewer are over.
-/

namespace CrateAudit.Pool

variable {w w' k m : Nat} {place : Nat → Nat} {tasks tasks' : List Task} {t t' : Task}
  {departures departures' : List Departure} {d d' : Departure}

/-- The places of the tasks of one run, on `w'` workers, among the tasks of another, on `w` workers. -/
structure Places (w w' : Nat) (place : Nat → Nat) (tasks tasks' : List Task) : Prop where
  strictMono : StrictMono place
  /-- each task that is added in front has a worker that is added -/
  cost_le : ∀ k < tasks'.length, place k + w' ≤ k + w
  delay_le : ∀ k t', tasks'[k]? = some t' → ∃ t, tasks[place k]? = some t ∧ t.delay ≤ t'.delay

/-! ### Counting the tasks that are over -/

theorem countP_take_succ (hk : departures[k]? = some d) (time : Nat) :
    (departures.take (k + 1)).countP (·.flight.due ≤ time) =
      (departures.take k).countP (·.flight.due ≤ time) + if d.flight.due ≤ time then 1 else 0 := by
  rw [List.take_add_one, hk, List.countP_append]
  simp [List.countP_cons]

theorem countP_take_le (h : k ≤ m) (time : Nat) :
    (departures.take k).countP (·.flight.due ≤ time) ≤
      (departures.take m).countP (·.flight.due ≤ time) :=
  (List.take_sublist_take_left h).countP_le

/-- A task is not taken later than another if at that moment, of the tasks in front of it no fewer are
over, the workers taken into account. -/
theorem Fifo.time_le_of_countP_le (h : Fifo w departures) (h' : Fifo w' departures')
    (hm : departures[m]? = some d) (hk : departures'[k]? = some d') (hcost : m + w' ≤ k + w)
    (hcount : (departures'.take k).countP (·.flight.due ≤ d'.time) ≤
      (departures.take m).countP (·.flight.due ≤ d'.time)) : d.time ≤ d'.time := by
  have hfree := (h' k d' hk d'.time).mp (Nat.le_refl _)
  refine (h m d hm d'.time).mpr ?_
  omega

/-! ### Tasks at their places -/

namespace Places

/-- A task that was taken, and what was taken at its place. -/
theorem exists_departure
    (hp : Places w w' place (departures.map Departure.task) (departures'.map Departure.task))
    (hk : departures'[k]? = some d') :
    ∃ d, departures[place k]? = some d ∧ d.task.delay ≤ d'.task.delay ∧ place k + w' ≤ k + w := by
  have hlt := (List.getElem?_eq_some_iff.mp hk).1
  obtain ⟨t, ht, hle⟩ := hp.delay_le k d'.task (by rw [List.getElem?_map, hk, Option.map_some])
  rw [List.getElem?_map] at ht
  obtain ⟨d, hd, rfl⟩ := Option.map_eq_some_iff.mp ht
  exact ⟨d, hd, hle, hp.cost_le k (by rwa [List.length_map])⟩

/-- **The count**: at every moment, of the tasks in front of a place no fewer are over. -/
theorem countP_le
    (hp : Places w w' place (departures.map Departure.task) (departures'.map Departure.task))
    (h : Fifo w departures) (h' : Fifo w' departures') (hk : k ≤ departures'.length) (time : Nat) :
    (departures'.take k).countP (·.flight.due ≤ time) ≤
      (departures.take (place k)).countP (·.flight.due ≤ time) := by
  induction k generalizing time with
  | zero => simp
  | succ k ih =>
    have hk' := List.getElem?_eq_getElem hk
    obtain ⟨d, hd, hdelay, hcost⟩ := hp.exists_departure hk'
    have hfront := ih (Nat.le_of_succ_le hk)
    -- task `k` is taken no later at its place, so it ends no later there
    have htime := h.time_le_of_countP_le h' hd hk' hcost (hfront _)
    have hdue : d.flight.due ≤ departures'[k].flight.due := Nat.add_le_add htime hdelay
    have hstep : place k + 1 ≤ place (k + 1) := hp.strictMono (Nat.lt_add_one k)
    calc (departures'.take (k + 1)).countP (·.flight.due ≤ time)
        ≤ (departures.take (place k + 1)).countP (·.flight.due ≤ time) := by
          rw [countP_take_succ hd, countP_take_succ hk']
          have hfront := hfront time
          split_ifs <;> omega
      _ ≤ (departures.take (place (k + 1))).countP (·.flight.due ≤ time) := countP_take_le hstep time

/-- No task is taken later at its place. -/
theorem time_le
    (hp : Places w w' place (departures.map Departure.task) (departures'.map Departure.task))
    (h : Fifo w departures) (h' : Fifo w' departures') (hd : departures[place k]? = some d)
    (hd' : departures'[k]? = some d') : d.time ≤ d'.time := by
  have hlt := (List.getElem?_eq_some_iff.mp hd').1
  obtain ⟨-, -, -, hcost⟩ := hp.exists_departure hd'
  exact h.time_le_of_countP_le h' hd hd' hcost (hp.countP_le h h' hlt.le _)

end Places

/-! ### Whole runs -/

/-- The task at a position is started exactly once, at a time. -/
def StartsAt (p : Pool) (index time : Nat) : Prop := p.starts.filter (·.2 = index) = [(time, index)]

/-- The task at a position is ended exactly once, at a time. -/
def FinishesAt (p : Pool) (index time : Nat) : Prop := p.finishes.filter (·.2 = index) = [(time, index)]

theorem StartsAt.eq_of_mem {p : Pool} {index time time' : Nat} (h : p.StartsAt index time)
    (hmem : (time', index) ∈ p.starts) : time' = time := by
  have hfilter : (time', index) ∈ p.starts.filter (·.2 = index) := List.mem_filter.mpr ⟨hmem, decide_eq_true rfl⟩
  rw [h, List.mem_singleton] at hfilter
  exact congrArg Prod.fst hfilter

/-- What is listed at a position, if no position is listed twice. -/
theorem filter_eq_singleton {l : List (Nat × Nat)} {e : Nat × Nat} (hnodup : (l.map Prod.snd).Nodup)
    (he : e ∈ l) : l.filter (·.2 = e.2) = [e] := by
  obtain ⟨front, back, rfl⟩ := List.append_of_mem he
  rw [List.map_append, List.map_cons, List.nodup_append, List.nodup_cons] at hnodup
  obtain ⟨-, ⟨hback, -⟩, hfront⟩ := hnodup
  have hnone : ∀ l : List (Nat × Nat), e.2 ∉ l.map Prod.snd → l.filter (·.2 = e.2) = [] := by
    intro l hl
    refine List.filter_eq_nil_iff.mpr fun e' he' => ?_
    have hne : e'.2 ≠ e.2 := fun heq => hl (heq ▸ List.mem_map_of_mem he')
    simpa using hne
  rw [List.filter_append, List.filter_cons, hnone back hback,
    hnone front fun hmem => hfront _ hmem _ List.mem_cons_self rfl]
  simp

/-- What is taken is started once: no position occurs twice. -/
theorem Ledger.startsAt {p : Pool} {landed : List Flight} (hl : Ledger tasks departures landed p)
    (ht : tasks.Pairwise (·.index < ·.index)) (hd : d ∈ departures) : p.StartsAt d.task.index d.time := by
  have hnodup := nodup_map_index (ht.sublist hl.departed_isPrefix.sublist)
  rw [List.map_map] at hnodup
  have hstarts : (p.starts.map Prod.snd).Nodup := hl.map_index_starts ▸ hnodup
  have hmem : d.entry ∈ p.starts := hl.starts_eq ▸ List.mem_map_of_mem hd
  exact filter_eq_singleton hstarts hmem

/-- **Comparison of runs**: each task is started once in either run, and no later at its place. -/
theorem Places.start_le_start (hp : Places (max w 1) (max w' 1) place tasks tasks')
    (ht : tasks.Pairwise (·.index < ·.index)) (ht' : tasks'.Pairwise (·.index < ·.index))
    (hgo : ∀ t ∈ tasks, t.stops = false) (hgo' : ∀ t ∈ tasks', t.stops = false)
    (hk : tasks[place k]? = some t) (hk' : tasks'[k]? = some t') :
    ∃ time time', (run w tasks).StartsAt t.index time ∧ (run w' tasks').StartsAt t'.index time' ∧
      time ≤ time' := by
  obtain ⟨departures, landed, hl, hfifo, -, -, hall⟩ := exists_ledger_run w ht
  obtain ⟨departures', landed', hl', hfifo', -, -, hall'⟩ := exists_ledger_run w' ht'
  -- nothing stops the runs, so all tasks are taken
  have htasks := hall fun f hf => hgo _ (hl.task_mem_tasks (List.mem_append_left _ hf))
  have htasks' := hall' fun f hf => hgo' _ (hl'.task_mem_tasks (List.mem_append_left _ hf))
  rw [← htasks, ← htasks'] at hp
  rw [← htasks, List.getElem?_map] at hk
  rw [← htasks', List.getElem?_map] at hk'
  obtain ⟨d, hd, rfl⟩ := Option.map_eq_some_iff.mp hk
  obtain ⟨d', hd', rfl⟩ := Option.map_eq_some_iff.mp hk'
  exact ⟨d.time, d'.time, hl.startsAt ht (List.mem_of_getElem? hd),
    hl'.startsAt ht' (List.mem_of_getElem? hd'), hp.time_le hfifo hfifo' hd hd'⟩

end CrateAudit.Pool
