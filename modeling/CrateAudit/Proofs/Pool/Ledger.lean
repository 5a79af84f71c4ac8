import CrateAudit.Proofs.Pool.Run
import Mathlib.Data.List.Perm.Basic
import Mathlib.Data.List.Infix

/-!
# The ledger of a run

What a pool has done so far is told by two lists: the tasks that were taken, with the times at which a
worker took them, and the flights that are over, in the order of their ends. `Ledger` ties them to the
pool. Every task that was taken is over or in flight, once; the tasks taken are the first ones of the
input; and the rest waits, unless a task has stopped the run.

On the ledger a schedule can be read off (`Fifo`): a task is taken at the first moment at which the tasks
taken before it leave a worker free. The ends come in the order of `Earlier` (`Chronological`). Both are
kept by every step, whatever the tasks last and whether or not one of them stops the run.
-/

namespace CrateAudit

/-- A task with the time at which a worker took it. -/
structure Departure where
  time : Nat
  task : Task

namespace Departure

/-- The flight of a task that was taken. -/
def flight (l : Departure) : Flight := ⟨l.task, l.time + l.task.delay⟩

/-- The time and the position of a start. -/
def entry (l : Departure) : Nat × Nat := (l.time, l.task.index)

end Departure

namespace Pool

variable {p : Pool} {f g : Flight} {t : Task} {rest tasks : List Task} {w : Nat}
  {departures : List Departure} {landed : List Flight}

/-! ### Starts and ends, step by step -/

@[simp] theorem starts_land : (p.land f).starts = p.starts := by
  simp [starts, land, Event.start?]

@[simp] theorem finishes_land : (p.land f).finishes = p.finishes ++ [f.key] := by
  simp [finishes, land, Event.finish?, Flight.key]

@[simp] theorem starts_relay : (p.relay f t rest).starts = p.starts ++ [(f.due, t.index)] := by
  simp [starts, relay, Event.start?, List.filterMap_cons]

@[simp] theorem finishes_relay : (p.relay f t rest).finishes = p.finishes ++ [f.key] := by
  simp [finishes, relay, Event.finish?, Flight.key, List.filterMap_cons]

theorem history_initial (w : Nat) (tasks : List Task) :
    (initial w tasks).history = (tasks.take (max w 1)).map fun t => .started 0 t.index := by
  simp only [initial, fill, List.length_nil, Nat.sub_zero, List.nil_append]

theorem starts_initial (w : Nat) (tasks : List Task) :
    (initial w tasks).starts = (tasks.take (max w 1)).map fun t => (0, t.index) := by
  rw [starts, history_initial, List.filterMap_map]
  exact congrFun List.filterMap_eq_map' _

/-! ### Positions -/

theorem nodup_map_index (ht : tasks.Pairwise (·.index < ·.index)) : (tasks.map Task.index).Nodup := by
  rw [List.nodup_iff_pairwise_ne, List.pairwise_map]
  exact ht.imp fun h => Nat.ne_of_lt h

theorem eq_of_index_eq (ht : tasks.Pairwise (·.index < ·.index)) {t t' : Task} (hmem : t ∈ tasks)
    (hmem' : t' ∈ tasks) (h : t.index = t'.index) : t = t' :=
  List.inj_on_of_nodup_map (nodup_map_index ht) hmem hmem' h

/-! ### Accounting -/

/-- The ledger of a pool: the tasks taken and the flights that are over. -/
structure Ledger (tasks : List Task) (departures : List Departure) (landed : List Flight) (p : Pool) : Prop where
  starts_eq : p.starts = departures.map Departure.entry
  finishes_eq : p.finishes = landed.map Flight.key
  /-- what was taken is over or in flight, and nothing else is -/
  flights_perm : (departures.map Departure.flight).Perm (landed ++ p.flying)
  /-- tasks are taken from the front of the input, none of them twice and none passed over -/
  taken_isPrefix : departures.map Departure.task ++ p.waiting <+: tasks
  /-- no task is dropped unless one stops the run -/
  taken_eq : (∀ f ∈ landed, f.task.stops = false) → departures.map Departure.task ++ p.waiting = tasks
  /-- nothing waits once a task has stopped the run -/
  waiting_eq : (∃ f ∈ landed, f.task.stops = true) → p.waiting = []

namespace Ledger

theorem length_eq (hl : Ledger tasks departures landed p) :
    departures.length = landed.length + p.flying.length := by
  simpa using hl.flights_perm.length_eq

theorem departed_isPrefix (hl : Ledger tasks departures landed p) : departures.map Departure.task <+: tasks :=
  (List.prefix_append ..).trans hl.taken_isPrefix

theorem map_index_starts (hl : Ledger tasks departures landed p) :
    p.starts.map Prod.snd = departures.map (·.task.index) := by
  rw [hl.starts_eq, List.map_map]
  rfl

/-- When nothing is in flight any more, the tasks that were taken are the ones that ended. -/
theorem perm_index_finishes (hl : Ledger tasks departures landed p)
    (hperm : (departures.map Departure.flight).Perm landed) :
    (p.finishes.map Prod.snd).Perm (departures.map (·.task.index)) := by
  have hmap := (hperm.map (·.task.index)).symm
  rw [List.map_map] at hmap
  rw [hl.finishes_eq, List.map_map]
  exact hmap

theorem task_mem (hl : Ledger tasks departures landed p) (hf : f ∈ landed ++ p.flying) :
    f.task ∈ departures.map Departure.task := by
  obtain ⟨l, hmem, rfl⟩ := List.mem_map.mp (hl.flights_perm.mem_iff.mpr hf)
  exact List.mem_map.mpr ⟨l, hmem, rfl⟩

theorem task_mem_tasks (hl : Ledger tasks departures landed p) (hf : f ∈ landed ++ p.flying) :
    f.task ∈ tasks :=
  hl.departed_isPrefix.subset (hl.task_mem hf)

theorem initial (w : Nat) (tasks : List Task) :
    Ledger tasks ((tasks.take (max w 1)).map (Departure.mk 0)) [] (initial w tasks) where
  starts_eq := by rw [starts_initial, List.map_map]; rfl
  finishes_eq := finishes_initial w tasks
  flights_perm := by simp [Pool.initial, fill, Departure.flight, Function.comp_def]
  taken_isPrefix := by simp [Pool.initial, fill, Function.comp_def]
  taken_eq _ := by simp [Pool.initial, fill, Function.comp_def]
  waiting_eq h := by simp at h

/-- The flight that ends moves from the ones in flight to the ones that are over. -/
theorem perm_landed (hl : Ledger tasks departures landed p) (hf : f ∈ p.flying) :
    (departures.map Departure.flight).Perm ((landed ++ [f]) ++ p.flying.erase f) := by
  refine hl.flights_perm.trans ?_
  rw [List.append_assoc]
  exact (List.perm_cons_erase hf).append_left landed

theorem land (hl : Ledger tasks departures landed p) (hf : Flight.first? p.flying = some f)
    (hend : f.task.stops = true ∨ p.waiting = []) :
    Ledger tasks departures (landed ++ [f]) (p.land f) where
  starts_eq := by rw [starts_land, hl.starts_eq]
  finishes_eq := by rw [finishes_land, hl.finishes_eq, List.map_append, List.map_singleton]
  flights_perm := hl.perm_landed (Flight.mem_of_first? hf)
  taken_isPrefix := by simpa [Pool.land] using hl.departed_isPrefix
  taken_eq h := by
    have hgo : ∀ g ∈ landed, g.task.stops = false := fun g hg => h g (List.mem_append_left _ hg)
    have hw : p.waiting = [] := by
      rcases hend with hs | hw
      · simp [h f (by simp)] at hs
      · exact hw
    have hall := hl.taken_eq hgo
    rwa [hw] at hall
  waiting_eq _ := rfl

theorem relay (hl : Ledger tasks departures landed p) (hf : Flight.first? p.flying = some f)
    (hs : f.task.stops = false) (hw : p.waiting = t :: rest) :
    Ledger tasks (departures ++ [⟨f.due, t⟩]) (landed ++ [f]) (p.relay f t rest) where
  starts_eq := by
    rw [starts_relay, hl.starts_eq, List.map_append, List.map_singleton]
    rfl
  finishes_eq := by rw [finishes_relay, hl.finishes_eq, List.map_append, List.map_singleton]
  flights_perm := by
    have hperm := (hl.perm_landed (Flight.mem_of_first? hf)).append_right [⟨t, f.due + t.delay⟩]
    simpa [Pool.relay, Departure.flight, List.append_assoc] using hperm
  taken_isPrefix := by
    have hpre := hl.taken_isPrefix
    rw [hw] at hpre
    simpa [Pool.relay] using hpre
  taken_eq h := by
    have hall := hl.taken_eq fun g hg => h g (List.mem_append_left _ hg)
    rw [hw] at hall
    simpa [Pool.relay] using hall
  waiting_eq h := by
    obtain ⟨g, hg, hgs⟩ := h
    rcases List.mem_append.mp hg with hg | hg
    · -- an earlier stop would have left nothing to wait
      simp [hl.waiting_eq ⟨g, hg, hgs⟩] at hw
    · obtain rfl := List.mem_singleton.mp hg
      simp [hs] at hgs

end Ledger

/-! ### Times -/

/-- **First in, first out**: task number `k` is taken at the first moment at which so many of the tasks
before it are over that one of the `w` workers is free. -/
def Fifo (w : Nat) (departures : List Departure) : Prop :=
  ∀ k l, departures[k]? = some l →
    ∀ time, l.time ≤ time ↔ k < w + (departures.take k).countP (·.flight.due ≤ time)

theorem fifo_of_length_le (hl : departures.length ≤ w) (h0 : ∀ l ∈ departures, l.time = 0) :
    Fifo w departures := by
  intro k l hk time
  have hlt := (List.getElem?_eq_some_iff.mp hk).1
  rw [h0 l (List.mem_of_getElem? hk)]
  omega

/-- One task more: only the moment at which it is taken matters. -/
theorem Fifo.concat {l : Departure} (h : Fifo w departures)
    (hl : ∀ time, l.time ≤ time ↔ departures.length < w + departures.countP (·.flight.due ≤ time)) :
    Fifo w (departures ++ [l]) := by
  intro k l' hk time
  rcases Nat.lt_or_ge k departures.length with hlt | hge
  · rw [List.getElem?_append_left hlt] at hk
    rw [List.take_append_of_le_length hlt.le]
    exact h k l' hk time
  · have hk' : k = departures.length := by
      have hlt := (List.getElem?_eq_some_iff.mp hk).1
      simp only [List.length_append, List.length_singleton] at hlt
      omega
    subst hk'
    obtain rfl : l = l' := by simpa using hk
    rw [List.take_left]
    exact hl time

/-- The ends come in their order, and what is in flight ends later. -/
structure Chronological (landed : List Flight) (p : Pool) : Prop where
  sorted : landed.Pairwise fun f g => Earlier f.key g.key
  ahead : ∀ f ∈ landed, ∀ g ∈ p.flying, Earlier f.key g.key

/-- The count that decides when the next task is taken: the flights that are over are due by the end of
`f`, and those in flight are not due before it. -/
theorem Ledger.due_le_iff (hl : Ledger tasks departures landed p) (hc : Chronological landed p)
    (hf : Flight.first? p.flying = some f) (time : Nat) :
    f.due ≤ time ↔ landed.length < departures.countP (·.flight.due ≤ time) := by
  have hcount : departures.countP (·.flight.due ≤ time) =
      landed.countP (·.due ≤ time) + p.flying.countP (·.due ≤ time) := by
    have hperm := hl.flights_perm.countP_eq (fun f => decide (f.due ≤ time))
    rwa [List.countP_map, List.countP_append] at hperm
  have hmem := Flight.mem_of_first? hf
  rw [hcount]
  constructor
  · intro hle
    -- whatever is over was due before `f`, and `f` itself is due
    have hall : landed.countP (·.due ≤ time) = landed.length :=
      List.countP_eq_length.mpr fun g hg => by
        have := (hc.ahead g hg f hmem).le
        simp only [Flight.key] at this
        exact decide_eq_true (by omega)
    have hone : 0 < p.flying.countP (·.due ≤ time) :=
      List.countP_pos_iff.mpr ⟨f, hmem, decide_eq_true hle⟩
    omega
  · intro hlt
    by_contra hgt
    -- as long as `f` is not due, no other flight is
    have hnone : p.flying.countP (·.due ≤ time) = 0 :=
      List.countP_eq_zero.mpr fun g hg => by
        have := Flight.not_earlier_of_first? hf hg
        simp only [Earlier, Flight.key] at this
        simp only [decide_eq_true_eq]
        omega
    have hsome := List.countP_le_length (p := fun f : Flight => decide (f.due ≤ time)) (l := landed)
    omega

/-- No position occurs twice among the flights. -/
theorem Ledger.nodup_index (hl : Ledger tasks departures landed p)
    (ht : tasks.Pairwise (·.index < ·.index)) : ((landed ++ p.flying).map (·.task.index)).Nodup := by
  have hnodup := nodup_map_index (ht.sublist hl.departed_isPrefix.sublist)
  rw [← (hl.flights_perm.map _).nodup_iff, List.map_map]
  rwa [List.map_map] at hnodup

/-- The flight that ends is before all others in flight. -/
theorem Ledger.earlier_of_mem_erase (hl : Ledger tasks departures landed p)
    (ht : tasks.Pairwise (·.index < ·.index)) (hf : Flight.first? p.flying = some f)
    (hg : g ∈ p.flying.erase f) : Earlier f.key g.key := by
  have hmem := Flight.mem_of_first? hf
  have hnodup : ((f :: p.flying.erase f).map (·.task.index)).Nodup := by
    rw [← ((List.perm_cons_erase hmem).map _).nodup_iff]
    exact (List.map_append .. ▸ hl.nodup_index ht).of_append_right
  rw [List.map_cons, List.nodup_cons] at hnodup
  refine earlier_of_not_earlier (Flight.not_earlier_of_first? hf (List.mem_of_mem_erase hg)) fun heq => ?_
  exact hnodup.1 (List.mem_map.mpr ⟨g, hg, heq.symm⟩)

namespace Chronological

theorem initial (w : Nat) (tasks : List Task) : Chronological [] (initial w tasks) :=
  ⟨List.Pairwise.nil, fun _ hf => absurd hf List.not_mem_nil⟩

/-- The ends stay in their order when the first flight ends. -/
theorem sorted_concat (hc : Chronological landed p) (hf : Flight.first? p.flying = some f) :
    (landed ++ [f]).Pairwise fun f g => Earlier f.key g.key := by
  refine List.pairwise_append.mpr ⟨hc.sorted, List.pairwise_singleton .., fun g hg f' hf' => ?_⟩
  rw [List.mem_singleton.mp hf']
  exact hc.ahead g hg f (Flight.mem_of_first? hf)

/-- What stays in flight ends after everything that is over. -/
theorem ahead_of_mem_erase (hc : Chronological landed p) (hl : Ledger tasks departures landed p)
    (ht : tasks.Pairwise (·.index < ·.index)) (hf : Flight.first? p.flying = some f) :
    ∀ g ∈ landed ++ [f], ∀ g' ∈ p.flying.erase f, Earlier g.key g'.key := by
  intro g hg g' hg'
  rcases List.mem_append.mp hg with hg | hg
  · exact hc.ahead g hg g' (List.mem_of_mem_erase hg')
  · rw [List.mem_singleton.mp hg]
    exact hl.earlier_of_mem_erase ht hf hg'

theorem land (hc : Chronological landed p) (hl : Ledger tasks departures landed p)
    (ht : tasks.Pairwise (·.index < ·.index)) (hf : Flight.first? p.flying = some f) :
    Chronological (landed ++ [f]) (p.land f) :=
  ⟨hc.sorted_concat hf, hc.ahead_of_mem_erase hl ht hf⟩

/-- A task that is taken has a later position than all that are over, so it ends after them even if it
lasts no time. -/
theorem relay (hc : Chronological landed p) (hl : Ledger tasks departures landed p)
    (ht : tasks.Pairwise (·.index < ·.index)) (hf : Flight.first? p.flying = some f)
    (hw : p.waiting = t :: rest) : Chronological (landed ++ [f]) (p.relay f t rest) := by
  refine ⟨hc.sorted_concat hf, fun g hg g' hg' => ?_⟩
  rcases List.mem_append.mp hg' with hg' | hg'
  · exact hc.ahead_of_mem_erase hl ht hf g hg g' hg'
  · rw [List.mem_singleton.mp hg']
    -- at the same time the order is that of the positions
    have hdue : g.due ≤ f.due := by
      rcases List.mem_append.mp hg with hg | hg
      · exact (hc.ahead g hg f (Flight.mem_of_first? hf)).le
      · rw [List.mem_singleton.mp hg]
    have hindex : g.task.index < t.index := by
      have hmem : g.task ∈ departures.map Departure.task := hl.task_mem <| by
        rcases List.mem_append.mp hg with hg | hg
        · exact List.mem_append_left _ hg
        · rw [List.mem_singleton.mp hg]
          exact List.mem_append_right _ (Flight.mem_of_first? hf)
      have hlt := ht.sublist hl.taken_isPrefix.sublist
      exact (List.pairwise_append.mp hlt).2.2 _ hmem t (by simp [hw])
    simp only [Earlier, Flight.key]
    omega

end Chronological

/-- The first task in the queue is taken at the end of the flight that is due first. -/
theorem Ledger.fifo_relay (hl : Ledger tasks departures landed p) (hc : Chronological landed p)
    (hp : p.Steady) (h : Fifo p.workers departures) (hf : Flight.first? p.flying = some f)
    (hw : p.waiting = t :: rest) : Fifo p.workers (departures ++ [⟨f.due, t⟩]) := by
  refine h.concat fun time => ?_
  -- all workers are busy, so as many tasks were taken as are over and there are workers
  have hlen := hl.length_eq
  have hbusy := hp.busy (by simp [hw])
  rw [hl.due_le_iff hc hf time]
  omega

/-- **Ledgers exist** all along a run, and what they tell about times holds. -/
theorem Reachable.exists_ledger (ht : tasks.Pairwise (·.index < ·.index)) (hp : Reachable w tasks p) :
    ∃ departures landed, Ledger tasks departures landed p ∧ Fifo p.workers departures ∧
      Chronological landed p := by
  induction hp with
  | initial =>
    refine ⟨_, _, .initial w tasks, fifo_of_length_le ?_ ?_, .initial w tasks⟩
    · rw [List.length_map, List.length_take]
      exact Nat.min_le_left ..
    · intro l hl
      obtain ⟨t, -, rfl⟩ := List.mem_map.mp hl
      rfl
  | land hp hf hend ih =>
    obtain ⟨departures, landed, hl, hfifo, hc⟩ := ih
    exact ⟨_, _, hl.land hf hend, hfifo, hc.land hl ht hf⟩
  | relay hp hf hs hw ih =>
    obtain ⟨departures, landed, hl, hfifo, hc⟩ := ih
    exact ⟨_, _, hl.relay hf hs hw, hl.fifo_relay hc hp.steady hfifo hf hw, hc.relay hl ht hf hw⟩

/-- **The ledger of a whole run**: everything that was taken is over, and everything was taken unless a
task stopped the run. -/
theorem exists_ledger_run (w : Nat) (ht : tasks.Pairwise (·.index < ·.index)) :
    ∃ departures landed, Ledger tasks departures landed (run w tasks) ∧ Fifo (max w 1) departures ∧
      (landed.Pairwise fun f g => Earlier f.key g.key) ∧
      (departures.map Departure.flight).Perm landed ∧
      ((∀ f ∈ landed, f.task.stops = false) → departures.map Departure.task = tasks) := by
  have hr := reachable_run w tasks
  obtain ⟨departures, landed, hl, hfifo, hc⟩ := hr.exists_ledger ht
  have hperm := hl.flights_perm
  rw [flying_run, List.append_nil] at hperm
  refine ⟨departures, landed, hl, hr.workers_eq ▸ hfifo, hc.sorted, hperm, fun hgo => ?_⟩
  have hall := hl.taken_eq hgo
  rwa [waiting_run, List.append_nil] at hall

/-! ### Moments of the history -/

/-- How many tasks are in flight after some events. -/
def inFlight (events : List Event) : Nat :=
  (events.filterMap Event.start?).length - (events.filterMap Event.finish?).length

theorem Ledger.inFlight_history (hl : Ledger tasks departures landed p) :
    inFlight p.history = p.flying.length := by
  have hlen := hl.length_eq
  have hs : (p.history.filterMap Event.start?).length = departures.length := by
    rw [← starts, hl.starts_eq, List.length_map]
  have hf : (p.history.filterMap Event.finish?).length = landed.length := by
    rw [← finishes, hl.finishes_eq, List.length_map]
  rw [inFlight, hs, hf]
  omega

theorem inFlight_concat_finished (events : List Event) (time index : Nat) :
    inFlight (events ++ [.finished time index]) ≤ inFlight events := by
  simp only [inFlight, List.filterMap_append, List.length_append]
  simp only [List.filterMap_cons, Event.start?, List.filterMap_nil, List.length_nil]
  omega

/-- The peak is reached at the beginning. -/
theorem Reachable.peak_eq (hp : Reachable w tasks p) :
    p.peak = min (max w 1) tasks.length ∧ p.flying.length ≤ p.peak := by
  induction hp with
  | initial => simp [Pool.initial, fill]
  | land _ hf _ ih =>
    have herase := length_erase_first hf
    simp only [Pool.land]
    omega
  | relay _ hf _ _ ih =>
    have herase := length_erase_first hf
    simp only [Pool.relay, List.length_append, List.length_singleton]
    omega

theorem Reachable.inFlight_history (ht : tasks.Pairwise (·.index < ·.index))
    (hp : Reachable w tasks p) : inFlight p.history ≤ min (max w 1) tasks.length := by
  obtain ⟨_, _, hl, -, -⟩ := hp.exists_ledger ht
  rw [hl.inFlight_history, ← hp.peak_eq.1]
  exact hp.peak_eq.2

/-- **The bound**: at no moment of its history has a pool more tasks in flight than workers. -/
theorem Reachable.inFlight_le (ht : tasks.Pairwise (·.index < ·.index)) (hp : Reachable w tasks p)
    {past : List Event} (hpast : past <+: p.history) : inFlight past ≤ min (max w 1) tasks.length := by
  induction hp with
  | initial =>
    have hlen := (hpast.filterMap Event.start?).length_le
    rw [← starts, starts_initial, List.length_map, List.length_take] at hlen
    unfold inFlight
    omega
  | land hp hf hend ih =>
    rcases List.prefix_concat_iff.mp hpast with rfl | hpast
    · exact (hp.land hf hend).inFlight_history ht
    · exact ih hpast
  | @relay p f t rest hp hf hs hw ih =>
    have hsplit : past <+: (p.history ++ [.finished f.due f.task.index]) ++ [.started f.due t.index] := by
      simpa [Pool.relay] using hpast
    rcases List.prefix_concat_iff.mp hsplit with rfl | hsplit
    · simpa [Pool.relay] using (hp.relay hf hs hw).inFlight_history ht
    · -- between the end and the start one worker is free
      rcases List.prefix_concat_iff.mp hsplit with rfl | hsplit
      · exact (inFlight_concat_finished ..).trans (hp.inFlight_history ht)
      · exact ih hsplit

/-- The bound is reached as soon as every worker has its first task. -/
theorem Reachable.exists_inFlight_eq (hp : Reachable w tasks p) :
    ∃ past, past <+: p.history ∧ inFlight past = min (max w 1) tasks.length := by
  refine ⟨(Pool.initial w tasks).history, ?_, ?_⟩
  · induction hp with
    | initial => exact List.prefix_rfl
    | land _ _ _ ih => exact ih.trans (List.prefix_append ..)
    | relay _ _ _ _ ih => exact ih.trans (List.prefix_append ..)
  · rw [(Ledger.initial w tasks).inFlight_history]
    simp [Pool.initial, fill]

/-- While something waits no task has stopped the run. -/
theorem Ledger.stops_eq_false (hl : Ledger tasks departures landed p)
    (ht : tasks.Pairwise (·.index < ·.index)) (hw : p.waiting ≠ []) {a : Event} (ha : a ∈ p.history)
    (hmem : t ∈ tasks) (hat : a.finish?.map Prod.snd = some t.index) : t.stops = false := by
  obtain ⟨⟨time, index⟩, hfin, hindex⟩ := Option.map_eq_some_iff.mp hat
  have hkey : (time, index) ∈ p.finishes := List.mem_filterMap.mpr ⟨a, ha, hfin⟩
  rw [hl.finishes_eq] at hkey
  obtain ⟨g, hg, hgkey⟩ := List.mem_map.mp hkey
  have hgmem := hl.task_mem_tasks (List.mem_append_left _ hg)
  obtain rfl : g.task = t := by
    refine eq_of_index_eq ht hgmem hmem ?_
    rw [← hindex, ← congrArg Prod.snd hgkey]
    rfl
  by_contra hstops
  exact hw (hl.waiting_eq ⟨g, hg, by simpa using hstops⟩)

/-- **Stops**: no task is started after the end of one that stops the run. -/
theorem Reachable.no_start_after_stop (ht : tasks.Pairwise (·.index < ·.index))
    (hp : Reachable w tasks p) :
    p.history.Pairwise fun a b =>
      (∃ t ∈ tasks, t.stops = true ∧ a.finish?.map Prod.snd = some t.index) → b.start? = none := by
  induction hp with
  | initial =>
    -- there are starts only
    rw [history_initial, List.pairwise_map]
    refine List.pairwise_of_forall fun a b h => ?_
    obtain ⟨_, _, _, hfin⟩ := h
    simp [Event.finish?] at hfin
  | land _ _ _ ih =>
    -- the event that is added is no start
    refine List.pairwise_append.mpr ⟨ih, List.pairwise_singleton .., fun a _ b hb _ => ?_⟩
    rw [List.mem_singleton.mp hb]
    rfl
  | @relay p f t rest hp hf hs hw ih =>
    -- a task is started, so it waited, and no flight that is over has stopped the run
    obtain ⟨departures, landed, hl, -, -⟩ := hp.exists_ledger ht
    have hfmem := hl.task_mem_tasks (List.mem_append_right _ (Flight.mem_of_first? hf))
    refine List.pairwise_append.mpr ⟨ih, ?_, fun a ha b _ h => ?_⟩
    · rw [List.pairwise_pair]
      rintro ⟨t', ht', hstop, hindex⟩
      obtain rfl : f.task = t' := eq_of_index_eq ht hfmem ht' (by simpa [Event.finish?] using hindex)
      simp [hs] at hstop
    · obtain ⟨t', ht', hstop, hindex⟩ := h
      have hgo := hl.stops_eq_false ht (by simp [hw]) ha ht' hindex
      simp [hgo] at hstop

end Pool

end CrateAudit
