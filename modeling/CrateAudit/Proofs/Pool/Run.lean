import CrateAudit.Pool
import Mathlib.Data.List.Nodup

/-!
# Runs of a pool

A pool that gives a task to every free worker has one kind of step. The flight that is due first ends;
its worker takes the next waiting task at once (`Pool.relay`), or nothing waits any more and the worker
stays free (`Pool.land`). `Pool.Reachable` has these steps as constructors, so what holds all along a run
is proved by one induction with three cases, and `reachable_run` carries it over to `Pool.run`.

The fuel of `Pool.run` is the number of tasks. Each step uses up one task that waits or is in flight, so
the run ends with nothing waiting and nothing in flight (`flying_run`, `waiting_run`).
-/

namespace CrateAudit

/-! ### The flight that ends first -/

/-- **Order of ends**: by time, and by position at the same time. -/
def Earlier (a b : Nat × Nat) : Prop := a.1 < b.1 ∨ a.1 = b.1 ∧ a.2 < b.2

theorem Earlier.le {a b : Nat × Nat} (h : Earlier a b) : a.1 ≤ b.1 := by
  unfold Earlier at h
  omega

/-- Ends at different positions are comparable. -/
theorem earlier_of_not_earlier {a b : Nat × Nat} (h : ¬ Earlier b a) (hne : a.2 ≠ b.2) : Earlier a b := by
  unfold Earlier at *
  omega

namespace Flight

/-- The time at which a flight ends and the position of its task. -/
def key (f : Flight) : Nat × Nat := (f.due, f.task.index)

theorem before_iff {f g : Flight} : f.before g = true ↔ Earlier f.key g.key := by
  simp [before, Earlier, key]

theorem first?_eq_none_iff {fs : List Flight} : first? fs = none ↔ fs = [] := by
  cases fs with
  | nil => simp [first?]
  | cons f rest =>
    simp only [first?, reduceCtorEq, iff_false]
    split
    · simp
    · split <;> simp

theorem mem_of_first? {fs : List Flight} {f : Flight} (h : first? fs = some f) : f ∈ fs := by
  induction fs generalizing f with
  | nil => simp [first?] at h
  | cons g rest ih =>
    rw [first?] at h
    split at h
    · simp_all
    · rename_i g' hg'
      split at h <;> obtain rfl := Option.some.inj h
      · exact List.mem_cons_of_mem _ (ih hg')
      · exact List.mem_cons_self

/-- No flight ends before the first one. -/
theorem not_earlier_of_first? {fs : List Flight} {f g : Flight} (h : first? fs = some f)
    (hg : g ∈ fs) : ¬ Earlier g.key f.key := by
  induction fs generalizing f with
  | nil => simp [first?] at h
  | cons a rest ih =>
    rw [first?] at h
    split at h
    · rename_i hrest
      obtain rfl := Option.some.inj h
      obtain rfl : g = a := by simpa [first?_eq_none_iff.mp hrest] using hg
      unfold Earlier
      omega
    · rename_i b hb
      have hrest := fun hmem : g ∈ rest => ih hb hmem
      split at h <;> rename_i hba <;> obtain rfl := Option.some.inj h <;> rw [before_iff] at hba
      · -- the first flight of the rest is before `a`
        rcases List.mem_cons.mp hg with rfl | hmem
        · unfold Earlier at *
          omega
        · exact hrest hmem
      · -- `a` is before the first flight of the rest, or at the same place
        rcases List.mem_cons.mp hg with rfl | hmem
        · unfold Earlier
          omega
        · intro hgf
          have := hrest hmem
          unfold Earlier at *
          omega

end Flight

namespace Pool

variable {p : Pool} {f : Flight} {t : Task} {rest tasks : List Task} {w : Nat}

/-! ### One step -/

/-- The worker of a flight that ends stays free. -/
def land (p : Pool) (f : Flight) : Pool :=
  { p with
    clock := f.due
    waiting := []
    flying := p.flying.erase f
    history := p.history ++ [.finished f.due f.task.index]
    peak := max p.peak (p.flying.erase f).length }

/-- The worker of a flight that ends takes the next task at once. -/
def relay (p : Pool) (f : Flight) (t : Task) (rest : List Task) : Pool :=
  { p with
    clock := f.due
    waiting := rest
    flying := p.flying.erase f ++ [⟨t, f.due + t.delay⟩]
    history := p.history ++ [.finished f.due f.task.index, .started f.due t.index]
    peak := max p.peak (p.flying.erase f ++ [Flight.mk t (f.due + t.delay)]).length }

/-- **No worker is idle while a task waits**, and there are never more tasks in flight than workers. -/
structure Steady (p : Pool) : Prop where
  room : p.flying.length ≤ p.workers
  busy : p.waiting ≠ [] → p.flying.length = p.workers

theorem steady_fill (h : p.flying.length ≤ p.workers) : p.fill.Steady where
  room := by
    simp only [fill, List.length_append, List.length_map, List.length_take]
    omega
  busy hw := by
    simp only [fill, ne_eq, List.drop_eq_nil_iff, Nat.not_le] at hw
    simp only [fill, List.length_append, List.length_map, List.length_take]
    omega

theorem length_erase_first (hf : Flight.first? p.flying = some f) :
    (p.flying.erase f).length + 1 = p.flying.length := by
  have hmem := Flight.mem_of_first? hf
  have hpos := List.length_pos_of_mem hmem
  rw [List.length_erase_of_mem hmem]
  omega

/-- Nothing waits after the end of a flight: no task is started. -/
theorem fill_finish_eq_land (h : f.task.stops = true ∨ p.waiting = []) :
    (p.finish f).fill = p.land f := by
  rcases h with h | h <;> simp [fill, finish, land, h]

/-- Something waits after the end of a flight: exactly one worker is free, and it takes one task. -/
theorem fill_finish_eq_relay (hp : p.Steady) (hf : Flight.first? p.flying = some f)
    (hs : f.task.stops = false) (hw : p.waiting = t :: rest) :
    (p.finish f).fill = p.relay f t rest := by
  have hfree : p.workers - (p.flying.erase f).length = 1 := by
    have hbusy := hp.busy (by simp [hw])
    have herase := length_erase_first hf
    omega
  simp [fill, finish, relay, hs, hw, hfree]

/-- **One step**: the worker of the flight that ends stays free, or takes the next task. -/
theorem fill_finish_cases (hp : p.Steady) (hf : Flight.first? p.flying = some f) :
    ((f.task.stops = true ∨ p.waiting = []) ∧ (p.finish f).fill = p.land f) ∨
    ∃ t rest, f.task.stops = false ∧ p.waiting = t :: rest ∧ (p.finish f).fill = p.relay f t rest := by
  by_cases hend : f.task.stops = true ∨ p.waiting = []
  · exact .inl ⟨hend, fill_finish_eq_land hend⟩
  · obtain ⟨hs, hw⟩ : f.task.stops = false ∧ p.waiting ≠ [] := by simpa using hend
    obtain ⟨t, rest, hw⟩ := List.exists_cons_of_ne_nil hw
    exact .inr ⟨t, rest, hs, hw, fill_finish_eq_relay hp hf hs hw⟩

/-! ### Reachable pools -/

/-- The pools that a run passes through. -/
inductive Reachable (w : Nat) (tasks : List Task) : Pool → Prop
  | initial : Reachable w tasks (initial w tasks)
  | land {p : Pool} {f : Flight} (hp : Reachable w tasks p) (hf : Flight.first? p.flying = some f)
      (hend : f.task.stops = true ∨ p.waiting = []) : Reachable w tasks (p.land f)
  | relay {p : Pool} {f : Flight} {t : Task} {rest : List Task} (hp : Reachable w tasks p)
      (hf : Flight.first? p.flying = some f) (hs : f.task.stops = false)
      (hw : p.waiting = t :: rest) : Reachable w tasks (p.relay f t rest)

theorem Reachable.workers_eq (hp : Reachable w tasks p) : p.workers = max w 1 := by
  induction hp with
  | initial => rfl
  | land _ _ _ ih => exact ih
  | relay _ _ _ _ ih => exact ih

theorem Reachable.steady (hp : Reachable w tasks p) : p.Steady := by
  induction hp with
  | initial => exact steady_fill (by simp)
  | land _ hf _ ih =>
    have herase := length_erase_first hf
    have hroom := ih.room
    exact ⟨by simp only [Pool.land]; omega, fun hw => absurd rfl hw⟩
  | relay _ hf _ hw ih =>
    -- the worker that gets free takes the next task at once, so all are busy again
    have herase := length_erase_first hf
    have hbusy := ih.busy (by simp [hw])
    constructor <;> simp only [Pool.relay, List.length_append, List.length_singleton] <;> omega

/-- The end of a flight leads to a reachable pool, as `runFor` makes it. -/
theorem Reachable.next (hp : Reachable w tasks p) (hf : Flight.first? p.flying = some f) :
    Reachable w tasks (p.finish f).fill := by
  obtain ⟨hend, heq⟩ | ⟨t, rest, hs, hw, heq⟩ := fill_finish_cases hp.steady hf
  · rw [heq]
    exact hp.land hf hend
  · rw [heq]
    exact hp.relay hf hs hw

theorem Reachable.runFor (hp : Reachable w tasks p) (n : Nat) : Reachable w tasks (runFor n p) := by
  induction n generalizing p with
  | zero => exact hp
  | succ n ih =>
    rw [Pool.runFor]
    split
    · exact hp
    · rename_i hf
      exact ih (hp.next hf)

theorem reachable_run (w : Nat) (tasks : List Task) : Reachable w tasks (run w tasks) :=
  Reachable.initial.runFor _

/-! ### The end of a run -/

/-- How many tasks wait or are in flight. -/
def pending (p : Pool) : Nat := p.waiting.length + p.flying.length

/-- Each step uses up a task. -/
theorem pending_next (hp : Reachable w tasks p) (hf : Flight.first? p.flying = some f) :
    (p.finish f).fill.pending < p.pending := by
  have herase := length_erase_first hf
  obtain ⟨-, heq⟩ | ⟨t, rest, -, hw, heq⟩ := fill_finish_cases hp.steady hf
  · rw [heq]
    simp only [pending, land, List.length_nil]
    omega
  -- the task that is taken moves from the queue to the flights, and one flight is over
  · rw [heq]
    simp only [pending, relay, hw, List.length_cons, List.length_append, List.length_nil]
    omega

theorem flying_runFor {n : Nat} (hp : Reachable w tasks p) (hn : p.pending ≤ n) :
    (runFor n p).flying = [] := by
  -- the steps left are enough for what is pending, and each of them takes one from both
  induction n generalizing p with
  | zero =>
    unfold pending at hn
    exact List.eq_nil_of_length_eq_zero (by rw [runFor]; omega)
  | succ n ih =>
    rw [runFor]
    split
    · rename_i hf
      exact Flight.first?_eq_none_iff.mp hf
    · rename_i hf
      have hless := pending_next hp hf
      exact ih (hp.next hf) (by omega)

theorem pending_initial (w : Nat) (tasks : List Task) : (initial w tasks).pending = tasks.length := by
  simp only [pending, initial, fill, List.length_drop, List.length_nil, List.nil_append,
    List.length_map, List.length_take]
  omega

/-- Nothing is in flight when a run is over. -/
theorem flying_run (w : Nat) (tasks : List Task) : (run w tasks).flying = [] :=
  flying_runFor .initial (Nat.le_of_eq (pending_initial w tasks))

/-- Nothing waits when a run is over. -/
theorem waiting_run (w : Nat) (tasks : List Task) : (run w tasks).waiting = [] := by
  have hr := reachable_run w tasks
  by_contra hw
  -- a task that waits would find a worker free, as there is at least one and none is busy
  have hbusy := hr.steady.busy hw
  rw [flying_run, hr.workers_eq, List.length_nil] at hbusy
  omega

/-! ### Stopping early -/

@[simp] theorem finishes_fill : p.fill.finishes = p.finishes := by
  have hnone : ∀ ts : List Task, (ts.map fun t => Event.started p.clock t.index).filterMap Event.finish? = [] :=
    fun ts => by simp [List.filterMap_map, Function.comp_def, Event.finish?]
  simp only [finishes, fill, List.filterMap_append, hnone, List.append_nil]

@[simp] theorem finishes_finish : (p.finish f).finishes = p.finishes ++ [f.key] := by
  simp [finishes, finish, Event.finish?, Flight.key]

theorem finishes_initial (w : Nat) (tasks : List Task) : (initial w tasks).finishes = [] := by
  rw [initial, finishes_fill]
  rfl

theorem runFor_of_first?_eq_none (hf : Flight.first? p.flying = none) (n : Nat) : runFor n p = p := by
  cases n <;> simp [runFor, hf]

theorem runFor_succ_of_first? (hf : Flight.first? p.flying = some f) (n : Nat) :
    runFor (n + 1) p = runFor n (p.finish f).fill := by
  rw [runFor, hf]

theorem finishes_isPrefix_runFor (n : Nat) : p.finishes <+: (runFor n p).finishes := by
  induction n generalizing p with
  | zero => exact List.prefix_rfl
  | succ n ih =>
    cases hf : Flight.first? p.flying with
    | none => exact (runFor_of_first?_eq_none hf (n + 1)).symm ▸ List.prefix_rfl
    | some f =>
      rw [runFor_succ_of_first? hf]
      refine List.IsPrefix.trans ?_ ih
      simp

/-- Each step ends one flight, so a run that is stopped early has seen the first ends of a longer one. -/
theorem finishes_runFor_eq_take {b n : Nat} (h : b ≤ n) :
    (runFor b p).finishes = (runFor n p).finishes.take (p.finishes.length + b) := by
  induction b generalizing n p with
  | zero => exact List.prefix_iff_eq_take.mp (finishes_isPrefix_runFor n)
  | succ b ih =>
    cases hf : Flight.first? p.flying with
    | none =>
      rw [runFor_of_first?_eq_none hf, runFor_of_first?_eq_none hf, List.take_of_length_le (by omega)]
    | some f =>
      obtain ⟨n, rfl⟩ : ∃ n', n = n' + 1 := ⟨n - 1, by omega⟩
      have hlen : (p.finish f).fill.finishes.length + b = p.finishes.length + (b + 1) := by
        rw [finishes_fill, finishes_finish, List.length_append, List.length_singleton]
        omega
      rw [runFor_succ_of_first? hf, runFor_succ_of_first? hf, ih (Nat.le_of_succ_le_succ h), hlen]

theorem runFor_of_flying_eq_nil {m n : Nat} (h : (runFor m p).flying = []) (hmn : m ≤ n) :
    runFor n p = runFor m p := by
  induction m generalizing n p with
  | zero => exact runFor_of_first?_eq_none (Flight.first?_eq_none_iff.mpr h) n
  | succ m ih =>
    cases hf : Flight.first? p.flying with
    | none => rw [runFor_of_first?_eq_none hf, runFor_of_first?_eq_none hf]
    | some f =>
      obtain ⟨n, rfl⟩ : ∃ n', n = n' + 1 := ⟨n - 1, by omega⟩
      rw [runFor_succ_of_first? hf] at h
      rw [runFor_succ_of_first? hf, runFor_succ_of_first? hf]
      exact ih h (Nat.le_of_succ_le_succ hmn)

/-- **Stopping early**: the first `b` ends of a run are those of the run that is stopped after them. -/
theorem finishes_runFor_initial (b w : Nat) (tasks : List Task) :
    (runFor b (initial w tasks)).finishes = (run w tasks).finishes.take b := by
  have hlen : (initial w tasks).finishes.length = 0 := by rw [finishes_initial, List.length_nil]
  rcases Nat.le_total b tasks.length with hle | hge
  · rw [finishes_runFor_eq_take hle, hlen, Nat.zero_add, run]
  -- there are no more steps than tasks, so a longer run is the whole run
  · have hrun : runFor b (initial w tasks) = run w tasks :=
      runFor_of_flying_eq_nil (flying_run w tasks) hge
    have hall := finishes_runFor_eq_take (p := initial w tasks) (Nat.le_refl b)
    rw [hlen, Nat.zero_add, hrun] at hall
    rw [hrun]
    exact hall

end Pool

end CrateAudit
