import CrateAudit.Proofs.Pool.Ledger
import Mathlib.Data.List.Sort

/-!
# List scheduling

The schedule of a pool in closed form. `IsListSchedule w delays starts` says of some start times that the
first `w` tasks start at time zero, and that task number `k` after them starts at the time of rank
`k - w` among the ends of the tasks before it. This is an equation for each start in terms of earlier
ones only, so it determines the schedule.

Ranks are handled by counting (`rank_eq_some_iff`): a time of rank `m` is due by some moment exactly when
more than `m` of the times are. In this form a list schedule is the statement `Pool.Fifo` about the
ledger of a run, and the properties of list schedules follow: tasks start in their order
(`IsListSchedule.sorted`), at most `w` of them run at any time (`IsListSchedule.running_le`), and exactly `w`
while one waits (`IsListSchedule.running_eq`).
-/

namespace CrateAudit

namespace Schedule

/-! ### Ranks -/

/-- The time of rank `m` among some times; the smallest has rank zero. -/
def rank (m : Nat) (times : List Nat) : Option Nat := (times.mergeSort (· ≤ ·))[m]?

/-- In a sorted list the entries up to a bound are the first ones. -/
theorem lt_countP_iff_of_sorted {times : List Nat} (hs : times.Pairwise (· ≤ ·)) (m time : Nat) :
    m < times.countP (· ≤ time) ↔ ∃ s, times[m]? = some s ∧ s ≤ time := by
  induction times generalizing m with
  | nil => simp
  | cons a times ih =>
    obtain ⟨hle, hs⟩ := List.pairwise_cons.mp hs
    by_cases ha : a ≤ time
    · rw [List.countP_cons_of_pos (by simpa using ha)]
      cases m with
      | zero => simp [ha]
      | succ m => simp [ih hs]
    · -- nothing is within the bound
      have hgt : ∀ b ∈ a :: times, time < b := by
        intro b hb
        rcases List.mem_cons.mp hb with rfl | hb
        · omega
        · have := hle b hb
          omega
      have hzero : (a :: times).countP (· ≤ time) = 0 :=
        List.countP_eq_zero.mpr fun b hb => by simpa using hgt b hb
      rw [hzero]
      refine iff_of_false (by omega) ?_
      rintro ⟨s, hm, hst⟩
      have := hgt s (List.mem_of_getElem? hm)
      omega

/-- **Ranks by counting**: the time of rank `m` is the bound from which on more than `m` times are met. -/
theorem rank_eq_some_iff {m s : Nat} {times : List Nat} :
    rank m times = some s ↔ ∀ time, s ≤ time ↔ m < times.countP (· ≤ time) := by
  have hsort : ∀ time, m < times.countP (· ≤ time) ↔ ∃ s, rank m times = some s ∧ s ≤ time := by
    intro time
    rw [← (List.mergeSort_perm times (· ≤ ·)).countP_eq]
    exact lt_countP_iff_of_sorted (List.pairwise_mergeSort' (· ≤ ·) times) m time
  constructor
  · intro hs time
    simp [hsort, hs]
  · intro h
    obtain ⟨s', hs', hle⟩ := (hsort s).mp ((h s).mp (Nat.le_refl s))
    have hge : s ≤ s' := (h s').mpr ((hsort s').mpr ⟨s', hs', Nat.le_refl s'⟩)
    rw [hs', Nat.le_antisymm hle hge]

/-! ### Schedules -/

/-- The ends of tasks that are started at the given times. -/
def ends (delays starts : List Nat) : List Nat := List.zipWith (· + ·) starts delays

/-- How many tasks are in flight at a time: started, and not over. -/
def running (time : Nat) (delays starts : List Nat) : Nat :=
  (starts.zip delays).countP fun (s, d) => s ≤ time ∧ time < s + d

/-- **List scheduling** on `w` workers. -/
structure IsListSchedule (w : Nat) (delays starts : List Nat) : Prop where
  length_eq : starts.length = delays.length
  /-- the first tasks are started at once -/
  early : ∀ k < delays.length, k < w → starts[k]? = some 0
  /-- a later task is started when all but `w - 1` of the tasks before it are over -/
  late : ∀ k < delays.length, w ≤ k → starts[k]? = rank (k - w) ((ends delays starts).take k)

namespace IsListSchedule

variable {w k s time : Nat} {delays starts : List Nat}

/-- List schedules by counting. -/
theorem le_iff (h : IsListSchedule w delays starts) (hk : starts[k]? = some s) (time : Nat) :
    s ≤ time ↔ k < w + ((ends delays starts).take k).countP (· ≤ time) := by
  have hlt : k < delays.length := h.length_eq ▸ (List.getElem?_eq_some_iff.mp hk).1
  rcases Nat.lt_or_ge k w with hw | hw
  · have hzero : 0 = s := Option.some.inj ((h.early k hlt hw).symm.trans hk)
    omega
  · have hrank := rank_eq_some_iff.mp ((h.late k hlt hw).symm.trans hk) time
    omega

theorem of_le_iff (hlen : starts.length = delays.length)
    (h : ∀ k s, starts[k]? = some s →
      ∀ time, s ≤ time ↔ k < w + ((ends delays starts).take k).countP (· ≤ time)) :
    IsListSchedule w delays starts where
  length_eq := hlen
  early k hk hw := by
    have hs := List.getElem?_eq_getElem (hlen ▸ hk)
    have hzero := (h k _ hs 0).mpr (by omega)
    rw [hs, Nat.le_zero.mp hzero]
  late k hk hw := by
    have hs := List.getElem?_eq_getElem (hlen ▸ hk)
    rw [hs, eq_comm, rank_eq_some_iff]
    intro time
    have hcount := h k _ hs time
    omega

/-- One task more adds at most one to a count. -/
theorem countP_take_succ_le (times : List Nat) (k time : Nat) :
    (times.take (k + 1)).countP (· ≤ time) ≤ (times.take k).countP (· ≤ time) + 1 := by
  rw [List.take_add_one, List.countP_append]
  have hlen := List.countP_le_length (p := fun s => decide (s ≤ time)) (l := times[k]?.toList)
  have hone := Option.length_toList_le (o := times[k]?)
  omega

/-- Tasks are started in their order. -/
theorem sorted (h : IsListSchedule w delays starts) : starts.Pairwise (· ≤ ·) := by
  refine List.isChain_iff_pairwise.mp (List.isChain_iff_getElem.mpr fun k hk => ?_)
  have hs := List.getElem?_eq_getElem (Nat.lt_of_succ_lt hk)
  have hs' := List.getElem?_eq_getElem hk
  refine (h.le_iff hs _).mpr ?_
  have hlt := (h.le_iff hs' _).mp (Nat.le_refl _)
  -- task `k` needs one free worker less than task `k + 1`
  have hone := countP_take_succ_le (ends delays starts) k starts[k + 1]
  omega

/-- What was started is over or in flight. -/
theorem running_add_countP_ends (time : Nat) (hlen : starts.length = delays.length) :
    running time delays starts + (ends delays starts).countP (· ≤ time) =
      starts.countP (· ≤ time) := by
  induction starts generalizing delays with
  | nil => simp [running, ends]
  | cons s starts ih =>
    cases delays with
    | nil => simp at hlen
    | cons d delays =>
      have hrec := ih (by simpa using hlen)
      simp only [running, ends, List.zip_cons_cons, List.zipWith_cons_cons, List.countP_cons,
        decide_eq_true_eq] at hrec ⊢
      split_ifs <;> omega

/-- At most `w` tasks are in flight at any time. -/
theorem running_le (h : IsListSchedule w delays starts) (time : Nat) :
    running time delays starts ≤ w := by
  have hsum := running_add_countP_ends time h.length_eq
  rcases Nat.eq_zero_or_pos (starts.countP (· ≤ time)) with hzero | hpos
  · omega
  -- the last task that was started by `time` found a free worker
  obtain ⟨s, hs, hle⟩ := (lt_countP_iff_of_sorted h.sorted (starts.countP (· ≤ time) - 1) time).mp
    (by omega)
  have hlt := (h.le_iff hs time).mp hle
  have htake : ((ends delays starts).take (starts.countP (· ≤ time) - 1)).countP (· ≤ time) ≤
      (ends delays starts).countP (· ≤ time) := (List.take_sublist ..).countP_le
  omega

/-- Exactly `w` tasks are in flight at any time at which one waits. -/
theorem running_eq (h : IsListSchedule w delays starts) (hk : starts[k]? = some s) (hlt : time < s) :
    running time delays starts = w := by
  refine Nat.le_antisymm (h.running_le time) ?_
  have hsum := running_add_countP_ends time h.length_eq
  set m := starts.countP (· ≤ time) with hm
  have hstarted : ∀ j s', starts[j]? = some s' → m ≤ j → time < s' := by
    intro j s' hj hmj
    by_contra hle
    have := (lt_countP_iff_of_sorted h.sorted j time).mpr ⟨s', hj, by omega⟩
    omega
  -- the first task that waits
  have hmk : m ≤ k := by
    by_contra hkm
    obtain ⟨s', hs', hle⟩ := (lt_countP_iff_of_sorted h.sorted k time).mp (by omega)
    have : s = s' := Option.some.inj (hk.symm.trans hs')
    omega
  have hmlt : m < starts.length := hmk.trans_lt (List.getElem?_eq_some_iff.mp hk).1
  have hs' := List.getElem?_eq_getElem hmlt
  have hwait := mt (h.le_iff hs' time).mpr (by have := hstarted m _ hs' (Nat.le_refl m); omega)
  -- and no later task is over
  have hdrop : ((ends delays starts).drop m).countP (· ≤ time) = 0 := by
    refine List.countP_eq_zero.mpr fun e he => ?_
    obtain ⟨j, hj⟩ := List.mem_iff_getElem?.mp he
    rw [List.getElem?_drop, ends, List.getElem?_zipWith_eq_some] at hj
    obtain ⟨s', d, hs', -, rfl⟩ := hj
    have := hstarted (m + j) s' hs' (by omega)
    simp only [decide_eq_true_eq]
    omega
  have hsplit : (ends delays starts).countP (· ≤ time) =
      ((ends delays starts).take m).countP (· ≤ time) := by
    conv_lhs => rw [← List.take_append_drop m (ends delays starts)]
    rw [List.countP_append, hdrop, Nat.add_zero]
  omega

end IsListSchedule

/-! ### The schedule of a pool -/

theorem ends_departures (departures : List Departure) :
    ends (departures.map (·.task.delay)) (departures.map (·.time)) = departures.map (·.flight.due) := by
  rw [ends, List.zipWith_map, List.zipWith_self]
  rfl

/-- The ledger of a run is a list schedule. -/
theorem isListSchedule_of_fifo {w : Nat} {departures : List Departure} (h : Pool.Fifo w departures) :
    IsListSchedule w (departures.map (·.task.delay)) (departures.map (·.time)) := by
  refine .of_le_iff (by simp) fun k s hk time => ?_
  rw [List.getElem?_map] at hk
  obtain ⟨d, hd, rfl⟩ := Option.map_eq_some_iff.mp hk
  rw [ends_departures, ← List.map_take, List.countP_map]
  exact h k d hd time

end Schedule

end CrateAudit
