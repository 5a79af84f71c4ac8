import CrateAudit.Proofs.Audit.Run
import CrateAudit.Proofs.Mapping
import CrateAudit.Proofs.Pool.Comparison

/-!
# Slow jobs

A slow item costs the rest of an input at most its own worker. The tasks of an input without one of its
items have their places among the tasks of the whole input, with at most one task more in front of each
(`places_tasks`), so one worker more makes up for it however long that task lasts.

Main results: `Mapping.start_le_start_without` for the items of an input, and
`Audit.start_le_start_without_job` for the jobs of an audit, whose tasks are those of an input.
-/

namespace CrateAudit

/-- The position of an entry when `m` more are put in at position `a`. -/
def gap (a m k : Nat) : Nat := if k < a then k else k + m

theorem strictMono_gap (a m : Nat) : StrictMono (gap a m) := by
  intro j k hjk
  unfold gap
  split_ifs <;> omega

/-- A list with one entry taken out: the others stay in their order, and one is at position `i` with
the entry where it was at `if i < s then i else i - 1` without it. -/
theorem exists_insert {α : Type} {l : List α} {s i : Nat} (hs : s < l.length) (hne : i ≠ s) :
    ∃ before x after, l = before ++ x :: after ∧ l.eraseIdx s = before ++ after ∧
      (before ++ after)[if i < s then i else i - 1]? = l[i]? ∧
      gap before.length 1 (if i < s then i else i - 1) = i := by
  refine ⟨l.take s, l[s], l.drop (s + 1), ?_, List.eraseIdx_eq_take_drop_succ .., ?_, ?_⟩
  · rw [← List.drop_eq_getElem_cons hs, List.take_append_drop]
  · rw [← List.eraseIdx_eq_take_drop_succ, List.getElem?_eraseIdx]
    split_ifs
    · rfl
    · omega
    · congr 1
      omega
  · rw [List.length_take_of_le hs.le, gap]
    split_ifs <;> omega

namespace Mapping

open Pool

variable {β : Type} {limit : Int} {before after items : List (Item β)} {slow item : Item β} {k : Nat}
  {t' : Task}

/-! ### The tasks of an input with one item more -/

/-- The tasks of the items from a position on. -/
def tasksFrom (n : Nat) (items : List (Item β)) : List Task :=
  (items.zipIdx n).filterMap fun (item, i) => if item.missing then none else some ⟨i, item.delay, false⟩

theorem tasksFrom_append (n : Nat) (before after : List (Item β)) :
    tasksFrom n (before ++ after) = tasksFrom n before ++ tasksFrom (n + before.length) after := by
  rw [tasksFrom, List.zipIdx_append, List.filterMap_append]
  rfl

theorem tasksFrom_succ (n : Nat) (items : List (Item β)) :
    tasksFrom (n + 1) items = (tasksFrom n items).map fun t => { t with index := t.index + 1 } := by
  rw [tasksFrom, List.zipIdx_succ, List.filterMap_map, tasksFrom, List.map_filterMap]
  refine List.filterMap_congr fun ⟨item, i⟩ _ => ?_
  cases hm : item.missing <;> simp [hm]

theorem length_tasksFrom_singleton_le (n : Nat) (slow : Item β) : (tasksFrom n [slow]).length ≤ 1 :=
  List.length_filterMap_le ..

theorem index_lt_of_mem_tasks {t : Task} (ht : t ∈ tasks items) : t.index < items.length := by
  obtain ⟨item, hitem, -⟩ := mem_tasks.mp ht
  exact (List.getElem?_eq_some_iff.mp hitem).1

theorem le_index_of_mem_tasksFrom {n : Nat} {t : Task} (ht : t ∈ tasksFrom n items) : n ≤ t.index := by
  obtain ⟨⟨item, i⟩, hmem, heq⟩ := List.mem_filterMap.mp ht
  simp only [Option.ite_none_left_eq_some, Option.some.injEq] at heq
  obtain ⟨-, rfl⟩ := heq
  exact List.le_snd_of_mem_zipIdx hmem

/-- A task without the slow item is found behind the gap that the slow item makes, as it was but for its
position. -/
theorem getElem?_tasks_gap (hk : (tasks (before ++ after))[k]? = some t') :
    (tasks (before ++ slow :: after))[gap (tasks before).length
        (tasksFrom before.length [slow]).length k]? =
      some { t' with index := gap before.length 1 t'.index } := by
  have hwhole : tasks (before ++ slow :: after) = tasks before ++ (tasksFrom before.length [slow] ++
      (tasksFrom before.length after).map fun t => { t with index := t.index + 1 }) := by
    calc tasks (before ++ ([slow] ++ after))
        = tasks before ++ tasksFrom (0 + before.length) ([slow] ++ after) := tasksFrom_append 0 _ _
      _ = _ := by rw [Nat.zero_add, tasksFrom_append, List.length_singleton, tasksFrom_succ]
  have hrest : tasks (before ++ after) = tasks before ++ tasksFrom before.length after := by
    calc tasks (before ++ after) = tasks before ++ tasksFrom (0 + before.length) after :=
          tasksFrom_append 0 _ _
      _ = _ := by rw [Nat.zero_add]
  rw [hrest, List.getElem?_append] at hk
  rw [hwhole]
  split_ifs at hk with hlt
  · have hindex := index_lt_of_mem_tasks (List.mem_of_getElem? hk)
    rw [gap, if_pos hlt, List.getElem?_append_left hlt, hk, gap, if_pos hindex]
  · have hindex := le_index_of_mem_tasksFrom (List.mem_of_getElem? hk)
    rw [gap, if_neg hlt, List.getElem?_append_right (by omega), List.getElem?_append_right (by omega),
      List.getElem?_map, gap, if_neg (by omega)]
    have hpos : k + (tasksFrom before.length [slow]).length - (tasks before).length -
        (tasksFrom before.length [slow]).length = k - (tasks before).length := by omega
    rw [hpos, hk]
    rfl

/-- The tasks without the slow item have their places among all tasks if there is one worker more. -/
theorem places_tasks (w : Nat) (before after : List (Item β)) (slow : Item β) :
    Places (w + 1) w (gap (tasks before).length (tasksFrom before.length [slow]).length)
      (tasks (before ++ slow :: after)) (tasks (before ++ after)) where
  strictMono := strictMono_gap _ _
  cost_le k _ := by
    have hone := length_tasksFrom_singleton_le before.length slow
    unfold gap
    split_ifs <;> omega
  delay_le k t' hk := ⟨_, getElem?_tasks_gap hk, Nat.le_refl _⟩

/-- **One item more** and one worker more: no other item is started later. -/
theorem start_le_start_insert (before after : List (Item β)) (slow : Item β) (hl : 2 ≤ limit)
    (hk : (before ++ after)[k]? = some item) (hm : item.missing = false) :
    ∃ time time', (pool limit (before ++ slow :: after)).StartsAt (gap before.length 1 k) time ∧
      (pool (limit - 1) (before ++ after)).StartsAt k time' ∧ time ≤ time' := by
  have hworkers : max (workers limit) 1 = max (workers (limit - 1)) 1 + 1 := by
    unfold workers
    omega
  have hmem : ⟨k, item.delay, false⟩ ∈ tasks (before ++ after) := mem_tasks.mpr ⟨item, hk, hm, rfl⟩
  obtain ⟨j, hj⟩ := List.mem_iff_getElem?.mp hmem
  have hplaces := hworkers ▸ places_tasks (max (workers (limit - 1)) 1) before after slow
  exact hplaces.start_le_start (pairwise_tasks _) (pairwise_tasks _)
    (fun t => stops_eq_false_of_mem_tasks) (fun t => stops_eq_false_of_mem_tasks)
    (getElem?_tasks_gap hj) hj

/-- **A slow item costs the rest at most its own worker**. Each other item that the input delivers is
started once on `limit` workers and once, in the input without the slow item, on one worker less; and in
the whole input no later, however long the slow item takes. -/
theorem start_le_start_without (limit : Int) (items : List (Item β)) (s i : Nat) (item : Item β)
    (hl : 2 ≤ limit) (hs : s < items.length) (hne : i ≠ s) (hi : items[i]? = some item)
    (hm : item.missing = false) :
    ∃ time time', (pool limit items).StartsAt i time ∧
      (pool (limit - 1) (items.eraseIdx s)).StartsAt (if i < s then i else i - 1) time' ∧
      time ≤ time' := by
  obtain ⟨before, slow, after, hitems, herase, hget, hgap⟩ := exists_insert hs hne
  obtain ⟨time, time', hstart, hstart', hle⟩ :=
    start_le_start_insert before after slow hl (hget.trans hi) hm
  rw [hgap, ← hitems] at hstart
  rw [← herase] at hstart'
  exact ⟨time, time', hstart, hstart', hle⟩

/-- Three short items and a slow one in front of the last two, on two workers, compared with the short
ones on one worker. -/
theorem start_le_start_without_slow :
    2 ≤ (2 : Int) ∧ 1 < [1, 100, 1, 1].length ∧ 3 ≠ 1 ∧
      ∃ time time',
        (pool 2 ([1, 100, 1, 1].map fun d => Item.mk () d false)).StartsAt 3 time ∧
        (pool 1 ([1, 1, 1].map fun d => Item.mk () d false)).StartsAt 2 time' ∧ time ≤ time' :=
  ⟨by decide, by decide, by decide,
    start_le_start_without 2 ([1, 100, 1, 1].map fun d => Item.mk () d false) 1 3 ⟨(), 1, false⟩
      (by decide) (by decide) (by decide) rfl rfl⟩

end Mapping

namespace Audit

/-! ### Audits -/

/-- The input whose items take the times of some evaluations. -/
def timings (evaluations : List Evaluation) : List (Mapping.Item Unit) :=
  evaluations.map fun e => ⟨(), e.delay, false⟩

/-- The pool of an audit that nothing cancels runs the tasks of an input. -/
theorem tasks_eq_tasks_timings {evaluations : List Evaluation}
    (hc : ∀ e ∈ evaluations, e.cancels = false) : tasks evaluations = Mapping.tasks (timings evaluations) := by
  rw [Mapping.tasks_of_delivered (by simp [timings]), timings, List.zipIdx_map, List.map_map, tasks]
  refine List.map_congr_left ?_
  rintro ⟨e, i⟩ hmem
  simp [hc e (List.fst_mem_of_mem_zipIdx hmem)]

/-- The pool of an audit that nothing cancels. -/
theorem exists_run_eq_ok {workers : Int64} {evaluations : List Evaluation} (mode : Mode)
    (hw : 1 ≤ workers) (hne : evaluations ≠ []) (hc : ∀ e ∈ evaluations, e.cancels = false) :
    ∃ r, run workers mode evaluations false = .ok r ∧
      r.pool = Mapping.pool workers.toInt (timings evaluations) := by
  refine ⟨_, run_eq_ok hw hne _ rfl _ rfl, ?_⟩
  have hle : (1 : Int) ≤ workers.toInt := Int64.le_iff_toInt_le.mp hw
  have hworkers : Mapping.workers workers.toInt = workers.toNatClampNeg := by
    rw [Mapping.workers, max_eq_left hle]
    rfl
  rw [Mapping.pool, hworkers, ← tasks_eq_tasks_timings hc]
  rfl

/-- **A slow job costs the rest of an audit at most its own worker**. Each other job is started once in
the audit of all jobs and once, on one worker less, in the audit without the slow job; and among all jobs
no later, however long the slow job takes. -/
theorem start_le_start_without_job {workers : Int64} {evaluations : List Evaluation} {s i : Nat} (mode : Mode)
    (hw : 2 ≤ workers) (hc : ∀ e ∈ evaluations, e.cancels = false) (hs : s < evaluations.length)
    (hi : i < evaluations.length) (hne : i ≠ s) :
    ∃ r r' time time', run workers mode evaluations false = .ok r ∧
      run (workers - 1) mode (evaluations.eraseIdx s) false = .ok r' ∧ r.pool.StartsAt i time ∧
      r'.pool.StartsAt (if i < s then i else i - 1) time' ∧ time ≤ time' := by
  have hle : (2 : Int) ≤ workers.toInt := Int64.le_iff_toInt_le.mp hw
  have hless : (workers - 1).toInt = workers.toInt - 1 :=
    Int64.toInt_sub_of_le workers 1 (by decide) (Int64.le_trans (by decide) hw)
  have hw' : 1 ≤ workers - 1 := by
    rw [Int64.le_iff_toInt_le, hless]
    exact Int.le_sub_right_of_add_le hle
  obtain ⟨before, slow, after, hall, herase, hget, hgap⟩ := exists_insert hs hne
  rw [List.getElem?_eq_getElem hi] at hget
  obtain ⟨r, hrun, hpool⟩ := exists_run_eq_ok mode (Int64.le_trans (by decide) hw)
    (List.ne_nil_of_length_pos (by omega)) hc
  obtain ⟨r', hrun', hpool'⟩ := exists_run_eq_ok mode hw'
    (herase ▸ List.ne_nil_of_mem (List.mem_of_getElem? hget))
    fun e he => hc e (List.mem_of_mem_eraseIdx he)
  have hitem : (timings before ++ timings after)[if i < s then i else i - 1]? =
      some ⟨(), evaluations[i].delay, false⟩ := by
    rw [timings, timings, ← List.map_append, List.getElem?_map, hget, Option.map_some]
  obtain ⟨time, time', hstart, hstart', hle⟩ := Mapping.start_le_start_insert (timings before)
    (timings after) ⟨(), slow.delay, false⟩ hle hitem rfl
  -- the pools of the two audits are those of mappings that last as long
  have htimings : timings evaluations = timings before ++ ⟨(), slow.delay, false⟩ :: timings after := by
    rw [hall, timings, List.map_append, List.map_cons]
    rfl
  have htimings' : timings (evaluations.eraseIdx s) = timings before ++ timings after := by
    rw [herase, timings, List.map_append]
    rfl
  rw [timings, List.length_map, hgap, ← timings, ← htimings, ← hpool] at hstart
  rw [← htimings', ← hless, ← hpool'] at hstart'
  exact ⟨r, r', time, time', hrun, hrun', hstart, hstart', hle⟩

end Audit

end CrateAudit
