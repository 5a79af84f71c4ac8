import CrateAudit.Mapping
import CrateAudit.Proofs.Pool.Schedule

/-!
# Mapping in parallel: schedule and delivery

Two results about mapping a sequence on a pool. The starts of the mappings are a list schedule
(`pool_listSchedule`), with what follows from it about order, bound and idle workers. The results come
one for each item that the input delivers, sorted by the ends of the mappings, and a reader who stops
sees the first of them (`results_by_end`).

The tasks of an input depend on delays and missing items only (`tasks_congr`): what mapping an item
gives, an error or a value, is not looked at by the pool.
-/

namespace CrateAudit.Mapping

open Schedule

variable {β : Type}

/-! ### The tasks of an input -/

theorem mem_tasks {items : List (Item β)} {t : Task} :
    t ∈ tasks items ↔
      ∃ item, items[t.index]? = some item ∧ item.missing = false ∧ t = ⟨t.index, item.delay, false⟩ := by
  simp only [tasks, List.mem_filterMap, Prod.exists, List.mem_zipIdx_iff_getElem?]
  constructor
  · rintro ⟨item, i, hi, ht⟩
    split at ht
    · simp at ht
    · obtain rfl := Option.some.inj ht
      exact ⟨item, hi, by simpa using ‹¬ item.missing = true›, rfl⟩
  · rintro ⟨item, hi, hm, ht⟩
    exact ⟨item, t.index, hi, by simp [hm, ← ht]⟩

theorem pairwise_tasks (items : List (Item β)) : (tasks items).Pairwise (·.index < ·.index) := by
  rw [tasks, List.pairwise_filterMap]
  have hlt : (items.zipIdx.map Prod.snd).Pairwise (· < ·) := by
    rw [List.zipIdx_map_snd]
    exact List.pairwise_lt_range'
  refine (List.pairwise_map.mp hlt).imp ?_
  rintro ⟨item, i⟩ ⟨item', i'⟩ hlt t ht t' ht'
  simp only [Option.ite_none_left_eq_some, Option.some.injEq] at ht ht'
  obtain ⟨-, rfl⟩ := ht
  obtain ⟨-, rfl⟩ := ht'
  exact hlt

theorem stops_eq_false_of_mem_tasks {items : List (Item β)} {t : Task} (ht : t ∈ tasks items) :
    t.stops = false := by
  obtain ⟨item, -, -, heq⟩ := mem_tasks.mp ht
  rw [heq]

/-- What decides about the run of an item: how long mapping it takes, and whether it is delivered. -/
def Item.timing (item : Item β) : Nat × Bool := (item.delay, item.missing)

/-- The pool does not look at what mapping an item gives. -/
theorem tasks_congr {items others : List (Item β)} (h : others.map Item.timing = items.map Item.timing) :
    tasks others = tasks items := by
  have htasks : ∀ items : List (Item β), tasks items =
      (items.map Item.timing).zipIdx.filterMap fun (timing, i) =>
        if timing.2 then none else some ⟨i, timing.1, false⟩ := by
    intro items
    rw [List.zipIdx_map, List.filterMap_map]
    rfl
  rw [htasks, htasks, h]

theorem tasks_of_delivered {items : List (Item β)} (h : ∀ item ∈ items, item.missing = false) :
    tasks items = items.zipIdx.map fun (item, i) => ⟨i, item.delay, false⟩ := by
  refine List.filterMap_eq_map_iff_forall_eq_some.mpr fun ⟨item, i⟩ hmem => ?_
  have hitem := List.mem_of_getElem? (List.mem_zipIdx_iff_getElem?.mp hmem)
  simp [h item hitem]

theorem map_delay_tasks {items : List (Item β)} (h : ∀ item ∈ items, item.missing = false) :
    (tasks items).map (·.delay) = items.map (·.delay) := by
  rw [tasks_of_delivered h, List.map_map]
  calc items.zipIdx.map _ = (items.zipIdx.map Prod.fst).map (·.delay) := by rw [List.map_map]; rfl
    _ = items.map (·.delay) := by rw [List.zipIdx_map_fst]

theorem map_index_tasks {items : List (Item β)} (h : ∀ item ∈ items, item.missing = false) :
    (tasks items).map (·.index) = List.range' 0 items.length := by
  rw [tasks_of_delivered h, List.map_map, ← List.zipIdx_map_snd]
  rfl

theorem max_workers (limit : Int) : max (workers limit) 1 = workers limit := by
  unfold workers
  omega

/-- The ledger of a run over an input: no task stops the run, so all of them are taken. -/
theorem exists_ledger_pool (limit : Int) (items : List (Item β)) :
    ∃ departures landed, Pool.Ledger (tasks items) departures landed (pool limit items) ∧
      Pool.Fifo (workers limit) departures ∧
      (landed.Pairwise fun f g => Earlier f.key g.key) ∧
      (departures.map Departure.flight).Perm landed ∧
      departures.map Departure.task = tasks items := by
  obtain ⟨departures, landed, hl, hfifo, hsorted, hperm, hall⟩ :=
    Pool.exists_ledger_run (workers limit) (pairwise_tasks items)
  rw [max_workers] at hfifo
  refine ⟨departures, landed, hl, hfifo, hsorted, hperm, hall fun f hf => ?_⟩
  exact stops_eq_false_of_mem_tasks (hl.task_mem_tasks (List.mem_append_left _ hf))

/-! ### The schedule -/

/-- **List scheduling**. On an input that delivers all its items, the item at each position is started
once, in the order of the input and as list scheduling on `workers limit` workers has it. Hence at no
time are more mappings in flight than there are workers, no worker is idle while an item waits, and the
largest number in flight is the number of workers or of items, whichever is smaller: no moment of the
history exceeds it, and some moment reaches it. -/
theorem pool_listSchedule (limit : Int) (items : List (Item β))
    (h : ∀ item ∈ items, item.missing = false) :
    ∃ starts : List Nat,
      (pool limit items).starts = starts.zipIdx ∧
      (pool limit items).finishes.Perm (ends (items.map (·.delay)) starts).zipIdx ∧
      IsListSchedule (workers limit) (items.map (·.delay)) starts ∧
      starts.Pairwise (· ≤ ·) ∧
      (∀ time, running time (items.map (·.delay)) starts ≤ workers limit) ∧
      (∀ time, (∃ s ∈ starts, time < s) → running time (items.map (·.delay)) starts = workers limit) ∧
      (∀ past, past <+: (pool limit items).history →
        Pool.inFlight past ≤ min (workers limit) items.length) ∧
      (∃ past, past <+: (pool limit items).history ∧
        Pool.inFlight past = min (workers limit) items.length) ∧
      (pool limit items).peak = min (workers limit) items.length := by
  have ht := pairwise_tasks items
  have hr := Pool.reachable_run (workers limit) (tasks items)
  obtain ⟨departures, landed, hl, hfifo, -, hperm, htasks⟩ := exists_ledger_pool limit items
  have hdelays : departures.map (·.task.delay) = items.map (·.delay) := by
    rw [← map_delay_tasks h, ← htasks, List.map_map]
    rfl
  have hindex : departures.map (·.task.index) = List.range' 0 items.length := by
    rw [← map_index_tasks h, ← htasks, List.map_map]
    rfl
  have hlen : departures.length = items.length := by simpa using congrArg List.length hindex
  -- what is said of the departures one by one, said with their positions
  have hzip : ∀ g : Departure → Nat,
      (departures.map fun d => (g d, d.task.index)) = (departures.map g).zipIdx := by
    intro g
    rw [List.zipIdx_eq_zip_range', List.length_map, hlen, ← hindex, List.zip_map']
  have hsched := isListSchedule_of_fifo hfifo
  rw [hdelays] at hsched
  have hn : (tasks items).length = items.length := by simpa using congrArg List.length (map_index_tasks h)
  refine ⟨departures.map (·.time), ?_, ?_, hsched, hsched.sorted, hsched.running_le, ?_, ?_, ?_, ?_⟩
  · rw [hl.starts_eq, ← hzip]
    rfl
  · rw [hl.finishes_eq, ← hdelays, ends_departures, ← hzip]
    have hkeys := hperm.symm.map Flight.key
    rwa [List.map_map] at hkeys
  · rintro time ⟨s, hs, hlt⟩
    obtain ⟨k, hk⟩ := List.mem_iff_getElem?.mp hs
    exact hsched.running_eq hk hlt
  · intro past hpast
    have hle := hr.inFlight_le ht hpast
    rwa [max_workers, hn] at hle
  · obtain ⟨past, hpast, heq⟩ := hr.exists_inFlight_eq
    exact ⟨past, hpast, by rw [heq, max_workers, hn]⟩
  · rw [pool, hr.peak_eq.1, max_workers, hn]

/-- Two workers on five items, of which the first two end together and the third lasts no time. -/
theorem pool_listSchedule_two_workers :
    (∀ item ∈ [2, 2, 0, 3, 1].map fun d => Item.mk () d false, item.missing = false) ∧
      (pool 2 ([2, 2, 0, 3, 1].map fun d => Item.mk () d false)).starts = [0, 0, 2, 2, 2].zipIdx ∧
      IsListSchedule 2 [2, 2, 0, 3, 1] [0, 0, 2, 2, 2] := by
  obtain ⟨starts, hstarts, -, hsched, -⟩ :=
    pool_listSchedule 2 ([2, 2, 0, 3, 1].map fun d => Item.mk () d false) (by decide)
  have hexact : (pool 2 ([2, 2, 0, 3, 1].map fun d => Item.mk () d false)).starts = [0, 0, 2, 2, 2].zipIdx := by
    decide
  have htimes := congrArg (List.map Prod.fst) (hstarts.symm.trans hexact)
  rw [List.zipIdx_map_fst, List.zipIdx_map_fst] at htimes
  exact ⟨by decide, hexact, htimes ▸ hsched⟩

/-! ### Delivery -/

/-- The order in which the results of an input are delivered, as times and positions. -/
structure DeliveryOrder (limit : Int) (items : List (Item β)) (order : List (Nat × Nat)) : Prop where
  /-- no item is delivered twice -/
  nodup : (order.map Prod.snd).Nodup
  /-- exactly the items are delivered that the input does not miss -/
  mem_iff : ∀ i, i ∈ order.map Prod.snd ↔ ∃ item, items[i]? = some item ∧ item.missing = false
  /-- the order is that of the ends, and of the input among ends at the same time -/
  sorted : order.Pairwise Earlier
  /-- a result is delivered when its mapping ends -/
  time_eq : ∀ finish ∈ order, ∃ start item, (start, finish.2) ∈ (pool limit items).starts ∧
    items[finish.2]? = some item ∧ finish.1 = start + item.delay

/-- Results are delivered as their mappings end. -/
theorem deliveryOrder_finishes (limit : Int) (items : List (Item β)) :
    DeliveryOrder limit items (pool limit items).finishes := by
  obtain ⟨departures, landed, hl, -, hsorted, hperm, htasks⟩ := exists_ledger_pool limit items
  have hindex : ((pool limit items).finishes.map Prod.snd).Perm ((tasks items).map (·.index)) := by
    rw [← htasks, List.map_map]
    exact hl.perm_index_finishes hperm
  refine ⟨?_, fun i => ?_, ?_, fun finish hfin => ?_⟩
  · rw [hindex.nodup_iff]
    exact Pool.nodup_map_index (pairwise_tasks items)
  · rw [hindex.mem_iff, List.mem_map]
    constructor
    · rintro ⟨t, ht, rfl⟩
      obtain ⟨item, hitem, hmiss, -⟩ := mem_tasks.mp ht
      exact ⟨item, hitem, hmiss⟩
    · rintro ⟨item, hitem, hmiss⟩
      exact ⟨⟨i, item.delay, false⟩, mem_tasks.mpr ⟨item, hitem, hmiss, rfl⟩, rfl⟩
  · rw [hl.finishes_eq, List.pairwise_map]
    exact hsorted
  · rw [hl.finishes_eq] at hfin
    obtain ⟨f, hf, rfl⟩ := List.mem_map.mp hfin
    obtain ⟨d, hd, rfl⟩ := List.mem_map.mp (hperm.mem_iff.mpr hf)
    have hmem : d.task ∈ tasks items := htasks ▸ List.mem_map_of_mem hd
    obtain ⟨item, hitem, -, htask⟩ := mem_tasks.mp hmem
    refine ⟨d.time, item, ?_, hitem, ?_⟩
    · rw [hl.starts_eq]
      exact List.mem_map_of_mem hd
    · have hdelay := congrArg Task.delay htask
      simpa [Flight.key, Departure.flight] using hdelay

/-- Every end within the input delivers something. -/
theorem map_some_filterMap_yield? {items : List (Item β)} {order : List (Nat × Nat)}
    (h : ∀ finish ∈ order, finish.2 < items.length) :
    (order.filterMap (yield? items)).map some = order.map (yield? items) := by
  induction order with
  | nil => rfl
  | cons finish order ih =>
    have hhead := List.getElem?_eq_getElem (h finish List.mem_cons_self)
    have htail := ih fun e he => h e (List.mem_cons_of_mem _ he)
    simpa [yield?, hhead] using htail

/-- **Delivery**. Every item that the input delivers has exactly one result and no other has any; the
results come in the order of the ends of the mappings, at their times. What mapping one item gives
decides about its own result only: with any other results for the same input, errors or values, the
order and the times stay. A reader who stops after some results sees the first of them. -/
theorem results_by_end (limit : Int) (items : List (Item β)) :
    ∃ order : List (Nat × Nat),
      DeliveryOrder limit items order ∧
      (results limit items).map some = order.map (yield? items) ∧
      (∀ others : List (Item β), others.map Item.timing = items.map Item.timing →
        (results limit others).map some = order.map (yield? others)) ∧
      ∀ b, 1 ≤ b → resultsUpTo b limit items = (results limit items).take b := by
  have horder := deliveryOrder_finishes limit items
  have hin : ∀ finish ∈ (pool limit items).finishes, finish.2 < items.length := by
    intro finish hfin
    obtain ⟨item, hitem, -⟩ := (horder.mem_iff finish.2).mp (List.mem_map_of_mem hfin)
    exact (List.getElem?_eq_some_iff.mp hitem).1
  refine ⟨_, horder, map_some_filterMap_yield? hin, fun others hsame => ?_, fun b hb => ?_⟩
  · have hlen : others.length = items.length := by simpa using congrArg List.length hsame
    have hpool : pool limit others = pool limit items := by rw [pool, pool, tasks_congr hsame]
    rw [results, delivered, hpool]
    exact map_some_filterMap_yield? fun finish hfin => hlen ▸ hin finish hfin
  · have hstop : (poolUpTo b limit items).finishes = (pool limit items).finishes.take b :=
      Pool.finishes_runFor_initial b (workers limit) (tasks items)
    refine List.map_injective_iff.mpr (Option.some_injective _) ?_
    rw [resultsUpTo, if_neg (by omega), delivered, hstop, List.map_take, results, delivered,
      map_some_filterMap_yield? hin, map_some_filterMap_yield? fun finish hfin =>
        hin finish (List.mem_of_mem_take hfin), List.map_take]

end CrateAudit.Mapping
