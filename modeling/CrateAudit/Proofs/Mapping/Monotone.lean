import CrateAudit.Proofs.Isolation

/-!
# More workers and shorter items

List scheduling is known for anomalies: where tasks wait for each other, more workers can make a run longer.
The items of an input do not wait for each other, and there are none here: on more workers, and with items
that take less time, no item is started later and none is ended later (`start_le_start_of_noLonger`).

The tasks of the two inputs have the same places (`places_id`), so this is a comparison of runs in which no
task is added in front of another.
-/

namespace CrateAudit.Mapping

open Pool

variable {β γ : Type} {limit limit' : Int} {items : List (Item β)} {items' : List (Item γ)} {item : Item β}
  {item' : Item γ} {i start : Nat}

/-- An item that takes no longer than another one, and is delivered if that one is. -/
structure Item.NoLonger (item' : Item γ) (item : Item β) : Prop where
  missing_eq : item'.missing = item.missing
  delay_le : item'.delay ≤ item.delay

/-! ### Tasks at the same places -/

/-- Items that take no longer make tasks that take no longer, each at its position. -/
theorem forall₂_tasksFrom (h : List.Forall₂ Item.NoLonger items' items) (n : Nat) :
    List.Forall₂ (fun t' t : Task => t'.index = t.index ∧ t'.delay ≤ t.delay) (tasksFrom n items')
      (tasksFrom n items) := by
  induction h generalizing n with
  | nil => exact .nil
  | @cons item' item items' items hitem _ ih =>
    simp only [tasksFrom, List.zipIdx_cons, List.filterMap_cons, hitem.missing_eq]
    cases item.missing with
    | true => exact ih (n + 1)
    | false => exact .cons ⟨rfl, hitem.delay_le⟩ (ih (n + 1))

/-- The task at a position of the one input, from the task at that position of the other. -/
theorem exists_getElem?_tasks (h : List.Forall₂ Item.NoLonger items' items) {k : Nat} {t : Task}
    (hk : (tasks items)[k]? = some t) :
    ∃ t', (tasks items')[k]? = some t' ∧ t'.index = t.index ∧ t'.delay ≤ t.delay := by
  have htasks : List.Forall₂ _ (tasks items') (tasks items) := forall₂_tasksFrom h 0
  obtain ⟨hlt, rfl⟩ := List.getElem?_eq_some_iff.mp hk
  have hlt' : k < (tasks items').length := htasks.length_eq ▸ hlt
  exact ⟨_, List.getElem?_eq_getElem hlt', htasks.get hlt' hlt⟩

/-- With no fewer workers, every task keeps its place. -/
theorem places_id (hlimit : limit ≤ limit') (h : List.Forall₂ Item.NoLonger items' items) :
    Places (max (workers limit') 1) (max (workers limit) 1) id (tasks items') (tasks items) where
  strictMono := strictMono_id
  cost_le k _ := by
    have hworkers : max (workers limit) 1 ≤ max (workers limit') 1 := by
      unfold workers
      omega
    exact Nat.add_le_add_left hworkers k
  delay_le k t hk := by
    obtain ⟨t', hk', -, hdelay⟩ := exists_getElem?_tasks h hk
    exact ⟨t', hk', hdelay⟩

/-! ### Ends -/

/-- The item at a position is ended exactly once, at the time at which it was started and as much later as it
takes. -/
theorem finishesAt_of_startsAt (hi : items[i]? = some item) (hm : item.missing = false)
    (h : (pool limit items).StartsAt i start) : (pool limit items).FinishesAt i (start + item.delay) := by
  have horder := deliveryOrder_finishes limit items
  obtain ⟨finish, hmem, rfl⟩ := List.mem_map.mp ((horder.mem_iff i).mpr ⟨item, hi, hm⟩)
  obtain ⟨start', item', hstart', hitem', htime⟩ := horder.time_eq finish hmem
  obtain rfl : item = item' := Option.some.inj (hi.symm.trans hitem')
  rw [← h.eq_of_mem hstart', ← htime]
  exact filter_eq_singleton horder.nodup hmem

/-- **More workers or shorter items delay nothing**. Let an input be mapped on some workers, and an input whose
items take no longer on no fewer workers. Each item that is delivered is started once and ended once in either
run, and in the second run it is neither started nor ended later than in the first. -/
theorem start_le_start_of_noLonger (limit limit' : Int) (items : List (Item β)) (items' : List (Item γ))
    (hlimit : limit ≤ limit') (h : List.Forall₂ Item.NoLonger items' items) (i : Nat) (item : Item β)
    (item' : Item γ) (hi : items[i]? = some item) (hi' : items'[i]? = some item') (hm : item.missing = false) :
    ∃ start start',
      (pool limit items).StartsAt i start ∧ (pool limit items).FinishesAt i (start + item.delay) ∧
      (pool limit' items').StartsAt i start' ∧ (pool limit' items').FinishesAt i (start' + item'.delay) ∧
      start' ≤ start ∧ start' + item'.delay ≤ start + item.delay := by
  have hitem : item'.NoLonger item := by
    obtain ⟨hlt, rfl⟩ := List.getElem?_eq_some_iff.mp hi
    obtain ⟨hlt', rfl⟩ := List.getElem?_eq_some_iff.mp hi'
    exact h.get hlt' hlt
  have hmem : ⟨i, item.delay, false⟩ ∈ tasks items := mem_tasks.mpr ⟨item, hi, hm, rfl⟩
  obtain ⟨k, hk⟩ := List.mem_iff_getElem?.mp hmem
  obtain ⟨t', hk', hindex, -⟩ := exists_getElem?_tasks h hk
  obtain ⟨start', start, hstart', hstart, hle⟩ := (places_id hlimit h).start_le_start (pairwise_tasks _)
    (pairwise_tasks _) (fun t => stops_eq_false_of_mem_tasks) (fun t => stops_eq_false_of_mem_tasks) hk' hk
  rw [hindex] at hstart'
  exact ⟨start, start', hstart, finishesAt_of_startsAt hi hm hstart, hstart',
    finishesAt_of_startsAt hi' (hitem.missing_eq.trans hm) hstart', hle, Nat.add_le_add hle hitem.delay_le⟩

/-- Three workers in place of two, and a first item that is shorter: the last item is started three units earlier,
although the ends come in another order. -/
theorem start_le_start_of_noLonger_four :
    (2 : Int) ≤ 3 ∧
      List.Forall₂ Item.NoLonger ([1, 3, 3, 1].map fun d => Item.mk () d false)
        ([4, 3, 3, 1].map fun d => Item.mk () d false) ∧
      (pool 2 ([4, 3, 3, 1].map fun d => Item.mk () d false)).finishes = [(3, 1), (4, 0), (5, 3), (6, 2)] ∧
      (pool 3 ([1, 3, 3, 1].map fun d => Item.mk () d false)).finishes = [(1, 0), (2, 3), (3, 1), (3, 2)] ∧
      ∃ start start',
        (pool 2 ([4, 3, 3, 1].map fun d => Item.mk () d false)).StartsAt 3 start ∧
        (pool 3 ([1, 3, 3, 1].map fun d => Item.mk () d false)).StartsAt 3 start' ∧ start' ≤ start := by
  have hitems : List.Forall₂ Item.NoLonger ([1, 3, 3, 1].map fun d => Item.mk () d false)
      ([4, 3, 3, 1].map fun d => Item.mk () d false) :=
    .cons ⟨rfl, by decide⟩ (.cons ⟨rfl, le_rfl⟩ (.cons ⟨rfl, le_rfl⟩ (.cons ⟨rfl, le_rfl⟩ .nil)))
  obtain ⟨start, start', hstart, -, hstart', -, hle, -⟩ := start_le_start_of_noLonger 2 3 _ _ (by decide) hitems
    3 ⟨(), 1, false⟩ ⟨(), 1, false⟩ rfl rfl rfl
  exact ⟨by decide, hitems, by decide, by decide, start, start', hstart, hstart', hle⟩

end CrateAudit.Mapping
