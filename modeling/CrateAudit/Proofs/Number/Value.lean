import CrateAudit.Number.Sum
import CrateAudit.Proofs.Number.Binary64
import Mathlib.Data.Int.ConditionallyCompleteOrder
import Mathlib.Data.List.Forall2
import Mathlib.Data.List.Sort
import Mathlib.Order.WithBot

/-!
# The values of double-precision numbers

The value of a number (`value?`) is a whole number of units or one of the two infinities; what is not a number has
none, and the two zeros have the same value. Comparing numbers is comparing values (`lt_iff`), so sorting numbers
sorts their values (`values_mergeSort`) and the largest number has the largest value (`value?_maximum`).

A sum is built from zero by additions, in an order that its length decides. Whatever holds of zero and is kept by
additions therefore holds of a sum (`sum_rel`). In particular the value of a sum depends on the values of what is
added, one by one, and not on the signs of zeros (`value?_sum_congr`).
-/

namespace CrateAudit.Binary64

variable {x x' y y' : Binary64} {xs ys : List Binary64}

/-! ### Values -/

/-- The values of numbers, in units. -/
abbrev Value : Type := WithBot (WithTop ℤ)

/-- The whole number of units that a finite number stands for. -/
def signed (negative : Bool) (units : ℕ) : ℤ := if negative then -units else units

/-- The value of a number. -/
def value? : Binary64 → Option Value
  | .nan => none
  | .infinite negative => some (if negative then ⊥ else ⊤)
  | .finite negative units => some (signed negative units : WithTop ℤ)

theorem value?_nan : value? .nan = none := rfl

theorem value?_eq_none_iff : x.value? = none ↔ x = .nan := by
  cases x <;> simp [value?]

theorem exists_value? (h : x ≠ .nan) : ∃ a, x.value? = some a :=
  Option.ne_none_iff_exists'.mp fun hnone => h (value?_eq_none_iff.mp hnone)

/-- Only the zeros share their value. -/
theorem eq_or_zero_of_value?_eq (h : x.value? = y.value?) :
    x = y ∨ ∃ s t, x = .finite s 0 ∧ y = .finite t 0 := by
  rcases x with _ | s | ⟨s, a⟩ <;> rcases y with _ | t | ⟨t, b⟩ <;> simp [value?] at h ⊢
  case infinite.infinite => cases s <;> cases t <;> simp at h ⊢
  case infinite.finite => cases s <;> simp at h
  case finite.infinite => cases t <;> simp at h
  case finite.finite => cases s <;> cases t <;> simp [signed] at h ⊢ <;> omega

/-! ### Order -/

theorem lt_finite_iff {s t : Bool} {a b : ℕ} :
    lt (.finite s a) (.finite t b) = true ↔ signed s a < signed t b := by
  cases s <;> cases t <;> simp [lt, signed]
  omega

/-- **Comparing numbers** is comparing their values. -/
theorem lt_iff : lt x y = true ↔ ∃ a b, x.value? = some a ∧ y.value? = some b ∧ a < b := by
  rcases x with _ | s | ⟨s, a⟩ <;> rcases y with _ | t | ⟨t, b⟩
  case finite.finite => simp [lt_finite_iff, value?, WithBot.coe_lt_coe]
  case infinite.infinite => cases s <;> cases t <;> simp [value?, lt]
  case infinite.finite => cases s <;> simp [value?, lt]
  case finite.infinite =>
    have htop : ((signed s a : WithTop ℤ) : Value) < ⊤ := WithBot.coe_lt_coe.mpr (WithTop.coe_lt_top _)
    cases t <;> simp [value?, lt, htop]
  all_goals simp [value?, lt]

theorem lt_eq_false_iff {a b : Value} (hx : x.value? = some a) (hy : y.value? = some b) :
    lt x y = false ↔ b ≤ a := by
  rw [← Bool.not_eq_true, lt_iff, hx, hy]
  simp

/-- What is not a number is sorted to the front, and numbers are sorted by their values. -/
theorem sortLe_iff : sortLe x y = true ↔ ∀ a, x.value? = some a → ∃ b, y.value? = some b ∧ a ≤ b := by
  by_cases hx : x = .nan
  · simp [sortLe, hx, value?_nan]
  obtain ⟨a, ha⟩ := exists_value? hx
  by_cases hy : y = .nan
  · simp [sortLe, hx, hy, ha, value?_nan]
  obtain ⟨b, hb⟩ := exists_value? hy
  simp [sortLe, hx, hy, ha, hb, lt_eq_false_iff hb ha]

/-- The values of some numbers; what is not a number is left out. -/
def values (xs : List Binary64) : List Value := xs.filterMap value?

theorem map_value?_eq (h : ∀ x ∈ xs, x ≠ .nan) : xs.map value? = (values xs).map some := by
  induction xs with
  | nil => rfl
  | cons x xs ih =>
    obtain ⟨a, ha⟩ := exists_value? (h x List.mem_cons_self)
    rw [values, List.filterMap_cons_some ha, List.map_cons, List.map_cons, ha,
      ih fun y hy => h y (List.mem_cons_of_mem _ hy), values]

theorem length_values (h : ∀ x ∈ xs, x ≠ .nan) : (values xs).length = xs.length := by
  simpa using (congrArg List.length (map_value?_eq h)).symm

theorem getElem?_values (h : ∀ x ∈ xs, x ≠ .nan) {k : ℕ} (hk : xs[k]? = some x) : (values xs)[k]? = x.value? := by
  have hmap := congrArg (·[k]?) (map_value?_eq h)
  simp only [List.getElem?_map, hk, Option.map_some] at hmap
  cases hvalue : (values xs)[k]? with
  | none => simp [hvalue] at hmap
  | some a => simpa [hvalue] using hmap.symm

/-- **Sorting numbers** sorts their values. -/
theorem values_mergeSort (xs : List Binary64) : values (xs.mergeSort sortLe) = (values xs).mergeSort (· ≤ ·) := by
  have htrans : ∀ x y z : Binary64, sortLe x y = true → sortLe y z = true → sortLe x z = true := by
    intro x y z hxy hyz
    rw [sortLe_iff] at hxy hyz ⊢
    intro a ha
    obtain ⟨b, hb, hab⟩ := hxy a ha
    obtain ⟨c, hc, hbc⟩ := hyz b hb
    exact ⟨c, hc, hab.trans hbc⟩
  have htotal : ∀ x y : Binary64, (sortLe x y || sortLe y x) = true := by
    intro x y
    rw [Bool.or_eq_true, sortLe_iff, sortLe_iff]
    cases hx : x.value? with
    | none => simp
    | some a =>
      cases hy : y.value? with
      | none => simp
      | some b => simpa using le_total a b
  have hsorted : (values (xs.mergeSort sortLe)).Pairwise (· ≤ ·) := by
    rw [values, List.pairwise_filterMap]
    refine (List.pairwise_mergeSort htrans htotal xs).imp fun {x y} hxy a ha b hb => ?_
    obtain ⟨b', hb', hab⟩ := sortLe_iff.mp hxy a ha
    rw [hb] at hb'
    exact Option.some.inj hb' ▸ hab
  refine List.Perm.eq_of_pairwise (fun a b _ _ => le_antisymm) hsorted (List.pairwise_mergeSort' (· ≤ ·) _) ?_
  exact ((List.mergeSort_perm xs sortLe).filterMap value?).trans (List.mergeSort_perm _ _).symm

/-! ### The largest number -/

/-- Keeps the larger of two numbers, and a number rather than none. -/
def larger (best x : Binary64) : Binary64 := if x = .nan then best else if best = .nan || lt best x then x else best

theorem maximum_eq (xs : List Binary64) : maximum xs = xs.foldl larger .nan := rfl

theorem larger_eq_or (best x : Binary64) : larger best x = best ∨ larger best x = x := by
  unfold larger
  split_ifs <;> simp

theorem value?_foldl_larger (xs : List Binary64) (best : Binary64) :
    (xs.foldl larger best).value? = (best.value?.toList ++ values xs).max? := by
  induction xs generalizing best with
  | nil =>
    show best.value? = (best.value?.toList ++ []).max?
    cases best.value? <;> rfl
  | cons x xs ih =>
    rw [List.foldl_cons, ih]
    -- NaN counts neither as the next number nor as the best one so far
    by_cases hx : x = .nan
    · rw [larger, if_pos hx, values, values, List.filterMap_cons_none (value?_eq_none_iff.mpr hx)]
    obtain ⟨b, hb⟩ := exists_value? hx
    have hvalues : values (x :: xs) = b :: values xs := List.filterMap_cons_some hb
    by_cases hbest : best = .nan
    · simp [larger, hx, hbest, hvalues, value?_nan, hb]
    obtain ⟨a, ha⟩ := exists_value? hbest
    have hvalue : (larger best x).value? = some (max a b) := by
      rw [larger, if_neg hx]
      cases hlt : lt best x with
      | false => simp [hbest, ha, (lt_eq_false_iff ha hb).mp hlt]
      | true =>
        obtain ⟨a', b', ha', hb', hab⟩ := lt_iff.mp hlt
        rw [ha] at ha'
        rw [hb] at hb'
        cases ha'
        cases hb'
        simp [hb, hab.le]
    rw [hvalue, ha, hvalues]
    rfl

/-- **The largest number** has the largest value. -/
theorem value?_maximum (xs : List Binary64) : (maximum xs).value? = (values xs).max? :=
  value?_foldl_larger xs .nan

theorem foldl_larger_mem (xs : List Binary64) (best : Binary64) : xs.foldl larger best ∈ best :: xs := by
  induction xs generalizing best with
  | nil => exact List.mem_cons_self
  | cons x xs ih =>
    rw [List.foldl_cons]
    obtain heq | heq := larger_eq_or best x <;> rw [heq]
    · exact List.cons_subset_cons best (List.subset_cons_self x xs) (ih best)
    · exact List.mem_cons_of_mem _ (ih x)

/-- The largest of some numbers is one of them. -/
theorem maximum_mem (h : ∀ x ∈ xs, x ≠ .nan) (hne : xs ≠ []) : maximum xs ∈ xs := by
  refine (List.mem_cons.mp (foldl_larger_mem xs .nan)).resolve_left fun heq => ?_
  have hnone : (values xs).max? = none := by
    rw [← value?_maximum, maximum_eq, heq]
    rfl
  rw [List.max?_eq_none_iff, ← List.length_eq_zero_iff, length_values h, List.length_eq_zero_iff] at hnone
  exact hne hnone

/-! ### Sums -/

section Rel

variable {R : Binary64 → Binary64 → Prop} (hadd : ∀ x x' y y', R x x' → R y y' → R (add x y) (add x' y'))
  {lanes lanes' rest rest' : List Binary64}

include hadd

theorem addLanes_rel (h : List.Forall₂ R lanes lanes') (hxs : List.Forall₂ R xs ys) :
    List.Forall₂ R (addLanes lanes xs) (addLanes lanes' ys) := by
  induction h generalizing xs ys with
  | nil => exact .nil
  | cons hlane _ ih =>
    cases hxs with
    | nil => exact .nil
    | cons hx hxs => exact .cons (hadd _ _ _ _ hlane hx) (ih hxs)

theorem addBlocks_rel (n : ℕ) (h : List.Forall₂ R lanes lanes') (hxs : List.Forall₂ R xs ys) :
    List.Forall₂ R (addBlocks n lanes xs).1 (addBlocks n lanes' ys).1 ∧
      List.Forall₂ R (addBlocks n lanes xs).2 (addBlocks n lanes' ys).2 := by
  induction n generalizing lanes lanes' xs ys with
  | zero => exact ⟨h, hxs⟩
  | succ n ih => exact ih (addLanes_rel hadd h (List.forall₂_take 8 hxs)) (List.forall₂_drop 8 hxs)

theorem addRest_rel (width : ℕ) (h : List.Forall₂ R lanes lanes') (hrest : List.Forall₂ R rest rest') :
    List.Forall₂ R (addRest width lanes rest).1 (addRest width lanes' rest').1 ∧
      List.Forall₂ R (addRest width lanes rest).2 (addRest width lanes' rest').2 := by
  rw [addRest, addRest, hrest.length_eq]
  split_ifs
  · exact ⟨addLanes_rel hadd h (List.forall₂_take width hrest), List.forall₂_drop width hrest⟩
  · exact ⟨h, hrest⟩

/-- **What a sum keeps**: a relation that holds of zero and is kept by additions holds of sums. -/
theorem sum_rel (hzero : R zero zero) (hxs : List.Forall₂ R xs ys) : R (sum xs) (sum ys) := by
  have hstart : List.Forall₂ R (List.replicate 8 zero) (List.replicate 8 zero) := by
    simp [List.replicate, hzero]
  obtain ⟨height, hrest⟩ := addBlocks_rel hadd (ys.length / 8) hstart hxs
  have hfour := addLanes_rel hadd (List.forall₂_take 4 height)
    (List.rel_append (List.forall₂_drop 6 height) (List.forall₂_take 2 (List.forall₂_drop 4 height)))
  obtain ⟨hfour, hrest⟩ := addRest_rel hadd 4 hfour hrest
  have htwo := addLanes_rel hadd (List.forall₂_take 2 hfour) (List.forall₂_drop 2 hfour)
  obtain ⟨htwo, hrest⟩ := addRest_rel hadd 2 htwo hrest
  unfold sum
  rw [hxs.length_eq]
  exact List.rel_foldl (R := R) (P := R) (fun x x' hx y y' hy => hadd x x' y y' hx hy) hzero
    (List.rel_append htwo hrest)

end Rel

theorem roundUnits_zero (den : ℕ) : roundUnits 0 den = 0 := by
  simp [roundUnits, roundHalfEven]

theorem limit_pos : 0 < limit := by
  unfold limit
  generalize 2098 = n
  exact Nat.two_pow_pos n

theorem ofUnits_zero (s : Bool) (den : ℕ) : ofUnits s 0 den = .finite s 0 := by
  rw [ofUnits, roundUnits_zero]
  exact if_pos limit_pos

protected theorem add_comm (x y : Binary64) : add x y = add y x := by
  rcases x with _ | s | ⟨s, a⟩ <;> rcases y with _ | t | ⟨t, b⟩
  case infinite.infinite => cases s <;> cases t <;> rfl
  case finite.finite =>
    simp only [add, eq_comm (a := t), eq_comm (a := b), Nat.add_comm b]
    split_ifs with hsign heq hlt hlt' hlt'
    · rw [hsign]
    · rfl
    · omega
    · rfl
    · rfl
    · omega
  all_goals rfl

/-- The sign of a zero does not matter to a sum. -/
theorem value?_zero_add (s t : Bool) (y : Binary64) : (add (.finite s 0) y).value? = (add (.finite t 0) y).value? := by
  rcases y with _ | u | ⟨u, b⟩
  · rfl
  · rfl
  · by_cases hb : b = 0
    · subst hb
      cases s <;> cases t <;> cases u <;> simp [add, ofUnits_zero, zero, value?, signed]
    · have hsum : ∀ s, add (.finite s 0) (.finite u b) = ofUnits u b 1 := by
        intro s
        rw [add, Nat.zero_add, Nat.sub_zero, if_neg (Ne.symm hb), if_neg (Nat.not_lt_zero b)]
        split_ifs with hsign
        · rw [hsign]
        · rfl
      rw [hsum, hsum]

theorem value?_add_congr (hx : x.value? = x'.value?) (hy : y.value? = y'.value?) :
    (add x y).value? = (add x' y').value? := by
  have hleft : ∀ y, (add x y).value? = (add x' y).value? := by
    intro y
    obtain rfl | ⟨s, t, rfl, rfl⟩ := eq_or_zero_of_value?_eq hx
    · rfl
    · exact value?_zero_add s t y
  have hright : (add x' y).value? = (add x' y').value? := by
    obtain rfl | ⟨s, t, rfl, rfl⟩ := eq_or_zero_of_value?_eq hy
    · rfl
    · rw [Binary64.add_comm, value?_zero_add s t, Binary64.add_comm]
  exact (hleft y).trans hright

/-- The value of a sum depends on the values of what is added, one by one. -/
theorem value?_sum_congr (h : xs.map value? = ys.map value?) : (sum xs).value? = (sum ys).value? := by
  refine sum_rel (R := fun x y => x.value? = y.value?) (fun _ _ _ _ => value?_add_congr) rfl ?_
  rw [← List.forall₂_eq_eq_eq] at h
  exact List.forall₂_map_right_iff.mp (List.forall₂_map_left_iff.mp h)

theorem value?_divNat_congr (h : x.value? = y.value?) (n : ℕ) : (x.divNat n).value? = (y.divNat n).value? := by
  obtain rfl | ⟨s, t, rfl, rfl⟩ := eq_or_zero_of_value?_eq h
  · rfl
  · rw [divNat, divNat, ofUnits_zero, ofUnits_zero]
    cases s <;> cases t <;> rfl

end CrateAudit.Binary64
