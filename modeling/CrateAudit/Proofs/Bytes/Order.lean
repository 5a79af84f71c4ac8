import CrateAudit.Bytes.Basic
import Mathlib.Data.List.Sort

/-!
# The order of byte strings

The order that byte strings are sorted by is the lexicographic one (`le_iff`). So what is sorted ascends, strictly if
nothing occurs twice (`pairwise_sort`), and the order in which it came does not matter (`sort_eq_of_perm`). A list that
ascends is determined by its elements (`eq_of_pairwise_lt`).
-/

namespace CrateAudit.Bytes

variable {a b : Bytes} {l l' : List Bytes}

theorem le_iff : le a b = true ↔ a ≤ b := by
  induction a generalizing b with
  | nil => simp [le]
  | cons x a ih =>
    cases b with
    | nil => simp [le]
    | cons y b => simp [le, ih, List.cons_le_cons_iff]

theorem pairwise_mergeSort_le {α : Type} (key : α → Bytes) (as : List α) :
    (as.mergeSort fun a b => le (key a) (key b)).Pairwise fun a b => key a ≤ key b := by
  have htrans : ∀ a b c : α, le (key a) (key b) = true → le (key b) (key c) = true → le (key a) (key c) = true :=
    fun a b c hab hbc => le_iff.mpr (List.le_trans (le_iff.mp hab) (le_iff.mp hbc))
  have htotal : ∀ a b : α, (le (key a) (key b) || le (key b) (key a)) = true := by
    intro a b
    simpa [le_iff] using List.le_total (key a) (key b)
  exact (List.pairwise_mergeSort htrans htotal as).imp le_iff.mp

theorem sort_perm (l : List Bytes) : (sort l).Perm l := List.mergeSort_perm l le

theorem pairwise_sort (h : l.Nodup) : (sort l).Pairwise (· < ·) := by
  have hsorted : (sort l).Pairwise (· ≤ ·) := pairwise_mergeSort_le id l
  have hnodup : (sort l).Pairwise (· ≠ ·) := (sort_perm l).nodup_iff.mpr h
  refine (hsorted.and hnodup).imp fun {a b} hab => ?_
  by_contra hlt
  exact hab.2 (List.le_antisymm hab.1 hlt)

theorem sort_eq_of_perm (h : l.Perm l') : sort l = sort l' := by
  refine List.Perm.eq_of_pairwise (fun a b _ _ => List.le_antisymm) (pairwise_mergeSort_le id l)
    (pairwise_mergeSort_le id l') ?_
  exact ((sort_perm l).trans h).trans (sort_perm l').symm

theorem sort_eq_self (h : l.Pairwise (· ≤ ·)) : sort l = l :=
  List.mergeSort_of_pairwise (h.imp le_iff.mpr)

theorem eq_of_pairwise_lt (h : l.Pairwise (· < ·)) (h' : l'.Pairwise (· < ·)) (hmem : ∀ a, a ∈ l ↔ a ∈ l') :
    l = l' := by
  have hperm : l.Perm l' := (List.perm_ext_iff_of_nodup h.nodup h'.nodup).mpr hmem
  exact hperm.eq_of_pairwise (fun a b _ _ hab hba => absurd (List.lt_trans hab hba) (List.lt_irrefl a)) h h'

end CrateAudit.Bytes
