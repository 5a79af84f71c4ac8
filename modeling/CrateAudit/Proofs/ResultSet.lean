import CrateAudit.ResultSet
import Mathlib.Data.List.Nodup

/-!
# Result sets as maps

A result set in which no name occurs twice is a map from names to results: what is stored under a name
is what `get?` finds, and a new name is stored at the end.
-/

namespace CrateAudit.ResultSet

variable {s : ResultSet} {r : Result} {id : Bytes}

theorem get?_eq_none_iff : s.get? id = none ↔ id ∉ s.stored.map (·.id) := by
  simp [get?]

/-- A result with a new name is stored. -/
theorem put_of_not_mem (h : r.id ∉ s.stored.map (·.id)) : s.put r = .ok ⟨s.stored ++ [r]⟩ := by
  rw [put, get?_eq_none_iff.mpr h]

/-- Names are keys: a name finds the one result that has it. -/
theorem get?_eq_some_iff (hs : (s.stored.map (·.id)).Nodup) :
    s.get? id = some r ↔ r ∈ s.stored ∧ r.id = id := by
  constructor
  · intro h
    exact ⟨List.mem_of_find?_eq_some h, by simpa using List.find?_some h⟩
  · rintro ⟨hmem, rfl⟩
    cases hget : s.get? r.id with
    | none => exact absurd (List.mem_map_of_mem hmem) (get?_eq_none_iff.mp hget)
    | some r' =>
      have hid : r'.id = r.id := by simpa using List.find?_some hget
      rw [List.inj_on_of_nodup_map hs (List.mem_of_find?_eq_some hget) hmem hid]

/-- The results of jobs that all have one, in the order of the jobs. -/
theorem ordered_eq_map {α : Type} {l : List α} {key : α → Bytes} {value : α → Result}
    (h : ∀ a ∈ l, s.get? (key a) = some (value a)) : s.ordered (l.map key) = l.map value := by
  rw [ordered, List.filterMap_map]
  exact List.filterMap_eq_map_iff_forall_eq_some.mpr h

end CrateAudit.ResultSet
