import CrateAudit.Bom.Properties
import Mathlib.Data.List.Induction
import Mathlib.Data.List.Nodup
import Mathlib.Data.List.Pairwise

/-!
# Properties, by the calls that set them

A property is set by the calls with its name and a value that is not empty. The list of properties reflects the calls
made so far (`Reflects`): the names stand in it in the order of the first calls that set them (`firstSet`), each with
the value of the last one (`lastValue?`). Every call preserves this (`Reflects.set`), whether it changes a value in
place, adds one at the end or does nothing, so the list is a map that keeps the order of insertion
(`setAll_insertionOrder`).
-/

namespace CrateAudit.Properties

open Bytes

variable {p : Properties} {name value : Bytes} {entries calls : List (Bytes × Bytes)} {c e : Bytes × Bytes}

theorem entries_of_list?_eq_some (h : p.list? = some entries) : p.entries = entries := by
  rw [Properties.entries, h, Option.getD_some]

/-! ### Putting a value into a list -/

/-- A name that is new goes to the end, and one that is not stays where it is. -/
theorem map_fst_upsert (name value : Bytes) (entries : List (Bytes × Bytes)) :
    (upsert name value entries).map (·.1) =
      if name ∈ entries.map (·.1) then entries.map (·.1) else entries.map (·.1) ++ [name] := by
  induction entries with
  | nil => rfl
  | cons first rest ih =>
    rw [upsert]
    by_cases hfirst : first.1 = name
    · simp [hfirst]
    · simp only [if_neg hfirst, List.map_cons, ih, List.mem_cons, or_iff_right (Ne.symm hfirst)]
      split <;> rfl

theorem mem_of_mem_upsert (h : e ∈ upsert name value entries) : e = (name, value) ∨ e ∈ entries := by
  induction entries with
  | nil => exact .inl (List.mem_singleton.mp h)
  | cons first rest ih =>
    rw [upsert] at h
    split at h
    · exact (List.mem_cons.mp h).imp_right (List.mem_cons_of_mem first)
    · obtain rfl | hrest := List.mem_cons.mp h
      · exact .inr List.mem_cons_self
      · exact (ih hrest).imp_right (List.mem_cons_of_mem first)

/-- If every name occurs once, the old value of a name is gone, and all others are still there. -/
theorem mem_upsert_iff (h : (entries.map (·.1)).Nodup) :
    e ∈ upsert name value entries ↔ e = (name, value) ∨ e.1 ≠ name ∧ e ∈ entries := by
  induction entries with
  | nil => simp [upsert]
  | cons first rest ih =>
    obtain ⟨hfirst, hrest⟩ := List.nodup_cons.mp h
    rw [upsert]
    split
    · rename_i hname
      -- the names behind the first one differ from it
      have hne : e ∈ rest → e.1 ≠ name := by
        intro he heq
        exact hfirst (List.mem_map.mpr ⟨e, he, heq.trans hname.symm⟩)
      have hold : e.1 ≠ name → e ≠ first := by
        rintro hne rfl
        exact hne hname
      rw [List.mem_cons, List.mem_cons]
      exact or_congr_right ⟨fun he => ⟨hne he, .inr he⟩, fun h => h.2.resolve_left (hold h.1)⟩
    · rename_i hname
      have hkept : e = first → e.1 ≠ name := by
        rintro rfl
        exact hname
      rw [List.mem_cons, ih hrest, List.mem_cons]
      tauto

/-! ### What the calls tell -/

/-- Whether a call sets a property: by its name, and to something. -/
def sets (name : Bytes) (c : Bytes × Bytes) : Bool := c.1 = name && !c.2.isEmpty

/-- The number of calls in front of the first one that sets a property. -/
def firstSet (calls : List (Bytes × Bytes)) (name : Bytes) : ℕ := calls.findIdx (sets name)

/-- The value of the last call that sets a property. -/
def lastValue? (calls : List (Bytes × Bytes)) (name : Bytes) : Option Bytes :=
  ((calls.filter (sets name)).map (·.2)).getLast?

theorem sets_iff : sets name c = true ↔ c.1 = name ∧ c.2 ≠ [] := by simp [sets]

theorem firstSet_lt_length_iff : firstSet calls name < calls.length ↔ ∃ c ∈ calls, sets name c = true :=
  List.findIdx_lt_length

/-- Later calls do not matter once a property is set. -/
theorem firstSet_append_of_lt (h : firstSet calls name < calls.length) (more : List (Bytes × Bytes)) :
    firstSet (calls ++ more) name = firstSet calls name :=
  List.findIdx_append.trans (if_pos h)

theorem length_le_firstSet_append (h : ¬firstSet calls name < calls.length) (more : List (Bytes × Bytes)) :
    calls.length ≤ firstSet (calls ++ more) name := by
  rw [firstSet, List.findIdx_append, ← firstSet, if_neg h]
  exact Nat.le_add_left _ _

theorem lastValue?_concat (calls : List (Bytes × Bytes)) (c : Bytes × Bytes) (name : Bytes) :
    lastValue? (calls ++ [c]) name = if sets name c then some c.2 else lastValue? calls name := by
  rw [lastValue?, List.filter_append, List.map_append]
  split
  · rename_i hsets
    rw [List.filter_cons_of_pos hsets]
    exact List.getLast?_concat
  · rename_i hsets
    rw [List.filter_cons_of_neg hsets, List.filter_nil, List.map_nil, List.append_nil, ← lastValue?]

theorem exists_sets_of_lastValue? (h : lastValue? calls name = some value) :
    ∃ c ∈ calls, sets name c = true ∧ c.2 = value := by
  obtain ⟨c, hc, rfl⟩ := List.mem_map.mp (List.mem_of_getLast? h)
  obtain ⟨hmem, hsets⟩ := List.mem_filter.mp hc
  exact ⟨c, hmem, hsets, rfl⟩

theorem isSome_lastValue?_iff : (lastValue? calls name).isSome ↔ ∃ c ∈ calls, sets name c = true := by
  simp [lastValue?]

/-! ### What the list reflects -/

/-- The properties **reflect** some calls. -/
structure Reflects (calls : List (Bytes × Bytes)) (p : Properties) : Prop where
  list?_eq_none_iff : p.list? = none ↔ ∀ c ∈ calls, c.2 = []
  order : (p.entries.map (·.1)).Pairwise fun n n' => firstSet calls n < firstSet calls n'
  mem_iff : ∀ e, e ∈ p.entries ↔ lastValue? calls e.1 = some e.2

namespace Reflects

theorem nil : Reflects [] {} where
  list?_eq_none_iff := by simp
  order := List.Pairwise.nil
  mem_iff := by simp [entries, lastValue?]

variable (h : Reflects calls p)
include h

theorem nodup : (p.entries.map (·.1)).Nodup := by
  refine h.order.imp ?_
  rintro n _ hlt rfl
  exact Nat.lt_irrefl _ hlt

theorem mem_map_fst_iff : name ∈ p.entries.map (·.1) ↔ firstSet calls name < calls.length := by
  rw [firstSet_lt_length_iff, ← isSome_lastValue?_iff, Option.isSome_iff_exists, List.mem_map]
  constructor
  · rintro ⟨e, he, rfl⟩
    exact ⟨e.2, (h.mem_iff e).mp he⟩
  · rintro ⟨value, hvalue⟩
    exact ⟨(name, value), (h.mem_iff (name, value)).mpr hvalue, rfl⟩

/-- The names that are there keep their order whatever is called. -/
theorem order_append (more : List (Bytes × Bytes)) :
    (p.entries.map (·.1)).Pairwise fun n n' => firstSet (calls ++ more) n < firstSet (calls ++ more) n' := by
  refine h.order.imp_of_mem ?_
  intro n n' hn hn' hlt
  rwa [firstSet_append_of_lt (h.mem_map_fst_iff.mp hn), firstSet_append_of_lt (h.mem_map_fst_iff.mp hn')]

/-- **One call** keeps what the list reflects. -/
theorem set (name value : Bytes) : Reflects (calls ++ [(name, value)]) (p.set name value) := by
  rw [Properties.set]
  by_cases hvalue : value = []
  · -- the call sets nothing
    have hsets (n : Bytes) : sets n (name, value) = false := by simp [sets, hvalue]
    rw [if_pos (List.isEmpty_iff.mpr hvalue)]
    refine ⟨?_, h.order_append _, ?_⟩
    · simp [h.list?_eq_none_iff, or_imp, forall_and, hvalue]
    · intro e
      rw [h.mem_iff, lastValue?_concat, hsets, if_neg Bool.false_ne_true]
  · rw [if_neg (by simpa using hvalue)]
    refine ⟨?_, ?_, ?_⟩
    · simp [or_imp, forall_and, hvalue]
    · show ((upsert name value p.entries).map (·.1)).Pairwise _
      rw [map_fst_upsert]
      split
      · exact h.order_append _
      · -- a new name was set by no earlier call
        rename_i hnew
        refine List.pairwise_append.mpr ⟨h.order_append _, List.pairwise_singleton _ _, ?_⟩
        intro n hn n' hn'
        obtain rfl := List.mem_singleton.mp hn'
        have hlt := h.mem_map_fst_iff.mp hn
        calc firstSet (calls ++ [(n', value)]) n = firstSet calls n := firstSet_append_of_lt hlt _
          _ < calls.length := hlt
          _ ≤ firstSet (calls ++ [(n', value)]) n' := length_le_firstSet_append (mt h.mem_map_fst_iff.mpr hnew) _
    · intro e
      show e ∈ upsert name value p.entries ↔ _
      rw [mem_upsert_iff h.nodup, lastValue?_concat, h.mem_iff]
      by_cases hname : e.1 = name
      · have hsets : sets e.1 (name, value) = true := sets_iff.mpr ⟨hname.symm, hvalue⟩
        rw [if_pos hsets, Prod.ext_iff]
        simp [hname, eq_comm]
      · have hsets : ¬sets e.1 (name, value) = true := fun hsets => hname (sets_iff.mp hsets).1.symm
        rw [if_neg hsets, Prod.ext_iff]
        simp [hname]

theorem value_ne_nil (he : e ∈ p.entries) : e.2 ≠ [] := by
  obtain ⟨c, -, hsets, heq⟩ := exists_sets_of_lastValue? ((h.mem_iff e).mp he)
  exact heq ▸ (sets_iff.mp hsets).2

end Reflects

/-- The list reflects all calls that were made on a component without properties. -/
theorem reflects_setAll (calls : List (Bytes × Bytes)) : Reflects calls (setAll {} calls) := by
  induction calls using List.reverseRecOn with
  | nil => exact Reflects.nil
  | append_singleton calls c ih =>
    rw [setAll, List.foldl_append, ← setAll]
    exact ih.set c.1 c.2

/-- **Properties keep the order of insertion**. Whatever is set in turn on a component without properties, there is no
list as long as all values are empty. In the list no name occurs twice, the names stand in the order of the first calls
that set them, no value is empty, and a name stands with a value exactly if this is the value of the last call that
set it. -/
theorem setAll_insertionOrder (calls : List (Bytes × Bytes)) :
    ((setAll {} calls).list? = none ↔ ∀ c ∈ calls, c.2 = []) ∧
      ∀ entries, (setAll {} calls).list? = some entries →
        (entries.map (·.1)).Nodup ∧
        (entries.map (·.1)).Pairwise (fun n n' => firstSet calls n < firstSet calls n') ∧
        (∀ e ∈ entries, e.2 ≠ []) ∧
        ∀ name value, (name, value) ∈ entries ↔ lastValue? calls name = some value := by
  have h := reflects_setAll calls
  refine ⟨h.list?_eq_none_iff, ?_⟩
  intro entries hentries
  rw [← entries_of_list?_eq_some hentries]
  exact ⟨h.nodup, h.order, fun e => h.value_ne_nil, fun name value => h.mem_iff (name, value)⟩

/-- Calls about two properties. The one that is named first gets a value only after the other one, and keeps it when it
is set to nothing. -/
def interleaved : List (Bytes × Bytes) :=
  [(lit "status", []), (lit "elapsed", lit "0"), (lit "status", lit "ok"), (lit "elapsed", lit "1.5"), (lit "status", [])]

theorem setAll_insertionOrder_interleaved :
    (setAll {} interleaved).list? = some [(lit "elapsed", lit "1.5"), (lit "status", lit "ok")] ∧
      [lit "elapsed", lit "status"].Nodup ∧
      [lit "elapsed", lit "status"].Pairwise (fun n n' => firstSet interleaved n < firstSet interleaved n') ∧
      (∀ e ∈ [(lit "elapsed", lit "1.5"), (lit "status", lit "ok")], e.2 ≠ []) ∧
      ∀ name value, (name, value) ∈ [(lit "elapsed", lit "1.5"), (lit "status", lit "ok")] ↔
        lastValue? interleaved name = some value := by
  have hentries : (setAll {} interleaved).list? = some [(lit "elapsed", lit "1.5"), (lit "status", lit "ok")] := by
    decide
  exact ⟨hentries, (setAll_insertionOrder interleaved).2 _ hentries⟩

end CrateAudit.Properties
