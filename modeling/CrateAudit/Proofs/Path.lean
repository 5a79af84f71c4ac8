import CrateAudit.Path
import CrateAudit.Proofs.Bytes.Lines

/-!
# The form of clean paths

The elements of a path are not empty and hold no separator. A clean path is put together from such elements with
one separator between two of them, so it does not end with a separator unless it is the root
(`getLast?_clean`). The same is true of what stands in front of the last element of a path (`getLast?_parent`).
-/

namespace CrateAudit.Path

open Bytes

theorem of_mem_elements {p e : Bytes} (h : e ∈ elements p) : e ≠ [] ∧ slash ∉ e := by
  rw [elements, List.mem_filter] at h
  exact ⟨by simpa using h.2, not_mem_of_mem_pieces h.1⟩

theorem elements_append_slash (front back : Bytes) :
    elements (front ++ slash :: back) = elements front ++ elements back := by
  rw [elements, pieces_append_cons, List.filter_append]
  rfl

theorem mem_of_mem_walk {rooted : Bool} {seen : List Bytes} {e e' : Bytes} (h : e' ∈ walk rooted seen e) :
    e' = e ∨ e' ∈ seen := by
  unfold walk at h
  cases seen with
  | nil =>
    dsimp only at h
    split_ifs at h
    · exact absurd h List.not_mem_nil
    · exact absurd h List.not_mem_nil
    · exact .inl (List.mem_singleton.mp h)
    · exact .inl (List.mem_singleton.mp h)
  | cons last before =>
    dsimp only at h
    split_ifs at h
    · exact .inr h
    · exact List.mem_cons.mp h
    · exact .inr (List.mem_cons_of_mem _ h)
    · exact List.mem_cons.mp h

theorem mem_of_mem_foldl_walk {rooted : Bool} (es : List Bytes) {seen : List Bytes} {e : Bytes}
    (h : e ∈ es.foldl (walk rooted) seen) : e ∈ es ∨ e ∈ seen := by
  induction es generalizing seen with
  | nil => exact .inr h
  | cons first es ih =>
    obtain hes | hseen := ih h
    · exact .inl (List.mem_cons_of_mem _ hes)
    · obtain rfl | hseen := mem_of_mem_walk hseen
      · exact .inl List.mem_cons_self
      · exact .inr hseen

theorem getLast?_intercalate (es : List Bytes) {last : Bytes} (hlast : last ≠ []) :
    ([slash].intercalate (es ++ [last])).getLast? = last.getLast? := by
  induction es with
  | nil => simp
  | cons e es ih =>
    obtain ⟨next, rest, hrest⟩ : ∃ next rest, es ++ [last] = next :: rest := by
      cases es with
      | nil => exact ⟨last, [], rfl⟩
      | cons next rest => exact ⟨next, rest ++ [last], rfl⟩
    rw [hrest] at ih
    rw [List.cons_append, hrest, List.intercalate_cons_cons, List.getLast?_append, ih]
    simp [List.getLast?_eq_some_getLast hlast]

theorem getLast?_ofElements (rooted : Bool) {es : List Bytes} (h : ∀ e ∈ es, e ≠ [] ∧ slash ∉ e) :
    ofElements rooted es = [slash] ∨ (ofElements rooted es).getLast? ≠ some slash := by
  rcases List.eq_nil_or_concat es with rfl | ⟨front, last, rfl⟩
  · cases rooted with
    | true => exact .inl rfl
    | false => exact .inr (by decide)
  · right
    rw [List.concat_eq_append] at h ⊢
    obtain ⟨hne, hslash⟩ := h last (by simp)
    have hlast : ([slash].intercalate (front ++ [last])).getLast? ≠ some slash := by
      rw [getLast?_intercalate front hne]
      exact fun heq => hslash (List.mem_of_getLast? heq)
    have hjoined : [slash].intercalate (front ++ [last]) ≠ [] := by
      intro hnil
      have hget := getLast?_intercalate front hne
      rw [hnil] at hget
      exact hne (List.getLast?_eq_none_iff.mp hget.symm)
    unfold ofElements
    split_ifs with hrooted hempty
    · rw [List.getLast?_eq_some_getLast hjoined] at hlast
      rwa [List.getLast?_cons, List.getLast?_eq_some_getLast hjoined]
    · exact absurd hempty (by simp)
    · exact hlast

theorem getLast?_clean (p : Bytes) : clean p = [slash] ∨ (clean p).getLast? ≠ some slash := by
  refine getLast?_ofElements _ fun e he => ?_
  obtain he | he := mem_of_mem_foldl_walk (elements p) (List.mem_reverse.mp he)
  · exact of_mem_elements he
  · exact absurd he List.not_mem_nil

theorem getLast?_parent (p : Bytes) : parent p = [slash] ∨ (parent p).getLast? ≠ some slash := by
  unfold parent
  split
  · exact .inr (by decide)
  · exact getLast?_clean _

end CrateAudit.Path
