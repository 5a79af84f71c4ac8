import CrateAudit.Proofs.FileTree.Matches
import Mathlib.Data.List.Forall2

/-!
# File trees that differ in their programs

No operation on a file tree looks into its programs. So if two trees hold the same things at the same
places, except that programs do something else (`FileTree.Alike`), then every path leads to the same place
in both, every operation is refused in both for the same reason or in neither, and what an operation leaves
behind is alike again.

How the actions of two programs compare may depend on the place of the program and on the call, so one may
ask for more in some calls than in others.
-/

namespace CrateAudit

open Bytes

/-- A comparison of what two programs do, by the place of the programs and the call. -/
abbrev Comparison := Location → Call → Action → Action → Prop

/-- Programs that do comparable things in every call. -/
inductive Program.Alike (R : Call → Action → Action → Prop) : Program → Program → Prop where
  | unrunnable : Alike R .unrunnable .unrunnable
  | runs {action action' : Call → Action} (h : ∀ call, R call (action call) (action' call)) :
      Alike R (.runs action) (.runs action')

/-- Entries that are equal, or programs that are alike. -/
inductive Entry.Alike (R : Call → Action → Action → Prop) : Entry → Entry → Prop where
  | directory : Alike R .directory .directory
  | file (content : Bytes) : Alike R (.file content) (.file content)
  | link (target : Bytes) : Alike R (.link target) (.link target)
  | program {p p' : Program} (h : p.Alike R p') : Alike R (.program p) (.program p')

theorem Entry.Alike.kin {R : Call → Action → Action → Prop} {entry entry' : Entry} (h : entry.Alike R entry') :
    entry.Kin Eq (Program.Alike R) entry' := by
  cases h with
  | directory => exact .directory
  | file content => exact .file rfl
  | link target => exact .link target
  | program h => exact .program h

/-- File trees that hold the same things at the same places, programs that are alike included. -/
structure FileTree.Alike (R : Comparison) (t t' : FileTree) : Prop where
  current_eq : t.current = t'.current
  entries : List.Forall₂ (fun e e' => e.1 = e'.1 ∧ e.2.Alike (R e.1) e'.2) t.entries t'.entries

theorem FileTree.Alike.refl {R : Comparison} (hR : ∀ place call a, R place call a a) (t : FileTree) :
    t.Alike R t := by
  refine ⟨rfl, List.forall₂_same.mpr ?_⟩
  rintro ⟨place, entry⟩ -
  refine ⟨rfl, ?_⟩
  cases entry with
  | directory => exact .directory
  | file content => exact .file content
  | link target => exact .link target
  | program p =>
    cases p with
    | unrunnable => exact .program .unrunnable
    | runs action => exact .program (.runs fun call => hR place call (action call))

namespace FileTree.Alike

variable {R : Comparison} {t t' : FileTree}

/-! ### Following paths -/

theorem get? (h : t.Alike R t') (place : Location) :
    Option.Rel (Entry.Alike (R place)) (t.get? place) (t'.get? place) := by
  unfold FileTree.get?
  split
  · exact .some .directory
  have hentries := h.entries
  revert hentries
  generalize t.entries = entries, t'.entries = entries'
  intro hentries
  induction hentries with
  | nil => exact .none
  | @cons e e' rest rest' he _ ih =>
    by_cases hplace : e.1 = place
    · rw [List.find?_cons_of_pos (by simpa using hplace),
        List.find?_cons_of_pos (by simpa [← he.1] using hplace)]
      exact .some (hplace ▸ he.2)
    · rw [List.find?_cons_of_neg (by simpa using hplace),
        List.find?_cons_of_neg (by simpa [← he.1] using hplace)]
      exact ih

theorem inside (h : t.Alike R t') (place : Location) : (t.inside place).Alike R (t'.inside place) :=
  ⟨rfl, h.entries⟩

/-- Trees that are alike match everywhere. -/
theorem matches_empty (h : t.Alike R t') : t.Matches Eq (fun place => Program.Alike (R place)) ∅ t' :=
  ⟨h.current_eq, fun place _ => rel_imp (h.get? place) fun _ _ => Entry.Alike.kin⟩

/-! ### Operations -/

theorem filter_entries (h : t.Alike R t') (keeps : Location → Bool) :
    List.Forall₂ (fun e e' => e.1 = e'.1 ∧ e.2.Alike (R e.1) e'.2)
      (t.entries.filter (keeps ·.1)) (t'.entries.filter (keeps ·.1)) := by
  refine List.rel_filter ?_ h.entries
  rintro ⟨place, entry⟩ ⟨_, entry'⟩ ⟨rfl, -⟩
  exact Iff.rfl

theorem put (h : t.Alike R t') (place : Location) {entry entry' : Entry}
    (hentry : entry.Alike (R place) entry') : (t.put place entry).Alike R (t'.put place entry') :=
  ⟨h.current_eq, .cons ⟨rfl, hentry⟩ (h.filter_entries (· ≠ place))⟩

/-- **Operations go the same way** in trees that are alike, whatever their paths. -/
theorem lockstep (R : Comparison) :
    Lockstep Eq (fun place => Program.Alike (R place)) (FileTree.Alike R) fun _ _ => True where
  current_eq h := h.current_eq
  inside h := h.inside
  locate h _ follow := h.matches_empty.locate follow (clear_empty _ _ _)
  file h _ hcontent := hcontent ▸ h.put _ (.file _)
  directory h _ := h.put _ .directory
  without h place := ⟨h.current_eq, h.filter_entries fun e => !place.isPrefixOf e⟩
  stays _ := id
  above h _ := h
  bare h _ := h

end FileTree.Alike

end CrateAudit
