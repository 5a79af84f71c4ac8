import CrateAudit.Job.Directory
import CrateAudit.Proofs.Bytes.Order
import CrateAudit.Proofs.FileTree.Changes

/-!
# The crates of a directory

In a tree with one entry at a place, and with names that are not empty (`FileTree.Sound`), the crates of a directory are
the directories directly in it, in ascending order (`Job.exists_ofDirectory`).
-/

namespace CrateAudit

open Bytes

theorem Entry.isDirectory_iff {entry : Entry} : entry.isDirectory = true ↔ entry = .directory := by
  cases entry <;> simp [isDirectory]

/-- A tree with one entry at a place, and with names that are not empty. -/
structure FileTree.Sound (t : FileTree) : Prop where
  nodup : (t.entries.map (·.1)).Nodup
  named : ∀ e ∈ t.entries, [] ∉ e.1

namespace FileTree

variable {t : FileTree} {place : Location} {name : Bytes} {entry : Entry}

theorem get?_of_mem_entries (h : t.Sound) (hmem : (place, entry) ∈ t.entries) (hplace : place ≠ []) :
    t.get? place = some entry := by
  unfold get?
  rw [if_neg (by simpa using hplace)]
  have hfind : t.entries.find? (fun e => e.1 = place) = some (place, entry) := by
    cases hfound : t.entries.find? (fun e => e.1 = place) with
    | none => exact absurd (decide_eq_true rfl) (List.find?_eq_none.mp hfound _ hmem)
    | some e =>
      have heq : e.1 = place := by simpa using List.find?_some hfound
      exact congrArg some (List.inj_on_of_nodup_map h.nodup (List.mem_of_find?_eq_some hfound) hmem heq)
  rw [hfind]
  rfl

theorem ne_nil_of_get? (h : t.Sound) (hget : t.get? (place ++ [name]) = some entry) : name ≠ [] := by
  rintro rfl
  exact h.named _ (mem_entries_of_get? hget (by simp)) (by simp)

/-- The name of a place in a directory. -/
def nameIn (directory place : Location) : Option Bytes :=
  if place.dropLast = directory then place.getLast? else none

theorem nameIn_eq_some_iff {directory : Location} :
    nameIn directory place = some name ↔ place = directory ++ [name] := by
  unfold nameIn
  constructor
  · intro h
    obtain ⟨hdirectory, hlast⟩ := Option.ite_none_right_eq_some.mp h
    obtain ⟨start, rfl⟩ := List.getLast?_eq_some_iff.mp hlast
    rw [List.dropLast_concat] at hdirectory
    rw [hdirectory]
  · rintro rfl
    simp

theorem children_eq (t : FileTree) (directory : Location) :
    t.children directory =
      (t.entries.filterMap fun e => (nameIn directory e.1).map fun name => (name, e.2)).mergeSort
        fun a b => le a.1 b.1 := by
  unfold children
  congr 1
  refine List.filterMap_congr fun e _ => ?_
  obtain ⟨p, entry⟩ := e
  unfold nameIn
  dsimp only
  cases p.getLast? with
  | none => split_ifs <;> rfl
  | some name => split_ifs <;> rfl

/-- The entries of a directory. -/
theorem mem_children_iff (h : t.Sound) {directory : Location} :
    (name, entry) ∈ t.children directory ↔ t.get? (directory ++ [name]) = some entry := by
  have hroot : directory ++ [name] ≠ [] := by simp
  rw [children_eq, List.mem_mergeSort, List.mem_filterMap]
  constructor
  · rintro ⟨⟨p, entry'⟩, hmem, hname⟩
    obtain ⟨name', hname', heq⟩ := Option.map_eq_some_iff.mp hname
    obtain ⟨rfl, rfl⟩ := Prod.mk.inj heq
    obtain rfl := nameIn_eq_some_iff.mp hname'
    exact get?_of_mem_entries h hmem hroot
  · intro hget
    refine ⟨_, mem_entries_of_get? hget hroot, ?_⟩
    rw [nameIn_eq_some_iff.mpr rfl]
    rfl

/-- The names in a directory ascend. -/
theorem pairwise_children (h : t.Sound) (directory : Location) :
    (t.children directory).Pairwise fun a b => a.1 < b.1 := by
  have hnodup : ((t.children directory).map (·.1)).Nodup := by
    rw [children_eq, ((List.mergeSort_perm _ _).map _).nodup_iff, List.map_filterMap]
    have hmap : (t.entries.filterMap fun e =>
        ((nameIn directory e.1).map fun name => (name, e.2)).map (·.1)) =
        (t.entries.map (·.1)).filterMap (nameIn directory) := by
      rw [List.filterMap_map]
      refine List.filterMap_congr fun e _ => ?_
      rw [Option.map_map]
      exact Option.map_id'
    rw [hmap]
    refine h.nodup.filterMap fun p q name hp hq => ?_
    rw [nameIn_eq_some_iff.mp hp, nameIn_eq_some_iff.mp hq]
  have hsorted : (t.children directory).Pairwise fun a b => a.1 ≤ b.1 := by
    rw [children_eq]
    exact pairwise_mergeSort_le Prod.fst _
  refine (hsorted.and (List.pairwise_map.mp hnodup)).imp fun {a b} hab => ?_
  by_contra hlt
  exact hab.2 (List.le_antisymm hab.1 hlt)

end FileTree

/-! ### Crates -/

/-- **The crates of a directory** are the directories directly in it, in ascending order. -/
theorem Job.exists_ofDirectory {t : FileTree} (h : t.Sound) {dir : Bytes} {place : Location}
    (hdir : t.find true dir = .ok (place, .directory)) (hne : ∃ name, t.get? (place ++ [name]) = some .directory) :
    ∃ names : List Bytes, ofDirectory t dir = .ok (names.map (below dir)) ∧ names.Pairwise (· < ·) ∧
      ∀ name, name ∈ names ↔ t.get? (place ++ [name]) = some .directory := by
  let crates := (t.children place).filter (·.2.isDirectory)
  have hmem : ∀ name, name ∈ crates.map (·.1) ↔ t.get? (place ++ [name]) = some .directory := by
    intro name
    rw [List.mem_map]
    constructor
    · rintro ⟨⟨name, entry⟩, hcrate, rfl⟩
      obtain ⟨hchild, hdirectory⟩ := List.mem_filter.mp hcrate
      obtain rfl := Entry.isDirectory_iff.mp hdirectory
      exact (FileTree.mem_children_iff h).mp hchild
    · intro hget
      exact ⟨(name, .directory), List.mem_filter.mpr ⟨(FileTree.mem_children_iff h).mpr hget, rfl⟩, rfl⟩
  have hlist : t.list dir = .ok (t.children place) := by
    unfold FileTree.list
    rw [hdir]
    rfl
  refine ⟨crates.map (·.1), ?_, ?_, hmem⟩
  -- a directory without crates is refused
  · obtain ⟨name, hname⟩ := hne
    obtain ⟨crate, hcrate, -⟩ := List.mem_map.mp ((hmem name).mpr hname)
    obtain ⟨first, rest, hcrates⟩ := List.exists_cons_of_ne_nil (List.ne_nil_of_mem hcrate)
    have hfilter : (t.children place).filter (·.2.isDirectory) = first :: rest := hcrates
    rw [hcrates, List.map_map, ofDirectory, hlist]
    simp only [Except.mapError, bind, Except.bind, hfilter]
    rfl
  · rw [List.pairwise_map]
    exact (FileTree.pairwise_children h place).filter _

end CrateAudit
