import CrateAudit.Proofs.FileTree.Changes

/-!
# The layout of a file tree

The layout of a tree are its directories and its links (`FileTree.SameLayout`). It decides where a path leads, and
so whether a file can be written at its end (`FileTree.Admits`). Writing a file leaves the layout alone, because a
file takes the place of neither a directory nor a link: what can be written does not change while files are written
(`SameLayout.admits_iff`).
-/

namespace CrateAudit

open Bytes

namespace FileTree

variable {t u v : FileTree} {follow : Bool} {place : Location} {path content : Bytes} {ns : List Bytes}

/-- Trees with the same directories and the same links. -/
structure SameLayout (t u : FileTree) : Prop where
  current_eq : t.current = u.current
  directory_iff : ∀ place, t.get? place = some .directory ↔ u.get? place = some .directory
  link_iff : ∀ place target, t.get? place = some (.link target) ↔ u.get? place = some (.link target)

namespace SameLayout

theorem refl (t : FileTree) : t.SameLayout t := ⟨rfl, fun _ => .rfl, fun _ _ => .rfl⟩

theorem symm (h : t.SameLayout u) : u.SameLayout t :=
  ⟨h.current_eq.symm, fun place => (h.directory_iff place).symm, fun place target => (h.link_iff place target).symm⟩

theorem trans (h : t.SameLayout u) (h' : u.SameLayout v) : t.SameLayout v :=
  ⟨h.current_eq.trans h'.current_eq, fun place => (h.directory_iff place).trans (h'.directory_iff place),
    fun place target => (h.link_iff place target).trans (h'.link_iff place target)⟩

end SameLayout

theorem Plain.sameLayout_put (h : t.Plain place) (content : Bytes) : t.SameLayout (t.put place (.file content)) := by
  refine ⟨rfl, fun other => ?_, fun other target => ?_⟩
  · rw [get?_put t h.ne_root]
    split_ifs with heq
    · simp [heq, h.ne_directory]
    · rfl
  · rw [get?_put t h.ne_root]
    split_ifs with heq
    · simp [heq, h.ne_link target]
    · rfl

/-! ### Following paths -/

/-- A path that is followed at all. -/
structure Followed (path : Bytes) : Prop where
  zero_not_mem : path.contains 0 = false
  ne_nil : path.isEmpty = false
  length_lt : path.length < pathLimit

theorem Followed.locate_eq (h : Followed path) : t.locate follow path =
    t.walkLinks follow linkLimit (start t.current path) (names path) := by
  rw [locate, h.zero_not_mem, h.ne_nil, if_neg (by simp), if_neg (by simp), if_neg (Nat.not_le.mpr h.length_lt)]

theorem walkLinks_of_error {links : Nat} {refusal : Refusal} (h : t.walk follow place ns = .error refusal) :
    t.walkLinks follow links place ns = .error refusal := by
  rw [walkLinks, h]
  rfl

/-- Walks to the same place or to the same link. -/
inductive Walk.Parallel : Walk → Walk → Prop where
  | arrived (place : Location) {entry entry' : Option Entry}
      (h : entry = some .directory ↔ entry' = some .directory) : Parallel (.arrived place entry) (.arrived place entry')
  | link (directory : Location) (target : Bytes) (rest : List Bytes) :
      Parallel (.link directory target rest) (.link directory target rest)

/-- A walk is decided by the directories and links that it meets. -/
theorem SameLayout.exists_walks (h : t.SameLayout u) {w : Walk} (hw : t.Walks follow place ns w) :
    ∃ w', u.Walks follow place ns w' ∧ w.Parallel w' := by
  induction hw with
  | done place => exact ⟨_, .done place, .arrived place .rfl⟩
  | dot _ ih =>
    obtain ⟨w', hw', hparallel⟩ := ih
    exact ⟨w', .dot hw', hparallel⟩
  | up _ ih =>
    obtain ⟨w', hw', hparallel⟩ := ih
    exact ⟨w', .up hw', hparallel⟩
  | enter hname hget _ ih =>
    obtain ⟨w', hw', hparallel⟩ := ih
    exact ⟨w', .enter hname ((h.directory_iff _).mp hget) hw', hparallel⟩
  | @stop place name hname hdirectory hlink =>
    have hdirectory' := mt (h.directory_iff _).mpr hdirectory
    refine ⟨_, .stop hname hdirectory' fun target hget => ?_, .arrived _ (iff_of_false hdirectory hdirectory')⟩
    exact hlink target ((h.link_iff _ target).mpr hget)
  | @link place name target rest hname hget hon =>
    exact ⟨_, .link hname ((h.link_iff _ target).mp hget) hon, .link place target rest⟩

theorem SameLayout.exists_arrived (h : t.SameLayout u) {L : Location} {entry : Option Entry}
    (hwalk : t.walk follow place ns = .ok (.arrived L entry)) :
    ∃ entry', u.walk follow place ns = .ok (.arrived L entry') ∧ (entry = some .directory ↔ entry' = some .directory) := by
  obtain ⟨w', hwalks, hparallel⟩ := h.exists_walks (walks_of_walk hwalk)
  cases hparallel with
  | arrived _ hentry => exact ⟨_, hwalks.walk_eq, hentry⟩

theorem SameLayout.walk_eq_link (h : t.SameLayout u) {directory : Location} {target : Bytes} {rest : List Bytes}
    (hwalk : t.walk follow place ns = .ok (.link directory target rest)) :
    u.walk follow place ns = .ok (.link directory target rest) := by
  obtain ⟨w', hwalks, hparallel⟩ := h.exists_walks (walks_of_walk hwalk)
  cases hparallel with
  | link => exact hwalks.walk_eq

theorem SameLayout.exists_walkLinks (h : t.SameLayout u) {links : Nat} {L : Location} {entry : Option Entry}
    (hwalk : t.walkLinks follow links place ns = .ok (L, entry)) :
    ∃ entry', u.walkLinks follow links place ns = .ok (L, entry') ∧
      (entry = some .directory ↔ entry' = some .directory) := by
  induction links generalizing place ns with
  | zero =>
    obtain hwalk | ⟨_, _, _, _, hlinks, -⟩ := walkLinks_cases hwalk
    · obtain ⟨entry', hwalk', hentry⟩ := h.exists_arrived hwalk
      exact ⟨entry', walkLinks_of_arrived hwalk', hentry⟩
    · cases hlinks
  | succ links ih =>
    obtain hwalk | ⟨_, directory, target, rest, hlinks, hwalk, hbehind⟩ := walkLinks_cases hwalk
    · obtain ⟨entry', hwalk', hentry⟩ := h.exists_arrived hwalk
      exact ⟨entry', walkLinks_of_arrived hwalk', hentry⟩
    · obtain rfl := Nat.succ.inj hlinks
      rw [walkLinks_of_link (h.walk_eq_link hwalk)]
      exact ih hbehind

/-! ### Writing files -/

/-- A path that leads to a place at which a file can be written: no directory stands there. -/
def Admits (t : FileTree) (path : Bytes) (place : Location) : Prop :=
  ∃ entry, t.locate true path = .ok (place, entry) ∧ entry ≠ some .directory

theorem Admits.eq {other : Location} (h : t.Admits path place) (h' : t.Admits path other) : place = other := by
  obtain ⟨entry, hlocate, -⟩ := h
  obtain ⟨entry', hlocate', -⟩ := h'
  rw [hlocate] at hlocate'
  exact congrArg Prod.fst (Except.ok.inj hlocate')

theorem Admits.plain (h : t.Admits path place) : t.Plain place := by
  obtain ⟨entry, hlocate, hentry⟩ := h
  exact (plain_of_locate hlocate hentry).1

theorem SameLayout.admits (h : t.SameLayout u) (hpath : t.Admits path place) : u.Admits path place := by
  obtain ⟨entry, hlocate, hentry⟩ := hpath
  obtain ⟨entry', hlocate', hiff⟩ := h.exists_walkLinks (locate_eq_ok hlocate)
  refine ⟨entry', ?_, mt hiff.mpr hentry⟩
  rw [locate_eq_of_ok hlocate, ← h.current_eq]
  exact hlocate'

/-- **What can be written** is decided by the layout. -/
theorem SameLayout.admits_iff (h : t.SameLayout u) : t.Admits path place ↔ u.Admits path place :=
  ⟨h.admits, h.symm.admits⟩

/-- A path that leads to a file with a given content. -/
def Holds (t : FileTree) (path content : Bytes) : Prop := ∃ place, t.find true path = .ok (place, .file content)

theorem find_eq_file_iff : t.find true path = .ok (place, .file content) ↔
    t.Admits path place ∧ t.get? place = some (.file content) := by
  rw [find_eq_ok_iff]
  constructor
  · intro h
    exact ⟨⟨_, h, by simp⟩, (plain_of_locate h (by simp)).2⟩
  · rintro ⟨⟨entry, hlocate, hentry⟩, hget⟩
    rw [hlocate, ← hget, (plain_of_locate hlocate hentry).2]

/-- **Creating a file** puts it where the path admits one, or is refused. -/
theorem create_cases (t : FileTree) (path content : Bytes) :
    (∃ place, t.Admits path place ∧ t.create path content = .ok (t.put place (.file content))) ∨
    (∀ place, ¬ t.Admits path place) ∧ ∃ refusal, t.create path content = .error ⟨lit "open", path, refusal⟩ := by
  unfold create edit
  cases hlocate : t.locate true path with
  | error refusal =>
    refine .inr ⟨?_, refusal, rfl⟩
    rintro place ⟨entry, hlocate', -⟩
    cases hlocate.symm.trans hlocate'
  | ok found =>
    obtain ⟨place, entry⟩ := found
    by_cases hentry : entry = some .directory
    · refine .inr ⟨?_, .isDirectory, by rw [hentry]; rfl⟩
      rintro place' ⟨entry', hlocate', hentry'⟩
      cases hlocate.symm.trans hlocate'
      exact hentry' hentry
    · refine .inl ⟨place, ⟨entry, hlocate, hentry⟩, ?_⟩
      rcases entry with _ | (_ | content | target | p)
      · rfl
      · exact absurd rfl hentry
      all_goals rfl

end FileTree

end CrateAudit
