import CrateAudit.Log.Target
import CrateAudit.Proofs.FileTree.Matches
import CrateAudit.Proofs.Path
import Mathlib.Data.Set.Lattice
import Mathlib.Order.CompletePartialOrder

/-!
# What log lines change

A log line makes the directories that lead to the log file, where nothing was before, and writes the file
(`Log.appendLine_cases`). So after any number of lines the only file that has changed is the one that the path of the
log leads to (`Log.Kept`). As long as the directory of the log file stays, nothing else changes at all
(`Log.Target.Wears.keeps_of_ready`).
-/

namespace CrateAudit

open Bytes FileTree

variable {t u : FileTree} {D : Set Location} {path : Bytes}

namespace Log

/-- **A log line** makes the directories of the log file if the file is not there, and writes the file if it can be
written. -/
theorem appendLine_cases (path : Bytes) (hparent : t.Clear Dᶜ t.current (Path.parent path)) (line : Bytes) :
    ∃ u, t.Grows D u ∧ (u = t ∨ ∀ found, t.find true path ≠ .ok found) ∧
      ((appendLine path line t).1 = u ∨ ∃ place entry content, u.locate true path = .ok (place, entry) ∧
        entry ≠ some .directory ∧ (appendLine path line t).1 = u.put place (.file content)) := by
  unfold appendLine
  cases hstat : t.stat path with
  | ok entry =>
    refine ⟨t, .refl D t, .inl rfl, ?_⟩
    dsimp only
    cases hedit : t.edit path (· ++ line) with
    | error fault => exact .inl rfl
    | ok v =>
      obtain ⟨place, entry, old, hlocate, hentry, rfl⟩ := exists_of_edit hedit
      exact .inr ⟨place, entry, old ++ line, hlocate, hentry, rfl⟩
  | error fault =>
    -- there is no file yet, so its directories are made first
    have hnone : ∀ found, t.find true path ≠ .ok found := by
      rintro ⟨place, entry⟩ hfind
      exact absurd (stat_eq_ok_iff.mpr ⟨place, hfind⟩) (by simp [hstat])
    dsimp only
    split_ifs
    · refine ⟨(t.makeDirectories (Path.parent path)).1, grows_makeDirectories hparent, .inr hnone, ?_⟩
      unfold startFile
      cases t.makeDirectories (Path.parent path) with
      | mk u fault? =>
        cases fault? with
        | some fault => exact .inl rfl
        | none =>
          dsimp only
          cases hcreate : u.create path line with
          | error fault => exact .inl rfl
          | ok v =>
            obtain ⟨place, entry, -, hlocate, hentry, rfl⟩ := exists_of_edit hcreate
            exact .inr ⟨place, entry, line, hlocate, hentry, rfl⟩
    · exact ⟨t, .refl D t, .inl rfl, .inl rfl⟩

theorem keeps_appendLine (hpath : t.Clear Dᶜ t.current path) (hparent : t.Clear Dᶜ t.current (Path.parent path))
    (line : Bytes) : t.Keeps D (appendLine path line t).1 := by
  obtain ⟨u, hgrows, -, hsame | ⟨place, entry, content, hlocate, hentry, hput⟩⟩ := appendLine_cases path hparent line
  · rw [hsame]
    exact hgrows.keeps
  · rw [hput]
    have hclear := hgrows.clear hpath
    obtain hdirectory | ⟨hway, -, hroot⟩ := (arrives_of_locate hlocate).found
    · exact absurd hdirectory hentry
    · refine hgrows.keeps.trans ⟨rfl, fun other hother => ?_, descends_put_file hroot content⟩
      rw [get?_put u hroot, if_neg]
      rintro rfl
      exact hclear.not_mem hway hother

/-- A tree that differs from another one in new directories, and in the file that a path leads to. -/
def Kept (path : Bytes) (t u : FileTree) : Prop :=
  ∀ place, u.get? place = t.get? place ∨ t.get? place = none ∧ u.get? place = some .directory ∨
    ∃ content, u.find true path = .ok (place, .file content)

theorem kept_appendLine {v : FileTree} (h : Kept path t v) (line : Bytes) : Kept path t (appendLine path line v).1 := by
  obtain ⟨u, hgrows, hsame, happend⟩ := appendLine_cases path (clear_compl_univ v _ _) line
  have hu : Kept path t u := by
    obtain rfl | hnone := hsame
    · exact h
    · -- no file was written yet, so there are new directories only
      intro place
      obtain heq | ⟨htnone, hdirectory⟩ | ⟨content, hfind⟩ := h place
      · rw [← heq]
        exact (hgrows.get? place).imp_right fun h => .inl h.2
      · obtain heq' | ⟨-, hvnone, -⟩ := hgrows.get? place
        · exact .inr (.inl ⟨htnone, heq'.trans hdirectory⟩)
        · exact absurd (hdirectory.symm.trans hvnone) (by simp)
      · exact absurd hfind (hnone _)
  obtain heq | ⟨N, entry, content, hlocate, hentry, heq⟩ := happend
  · rw [heq]
    exact hu
  · rw [heq]
    intro place
    by_cases hplace : place = N
    · exact .inr (.inr ⟨content, hplace ▸ find_put_of_locate hlocate hentry content⟩)
    · rw [get?_put u (plain_of_locate hlocate hentry).1.ne_root, if_neg hplace]
      obtain heq | hnew | ⟨content', hfind⟩ := hu place
      · exact .inl heq
      · exact .inr (.inl hnew)
      · rw [find_eq_ok_iff, hlocate] at hfind
        exact absurd (congrArg Prod.fst (Except.ok.inj hfind)).symm hplace

/-! ### Lines in two trees -/

/-- A line that is logged in two trees. -/
theorem appendLine_lockstep {F : Bytes → Bytes → Prop} {P : Location → Program → Program → Prop}
    {Q : FileTree → FileTree → Prop} {allowed : FileTree → Bytes → Prop} (L : Lockstep F P Q allowed)
    {line line' : Bytes} (hold : ∀ c c', F c c' → F (c ++ line) (c' ++ line')) (hnew : F line line')
    {t' : FileTree} (h : Q t t') (hpath : allowed t path) (hparent : allowed t (Path.parent path)) :
    Q (appendLine path line t).1 (appendLine path line' t').1 := by
  unfold appendLine
  obtain ⟨entry, entry', hfound, hfound', -⟩ | ⟨fault, hfound, hfound'⟩ := (L.stat h hpath).cases
  · rw [hfound, hfound']
    dsimp only
    -- the file is there in both trees, and the line is added to it
    have hedit : Compares Q (t.edit path (· ++ line)) (t'.edit path (· ++ line')) := L.edit hold hnew h hpath
    obtain ⟨u, u', hu, hu', hmade⟩ | ⟨fault, hu, hu'⟩ := hedit.cases
    · rw [hu, hu']
      exact hmade
    · rw [hu, hu']
      exact h
  · rw [hfound, hfound']
    dsimp only
    split_ifs
    · unfold startFile
      have hgrows := t.grows_univ_makeDirectories (Path.parent path)
      obtain ⟨u, u', fault?, hmade, hmade', hu⟩ := (L.makeDirectories h hparent).exists_eq
      rw [hmade] at hgrows
      rw [hmade, hmade']
      cases fault? with
      | some fault => exact hu
      | none =>
        dsimp only
        have hcreate : Compares Q (u.create path line) (u'.create path line') :=
          L.edit (fun _ _ _ => hnew) hnew hu (L.stays hgrows.keeps hpath)
        obtain ⟨v, v', hv, hv', hfile⟩ | ⟨fault, hv, hv'⟩ := hcreate.cases
        · rw [hv, hv']
          exact hfile
        · rw [hv, hv']
          exact hu
    · exact h

/-! ### Lines behind the first one -/

namespace Target

/-- The tree after a line was logged. -/
def append (target : Target) (line : Bytes) (t : FileTree) : FileTree :=
  match target with
  | .file path => (appendLine path line t).1
  | _ => t

/-- The directory of the log file is there. -/
def Ready (target : Target) (t : FileTree) : Prop :=
  match target with
  | .file path => t.stat (Path.parent path) = .ok .directory
  | _ => True

/-- The paths that a target is written through keep clear of a region. -/
def Clear (D : Set Location) (target : Target) (t : FileTree) : Prop :=
  match target with
  | .file path => t.Clear D t.current path ∧ t.Clear D t.current (Path.parent path)
  | _ => True

variable {target : Target} {E : Set Location}

theorem ready_of_prepare (h : target.prepare t = (u, none)) : target.Ready u := by
  cases target with
  | file path =>
    obtain hroot | hlast := Path.getLast?_parent path
    · rw [Ready, hroot]
      exact u.stat_root
    · exact stat_makeDirectories h hlast
  | stderr => trivial
  | stdout => trivial
  | discard => trivial

theorem clear_empty (target : Target) (t : FileTree) : target.Clear ∅ t := by
  cases target with
  | file path => exact ⟨FileTree.clear_empty t _ _, FileTree.clear_empty t _ _⟩
  | stderr => trivial
  | stdout => trivial
  | discard => trivial

theorem Clear.of_keeps (h : target.Clear E t) (hu : t.Keeps D u) : target.Clear E u := by
  cases target with
  | file path => exact ⟨hu.clear h.1, hu.clear h.2⟩
  | stderr => trivial
  | stdout => trivial
  | discard => trivial

theorem keeps_append (h : target.Clear Dᶜ t) (line : Bytes) : t.Keeps D (target.append line t) := by
  cases target with
  | file path => exact keeps_appendLine h.1 h.2 line
  | stderr => exact .refl D t
  | stdout => exact .refl D t
  | discard => exact .refl D t

theorem keeps_univ_append (target : Target) (line : Bytes) (t : FileTree) :
    t.Keeps Set.univ (target.append line t) := by
  refine keeps_append ?_ line
  cases target with
  | file path => exact ⟨clear_compl_univ t _ _, clear_compl_univ t _ _⟩
  | stderr => trivial
  | stdout => trivial
  | discard => trivial

theorem matches_prepare {F : Bytes → Bytes → Prop} {P : Location → Program → Program → Prop} {t' : FileTree}
    (h : t.Matches F P E t') (hclear : target.Clear E t) :
    Lockstep.Made (Matches F P E) (target.prepare t) (target.prepare t') := by
  cases target with
  | file path => exact (Matches.lockstep F P E).makeDirectories h hclear.2
  | stderr => exact ⟨h, rfl⟩
  | stdout => exact ⟨h, rfl⟩
  | discard => exact ⟨h, rfl⟩

theorem matches_append {F : Bytes → Bytes → Prop} {P : Location → Program → Program → Prop} {t' : FileTree}
    {line line' : Bytes} (hold : ∀ c c', F c c' → F (c ++ line) (c' ++ line')) (hnew : F line line')
    (h : t.Matches F P E t') (hclear : target.Clear E t) :
    (target.append line t).Matches F P E (target.append line' t') := by
  cases target with
  | file path => exact appendLine_lockstep (Matches.lockstep F P E) hold hnew h hclear.1 hclear.2
  | stderr => exact h
  | stdout => exact h
  | discard => exact h

theorem similar_append {t' : FileTree} (h : t.Similar E t') (hclear : target.Clear E t) (line line' : Bytes) :
    (target.append line t).Similar E (target.append line' t') :=
  matches_append (fun _ _ _ => trivial) trivial h hclear

theorem Ready.of_similar {t' : FileTree} (hready : target.Ready t) (h : t.Similar E t') (hclear : target.Clear E t) :
    target.Ready t' := by
  cases target with
  | file path =>
    have hstat := (Matches.lockstep _ _ E).stat h hclear.2
    rw [show t.stat (Path.parent path) = .ok .directory from hready] at hstat
    show t'.stat (Path.parent path) = .ok .directory
    revert hstat
    generalize t'.stat (Path.parent path) = found'
    rintro ⟨_, ⟨⟩⟩
    rfl
  | stderr => trivial
  | stdout => trivial
  | discard => trivial

theorem append_of_no_place (hready : (Target.file path).Ready t)
    (hnone : ∀ place entry, t.locate true path = .ok (place, entry) → entry = some .directory) (line : Bytes) :
    (Target.file path).append line t = t := by
  have hedit : ∀ change u, t.edit path change ≠ .ok u := by
    intro change u hedit
    obtain ⟨place, entry, -, hlocate, hentry, -⟩ := exists_of_edit hedit
    exact hentry (hnone place entry hlocate)
  show (appendLine path line t).1 = t
  unfold appendLine
  split
  · split_ifs
    · rw [startFile, makeDirectories_of_stat hready]
      dsimp only
      split
      · rename_i u hcreate
        exact absurd hcreate (hedit _ u)
      · rfl
    · rfl
  · split
    · rename_i u hu
      exact absurd hu (hedit _ u)
    · rfl

theorem exists_append_of_place (hready : (Target.file path).Ready t) {place : Location} {entry : Option Entry}
    (hlocate : t.locate true path = .ok (place, entry)) (hentry : entry ≠ some .directory) (line : Bytes) :
    ∃ content, (Target.file path).append line t = t.put place (.file content) := by
  cases entry with
  | some entry =>
    have hstat : t.stat path = .ok entry := stat_eq_ok_iff.mpr ⟨place, find_eq_ok_iff.mpr hlocate⟩
    obtain ⟨content, hedit⟩ := exists_edit hlocate hentry (· ++ line)
    refine ⟨content, ?_⟩
    show (appendLine path line t).1 = _
    rw [appendLine, hstat]
    dsimp only
    rw [hedit]
  | none =>
    -- the directories of the file are there, so making them changes nothing
    have hstat : t.stat path = .error ⟨lit "stat", path, .notFound⟩ := by
      rw [stat, find, hlocate]
      rfl
    obtain ⟨content, hcreate⟩ := exists_edit hlocate hentry fun _ => line
    refine ⟨content, ?_⟩
    show (appendLine path line t).1 = _
    rw [appendLine, hstat]
    dsimp only
    rw [if_pos rfl, startFile, makeDirectories_of_stat hready]
    dsimp only
    rw [create, hcreate]

/-- A line is written where the path of the log leads, if it leads to a place for a file. -/
theorem append_cases (hready : (Target.file path).Ready t) (line : Bytes) :
    (Target.file path).append line t = t ∨ ∃ place entry content, t.locate true path = .ok (place, entry) ∧
      entry ≠ some .directory ∧ (Target.file path).append line t = t.put place (.file content) := by
  by_cases hplace : ∀ place entry, t.locate true path = .ok (place, entry) → entry = some .directory
  · exact .inl (append_of_no_place hready hplace line)
  · push Not at hplace
    obtain ⟨place, entry, hlocate, hentry⟩ := hplace
    obtain ⟨content, happend⟩ := exists_append_of_place hready hlocate hentry line
    exact .inr ⟨place, entry, content, hlocate, hentry, happend⟩

theorem ready_append (hready : target.Ready t) (line : Bytes) : target.Ready (target.append line t) := by
  cases target with
  | file path =>
    obtain happend | ⟨place, entry, content, hlocate, hentry, happend⟩ := append_cases hready line
    · rwa [happend]
    · obtain ⟨L, hfind⟩ := stat_eq_ok_iff.mp hready
      rw [happend]
      refine stat_eq_ok_iff.mpr ⟨L, find_eq_ok_iff.mpr ?_⟩
      exact locate_put (plain_of_locate hlocate hentry).1 (by simp) (find_eq_ok_iff.mp hfind)
  | stderr => trivial
  | stdout => trivial
  | discard => trivial

/-- The places at which the log file may be. -/
def places (target : Target) (t : FileTree) : Set Location :=
  match target with
  | .file path => {place | (place, false) ∈ t.way t.current path ∧ (place, true) ∈ t.way t.current path}
  | _ => ∅

instance (target : Target) (t : FileTree) : DecidablePred (· ∈ target.places t) := fun place =>
  match target with
  | .file path => inferInstanceAs
      (Decidable ((place, false) ∈ t.way t.current path ∧ (place, true) ∈ t.way t.current path))
  | .stderr | .stdout | .discard => .isFalse id

theorem places_subset (target : Target) (h : t.Keeps D u) : target.places u ⊆ target.places t := by
  cases target with
  | file path =>
    rintro place ⟨hpassed, hends⟩
    rw [h.current_eq] at hpassed hends
    exact ⟨mem_way_of_descends h.descends hpassed, mem_way_of_descends h.descends hends⟩
  | stderr => exact subset_rfl
  | stdout => exact subset_rfl
  | discard => exact subset_rfl

theorem Clear.disjoint_places (h : target.Clear D t) : Disjoint D (target.places t) := by
  rw [Set.disjoint_right]
  cases target with
  | file path => exact fun place hplace => h.1.not_mem hplace.1
  | stderr => exact fun place hplace => absurd hplace (Set.notMem_empty place)
  | stdout => exact fun place hplace => absurd hplace (Set.notMem_empty place)
  | discard => exact fun place hplace => absurd hplace (Set.notMem_empty place)

/-- A line changes the log file only. -/
theorem keeps_append_of_ready (hready : target.Ready t) (line : Bytes) :
    t.Keeps (target.places t) (target.append line t) := by
  cases target with
  | file path =>
    obtain happend | ⟨place, entry, content, hlocate, hentry, happend⟩ := append_cases hready line
    · rw [happend]
      exact .refl _ t
    · have harrives := arrives_of_locate hlocate
      obtain hdirectory | ⟨hpassed, -, hroot⟩ := harrives.found
      · exact absurd hdirectory hentry
      · rw [happend]
        refine ⟨rfl, fun other hother => ?_, descends_put_file hroot content⟩
        rw [get?_put t hroot, if_neg]
        rintro rfl
        exact hother ⟨hpassed, harrives.ends⟩
  | stderr => exact .refl _ t
  | stdout => exact .refl _ t
  | discard => exact .refl _ t

/-- **Another line** changes nothing but the content of the log file. -/
theorem similar_append_append (hready : target.Ready t) (line line' : Bytes) :
    (target.append line t).Similar ∅ (target.append line' (target.append line t)) := by
  cases target with
  | file path =>
    by_cases hplace : ∀ place entry, t.locate true path = .ok (place, entry) → entry = some .directory
    · rw [append_of_no_place hready hplace, append_of_no_place hready hplace]
      exact .refl ∅ t
    · push Not at hplace
      obtain ⟨place, entry, hlocate, hentry⟩ := hplace
      obtain ⟨content, happend⟩ := exists_append_of_place hready hlocate hentry line
      have hready' := ready_append hready line
      rw [happend] at hready' ⊢
      -- the file is found at the place where it was written
      have hlocate' := find_eq_ok_iff.mp (find_put_of_locate hlocate hentry content)
      obtain ⟨content', happend'⟩ := exists_append_of_place hready' hlocate' (by simp) line'
      rw [happend']
      have hroot := (plain_of_locate hlocate hentry).1.ne_root
      refine ⟨rfl, fun other _ => ?_⟩
      simp only [get?_put _ hroot]
      split_ifs
      · exact .some (.file trivial)
      · exact (FileTree.Similar.refl ∅ t).get? other (Set.notMem_empty _)
  | stderr => exact .refl ∅ t
  | stdout => exact .refl ∅ t
  | discard => exact .refl ∅ t

/-! ### Lines between other work -/

/-- What becomes of a tree in which lines are logged and work is done in a region. -/
inductive Wears (target : Target) (D : Set Location) (t : FileTree) : FileTree → Prop where
  | refl : Wears target D t t
  | line {u : FileTree} (h : Wears target D t u) (line : Bytes) : Wears target D t (target.append line u)
  | work {u v : FileTree} (h : Wears target D t u) (hv : u.Keeps D v) : Wears target D t v

theorem Wears.trans {v : FileTree} (h : target.Wears D t u) (h' : target.Wears D u v) : target.Wears D t v := by
  induction h' with
  | refl => exact h
  | line _ line ih => exact ih.line line
  | work _ hv ih => exact ih.work hv

theorem Wears.keeps (h : target.Wears D t u) : t.Keeps Set.univ u := by
  induction h with
  | refl => exact .refl _ t
  | line _ line ih => exact ih.trans (target.keeps_univ_append line _)
  | work _ hv ih => exact ih.trans (hv.mono (Set.subset_univ _))

/-- As long as the directory of the log file stays, nothing changes but the region and the log file. -/
theorem Wears.keeps_of_ready (h : target.Wears D t u) (hready : target.Ready t) (hclear : target.Clear D t) :
    t.Keeps (D ∪ target.places t) u ∧ target.Ready u := by
  induction h with
  | refl => exact ⟨.refl _ t, hready⟩
  | line _ line ih =>
    obtain ⟨hkeeps, hready'⟩ := ih
    have hline := (keeps_append_of_ready hready' line).mono (target.places_subset hkeeps)
    exact ⟨hkeeps.trans (hline.mono Set.subset_union_right), ready_append hready' line⟩
  | work _ hv ih =>
    obtain ⟨hkeeps, hready'⟩ := ih
    exact ⟨hkeeps.trans (hv.mono Set.subset_union_left),
      hready'.of_similar (hv.similar subset_rfl) (hclear.of_keeps hkeeps)⟩

/-- Behind another line, it does not matter whether there was one before. -/
theorem similar_append_of_or (hready : target.Ready t) (hclear : target.Clear E t)
    (h : t.Similar E u ∨ (target.append [] t).Similar E u) (line : Bytes) :
    (target.append [] t).Similar E (target.append line u) := by
  obtain h | h := h
  · exact similar_append h hclear [] line
  · have hagain := (similar_append_append hready [] []).similar (Set.empty_subset E)
    exact hagain.trans (similar_append h (hclear.of_keeps (target.keeps_univ_append [] t)) [] line)

/-- Outside the region, a tree in which lines are logged and work is done is like the tree before, or like the tree
with its first line. -/
theorem Wears.similar (h : target.Wears D t u) (hD : D ⊆ E) (hready : target.Ready t) (hclear : target.Clear E t) :
    t.Similar E u ∨ (target.append [] t).Similar E u := by
  induction h with
  | refl => exact .inl (.refl E t)
  | line _ line ih => exact .inr (similar_append_of_or hready hclear ih line)
  | work _ hv ih => exact ih.imp (·.trans (hv.similar hD)) (·.trans (hv.similar hD))

/-- **Behind a line that is logged for sure**, it does not matter what was logged before. -/
theorem Wears.similar_append (h : target.Wears D t u) (hD : D ⊆ E) (hready : target.Ready t)
    (hclear : target.Clear E t) (line : Bytes) : (target.append [] t).Similar E (target.append line u) :=
  similar_append_of_or hready hclear (h.similar hD hready hclear) line

end Target

end Log

end CrateAudit
