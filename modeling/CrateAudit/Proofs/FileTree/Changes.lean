import CrateAudit.Execution
import CrateAudit.Proofs.FileTree.Way

/-!
# What operations change

Making directories puts directories where nothing was before (`FileTree.Grows`). All operations of a program
together make no links and no programs, and if the ways of their paths stay in a region, then everything outside
the region stays as it was (`FileTree.Keeps`).
-/

namespace CrateAudit

open Bytes

namespace FileTree

variable {t u v : FileTree} {D : Set Location} {path : Bytes}

/-! ### What operations find -/

theorem reporting_eq_ok_iff {α : Type} {operation : String} {r : Except Refusal α} {a : α} :
    reporting operation path r = .ok a ↔ r = .ok a := by
  cases r <;> simp [reporting, Except.mapError]

theorem find_eq_ok_iff {follow : Bool} {place : Location} {entry : Entry} :
    t.find follow path = .ok (place, entry) ↔ t.locate follow path = .ok (place, some entry) := by
  unfold find
  cases t.locate follow path with
  | error refusal =>
    show Except.error refusal = _ ↔ Except.error refusal = _
    simp
  | ok found =>
    obtain ⟨place', entry?⟩ := found
    cases entry? with
    | none =>
      show Except.error Refusal.notFound = _ ↔ Except.ok (place', none) = _
      simp
    | some entry' =>
      show Except.ok (place', entry') = _ ↔ Except.ok (place', some entry') = _
      simp

theorem stat_eq_ok_iff {entry : Entry} : t.stat path = .ok entry ↔ ∃ place, t.find true path = .ok (place, entry) := by
  rw [stat, reporting_eq_ok_iff]
  cases t.find true path with
  | error refusal =>
    show Except.error refusal = _ ↔ ∃ place, Except.error refusal = _
    simp
  | ok found =>
    obtain ⟨place', entry'⟩ := found
    show Except.ok entry' = _ ↔ ∃ place, Except.ok (place', entry') = _
    simp

/-- A file that was written is what its path leads to. -/
theorem find_put_of_locate {place : Location} {entry : Option Entry} (h : t.locate true path = .ok (place, entry))
    (hentry : entry ≠ some .directory) (content : Bytes) :
    (t.put place (.file content)).find true path = .ok (place, .file content) := by
  rw [find_eq_ok_iff, locate_put (plain_of_locate h hentry).1 (by simp) h, overlaid_of_ne hentry, if_pos rfl]

/-- An edit writes a file at the place that its path leads to, unless that is a directory. -/
theorem exists_of_edit {change : Bytes → Bytes} (h : t.edit path change = .ok u) :
    ∃ place entry old, t.locate true path = .ok (place, entry) ∧ entry ≠ some .directory ∧
      u = t.put place (.file (change old)) := by
  rw [edit, reporting_eq_ok_iff] at h
  cases hlocate : t.locate true path with
  | error refusal =>
    rw [hlocate] at h
    cases h
  | ok found =>
    obtain ⟨place, entry⟩ := found
    rw [hlocate] at h
    rcases entry with _ | (_ | content | target | p)
    · exact ⟨place, _, _, rfl, by simp, (Except.ok.inj h).symm⟩
    · cases h
    all_goals exact ⟨place, _, _, rfl, by simp, (Except.ok.inj h).symm⟩

theorem exists_edit {place : Location} {entry : Option Entry} (h : t.locate true path = .ok (place, entry))
    (hentry : entry ≠ some .directory) (change : Bytes → Bytes) :
    ∃ content, t.edit path change = .ok (t.put place (.file content)) := by
  rw [edit, h]
  rcases entry with _ | (_ | content | target | p)
  · exact ⟨_, rfl⟩
  · exact absurd rfl hentry
  all_goals exact ⟨_, rfl⟩

theorem exists_of_makeDirectory (h : t.makeDirectory path = .ok u) :
    ∃ place, t.locate false (if (bare path).isEmpty then path else bare path) = .ok (place, none) ∧
      u = t.put place .directory := by
  rw [makeDirectory, reporting_eq_ok_iff] at h
  show ∃ place, t.locate false (if (bare path).isEmpty then path else bare path) = .ok (place, none) ∧ _
  change t.locate false (if (bare path).isEmpty then path else bare path) >>= _ = _ at h
  cases hlocate : t.locate false (if (bare path).isEmpty then path else bare path) with
  | error refusal =>
    rw [hlocate] at h
    cases h
  | ok found =>
    obtain ⟨place, entry⟩ := found
    rw [hlocate] at h
    simp only [bind, Except.bind] at h
    split_ifs at h with hrefused
    cases entry with
    | some entry => exact absurd rfl hrefused
    | none => exact ⟨place, rfl, (Except.ok.inj h).symm⟩

/-! ### Making directories -/

/-- A tree with new directories in a region, where nothing was before. -/
structure Grows (D : Set Location) (t u : FileTree) : Prop where
  current_eq : u.current = t.current
  get? : ∀ place, u.get? place = t.get? place ∨
    place ∈ D ∧ t.get? place = none ∧ u.get? place = some .directory

theorem Grows.refl (D : Set Location) (t : FileTree) : t.Grows D t := ⟨rfl, fun _ => .inl rfl⟩

theorem Grows.trans (h : t.Grows D u) (h' : u.Grows D v) : t.Grows D v := by
  refine ⟨h'.current_eq.trans h.current_eq, fun place => ?_⟩
  obtain heq | ⟨hplace, hnone, hdirectory⟩ := h.get? place
  · rw [← heq]
    exact h'.get? place
  · obtain heq' | ⟨-, hnone', -⟩ := h'.get? place
    · exact .inr ⟨hplace, hnone, heq'.trans hdirectory⟩
    · exact absurd (hdirectory.symm.trans hnone') (by simp)

theorem Grows.descends (h : t.Grows D u) : t.Descends u := by
  have hget : ∀ place entry, u.get? place = some entry → entry ≠ .directory → t.get? place = some entry := by
    intro place entry hentry hne
    obtain heq | ⟨-, -, hdirectory⟩ := h.get? place
    · exact heq ▸ hentry
    · exact absurd (Option.some.inj (hentry.symm.trans hdirectory)) hne
  exact ⟨fun place target h => hget place _ h (by simp), fun place p h => hget place _ h (by simp)⟩

theorem Grows.clear {E : Set Location} (h : t.Grows D u) (hclear : t.Clear E t.current path) :
    u.Clear E u.current path := by
  rw [h.current_eq]
  exact hclear.of_descends h.descends

theorem grows_makeDirectory (h : t.makeDirectory path = .ok u) (hclear : t.Clear Dᶜ t.current path) :
    t.Grows D u := by
  obtain ⟨place, hlocate, rfl⟩ := exists_of_makeDirectory h
  have hclear' : t.Clear Dᶜ t.current (if (bare path).isEmpty then path else bare path) := by
    split_ifs with hempty
    · exact hclear
    · exact hclear.bare (by simpa using hempty)
  obtain hdirectory | ⟨hway, hnone, hroot⟩ := (arrives_of_locate hlocate).found
  · cases hdirectory
  · refine ⟨rfl, fun other => ?_⟩
    rw [get?_put t hroot]
    split_ifs with hother
    · exact .inr ⟨hother ▸ not_not.mp (hclear'.not_mem hway), hother ▸ hnone, rfl⟩
    · exact .inl rfl

theorem grows_makeLast {made : FileTree × Option FileFault} (h : t.Grows D made.1)
    (hclear : t.Clear Dᶜ t.current path) : t.Grows D (makeLast path made).1 := by
  obtain ⟨u, fault?⟩ := made
  cases fault? with
  | some fault => exact h
  | none =>
    rw [makeLast]
    cases hmake : u.makeDirectory path with
    | ok v => exact h.trans (grows_makeDirectory hmake (h.clear hclear))
    | error fault =>
      dsimp only
      split <;> exact h

theorem grows_makeMissing {parents : FileTree × Option FileFault} (h : t.Grows D parents.1)
    (hclear : t.Clear Dᶜ t.current path) : t.Grows D (t.makeMissing path parents).1 := by
  unfold makeMissing
  split
  · exact .refl D t
  · exact .refl D t
  · exact grows_makeLast h hclear

theorem grows_makeDirectoriesGo (steps : Nat) (hclear : t.Clear Dᶜ t.current path) :
    t.Grows D (makeDirectoriesGo steps t path).1 := by
  induction steps generalizing path with
  | zero => exact grows_makeMissing (.refl D t) hclear
  | succ steps ih =>
    refine grows_makeMissing ?_ hclear
    split_ifs with habove
    · exact .refl D t
    · exact ih (hclear.above (by simpa using habove))

/-- **Making directories** puts directories on the way of the path, where nothing was before. -/
theorem grows_makeDirectories (hclear : t.Clear Dᶜ t.current path) : t.Grows D (t.makeDirectories path).1 :=
  grows_makeDirectoriesGo path.length hclear

theorem stat_root (t : FileTree) : t.stat [Path.slash] = .ok .directory := by
  have hnames : names [Path.slash] = [lit "."] := by decide
  rw [stat_eq_ok_iff]
  refine ⟨[], find_eq_ok_iff.mpr ?_⟩
  rw [locate, if_neg (by decide), if_neg (by decide), if_neg (by decide), hnames]
  exact walkLinks_of_arrived rfl

theorem bare_eq_self (h : path.getLast? ≠ some Path.slash) : bare path = path := by
  unfold bare
  rw [List.getLast?_eq_head?_reverse] at h
  cases hreverse : path.reverse with
  | nil =>
    rw [List.reverse_eq_nil_iff.mp hreverse]
    rfl
  | cons b rest =>
    rw [hreverse] at h
    have hb : b ≠ Path.slash := fun heq => h (congrArg some heq)
    rw [List.dropWhile_cons_of_neg (by simpa using hb), ← hreverse, List.reverse_reverse]

theorem stat_makeDirectory (h : t.makeDirectory path = .ok u) (hbare : bare path = path) :
    u.stat path = .ok .directory := by
  obtain ⟨place, hlocate, rfl⟩ := exists_of_makeDirectory h
  rw [hbare, ite_self] at hlocate
  have hfollowing := locate_following hlocate (by simp)
  have hplain := (plain_of_locate hfollowing (by simp)).1
  rw [stat_eq_ok_iff]
  refine ⟨place, find_eq_ok_iff.mpr ?_⟩
  rw [locate_put hplain (by simp) hfollowing, overlaid_of_ne (by simp), if_pos rfl]

theorem stat_makeLast {made : FileTree × Option FileFault} (h : makeLast path made = (u, none))
    (hbare : bare path = path) : u.stat path = .ok .directory := by
  obtain ⟨v, fault?⟩ := made
  cases fault? with
  | some fault => exact absurd (congrArg Prod.snd h) (by simp [makeLast])
  | none =>
    rw [makeLast] at h
    cases hmake : v.makeDirectory path with
    | ok w =>
      rw [hmake] at h
      obtain rfl : w = u := congrArg Prod.fst h
      exact stat_makeDirectory hmake hbare
    | error fault =>
      rw [hmake] at h
      dsimp only at h
      split at h
      · rename_i place hfind
        obtain rfl : v = u := congrArg Prod.fst h
        rw [find_eq_ok_iff] at hfind
        exact stat_eq_ok_iff.mpr ⟨place, find_eq_ok_iff.mpr (locate_following hfind (by simp))⟩
      · exact absurd (congrArg Prod.snd h) (by simp)

theorem stat_makeMissing {parents : FileTree × Option FileFault} (h : t.makeMissing path parents = (u, none))
    (hbare : bare path = path) : u.stat path = .ok .directory := by
  unfold makeMissing at h
  split at h
  · rename_i hstat
    obtain rfl : t = u := congrArg Prod.fst h
    exact hstat
  · exact absurd (congrArg Prod.snd h) (by simp)
  · exact stat_makeLast h hbare

/-- A directory that was made is there. The path must not end with a separator, since the system may refuse to
follow what it could make. -/
theorem stat_makeDirectories (h : t.makeDirectories path = (u, none)) (hpath : path.getLast? ≠ some Path.slash) :
    u.stat path = .ok .directory := by
  have hbare := bare_eq_self hpath
  unfold makeDirectories at h
  cases hlen : path.length with
  | zero =>
    rw [hlen, makeDirectoriesGo] at h
    exact stat_makeMissing h hbare
  | succ steps =>
    rw [hlen, makeDirectoriesGo] at h
    exact stat_makeMissing h hbare

theorem makeDirectories_of_stat (h : t.stat path = .ok .directory) : t.makeDirectories path = (t, none) := by
  have hmissing : ∀ parents, t.makeMissing path parents = (t, none) := by
    intro parents
    rw [makeMissing, h]
  unfold makeDirectories
  cases path.length with
  | zero => exact hmissing _
  | succ steps => exact hmissing _

/-! ### Working in a region -/

/-- A tree that holds what another one holds outside a region, without new links or programs anywhere. -/
structure Keeps (D : Set Location) (t u : FileTree) : Prop where
  current_eq : u.current = t.current
  get?_eq : ∀ place ∉ D, u.get? place = t.get? place
  descends : t.Descends u

theorem Keeps.refl (D : Set Location) (t : FileTree) : t.Keeps D t := ⟨rfl, fun _ _ => rfl, .refl t⟩

theorem Keeps.trans (h : t.Keeps D u) (h' : u.Keeps D v) : t.Keeps D v :=
  ⟨h'.current_eq.trans h.current_eq, fun place hplace => (h'.get?_eq place hplace).trans (h.get?_eq place hplace),
    h.descends.trans h'.descends⟩

theorem Keeps.mono {E : Set Location} (h : t.Keeps D u) (hE : D ⊆ E) : t.Keeps E u :=
  ⟨h.current_eq, fun place hplace => h.get?_eq place fun hmem => hplace (hE hmem), h.descends⟩

theorem Keeps.clear {E : Set Location} (h : t.Keeps D u) (hclear : t.Clear E t.current path) :
    u.Clear E u.current path := by
  rw [h.current_eq]
  exact hclear.of_descends h.descends

theorem Grows.keeps (h : t.Grows D u) : t.Keeps D u := by
  refine ⟨h.current_eq, fun place hplace => ?_, h.descends⟩
  obtain heq | ⟨hmem, -⟩ := h.get? place
  · exact heq
  · exact absurd hmem hplace

theorem descends_put_file {place : Location} (hplace : place ≠ []) (content : Bytes) :
    t.Descends (t.put place (.file content)) := by
  have hget : ∀ other entry, (t.put place (.file content)).get? other = some entry → entry ≠ .file content →
      t.get? other = some entry := by
    intro other entry hentry hne
    rw [get?_put t hplace] at hentry
    split_ifs at hentry
    · exact absurd (Option.some.inj hentry).symm hne
    · exact hentry
  exact ⟨fun other target h => hget other _ h (by simp), fun other p h => hget other _ h (by simp)⟩

theorem keeps_edit {change : Bytes → Bytes} (h : t.edit path change = .ok u)
    (hclear : t.Clear Dᶜ t.current path) : t.Keeps D u := by
  obtain ⟨place, entry, old, hlocate, hentry, rfl⟩ := exists_of_edit h
  obtain hdirectory | ⟨hway, -, hroot⟩ := (arrives_of_locate hlocate).found
  · exact absurd hdirectory hentry
  · refine ⟨rfl, fun other hother => ?_, descends_put_file hroot (change old)⟩
    rw [get?_put t hroot, if_neg]
    rintro rfl
    exact hclear.not_mem hway hother

/-- The tree without what is at a place and below it. -/
def without (t : FileTree) (place : Location) : FileTree :=
  { t with entries := t.entries.filter fun e => !place.isPrefixOf e.1 }

theorem get?_without (t : FileTree) (place other : Location) :
    (t.without place).get? other = if other ≠ [] ∧ place <+: other then none else t.get? other := by
  by_cases hroot : other = []
  · rw [if_neg (by simp [hroot]), hroot]
    rfl
  have hget : ∀ t : FileTree, t.get? other = (t.entries.find? fun e => e.1 = other).map (·.2) :=
    fun t => if_neg (by simpa using hroot)
  rw [hget, hget, without, List.find?_filter]
  split_ifs with hbelow
  · rw [Option.map_eq_none_iff, List.find?_eq_none]
    rintro ⟨L, entry⟩ -
    simp only [Bool.not_eq_true', decide_eq_true_eq, not_and]
    rintro hbegins rfl
    exact absurd (List.isPrefixOf_iff_prefix.mpr hbelow.2) (by simp [hbegins])
  · congr 2
    funext e
    by_cases he : e.1 = other
    · have hnot : place.isPrefixOf e.1 = false := by
        rw [← Bool.not_eq_true, List.isPrefixOf_iff_prefix, he]
        exact fun hbegins => hbelow ⟨hroot, hbegins⟩
      rw [hnot]
      simp [he]
    · simp [he]

theorem keeps_without {place : Location} (h : ∀ L, place <+: L → L ∈ D) : t.Keeps D (t.without place) := by
  have hget : ∀ other entry, (t.without place).get? other = some entry → t.get? other = some entry := by
    intro other entry hentry
    rw [get?_without] at hentry
    split_ifs at hentry
    exact hentry
  refine ⟨rfl, fun other hother => ?_, fun other _ => hget other _, fun other _ => hget other _⟩
  rw [get?_without, if_neg]
  exact fun hbelow => hother (h other hbelow.2)

/-- A path on whose way everything is in a region, with all that is below it. -/
def Deep (D : Set Location) (t : FileTree) (dir : Location) (path : Bytes) : Prop :=
  ∀ step ∈ t.way dir path, ∀ L, step.1 <+: L → L ∈ D

theorem Deep.of_descends {dir : Location} (h : t.Deep D dir path) (hu : t.Descends u) : u.Deep D dir path :=
  fun step hstep => h step (mem_way_of_descends hu hstep)

theorem Deep.clear {dir : Location} (h : t.Deep D dir path) : t.Clear Dᶜ dir path :=
  fun step hstep _ hout => hout (h step hstep step.1 List.prefix_rfl)

theorem keeps_remove (h : t.Deep D t.current path) : t.Keeps D (t.remove path) := by
  unfold remove
  split
  · rename_i place entry hlocate
    exact keeps_without (h _ (arrives_of_locate hlocate).ends)
  · exact .refl D t

theorem keeps_touch (hclear : t.Clear Dᶜ t.current path) (hparent : t.Clear Dᶜ t.current (Path.parent path)) :
    t.Keeps D (t.touch path) := by
  have hgrows := grows_makeDirectories hparent
  unfold touch
  dsimp only
  split
  · rename_i u hcreate
    exact hgrows.keeps.trans (keeps_edit hcreate (hgrows.clear hclear))
  · exact hgrows.keeps

/-- What a number of operations keep if each of them does; `allowed` says which paths they may have. -/
theorem keeps_foldl {f : FileTree → Bytes → FileTree} (allowed : FileTree → Bytes → Prop)
    (hallowed : ∀ {t u path}, t.Keeps D u → allowed t path → allowed u path)
    (hf : ∀ {t path}, allowed t path → t.Keeps D (f t path)) (paths : List Bytes)
    (h : ∀ path ∈ paths, allowed t path) : t.Keeps D (paths.foldl f t) := by
  induction paths generalizing t with
  | nil => exact .refl D t
  | cons path paths ih =>
    have hkeeps := hf (h path List.mem_cons_self)
    exact hkeeps.trans (ih fun other hother => hallowed hkeeps (h other (List.mem_cons_of_mem _ hother)))

theorem clear_compl_univ (t : FileTree) (dir : Location) (path : Bytes) : t.Clear Set.univᶜ dir path :=
  fun _ _ _ hmem => hmem (Set.mem_univ _)

theorem keeps_univ_remove (t : FileTree) (path : Bytes) : t.Keeps Set.univ (t.remove path) :=
  keeps_remove fun _ _ _ _ => Set.mem_univ _

theorem grows_univ_makeDirectories (t : FileTree) (path : Bytes) :
    t.Grows Set.univ (t.makeDirectories path).1 :=
  grows_makeDirectories (clear_compl_univ t _ _)

theorem keeps_univ_touch (t : FileTree) (path : Bytes) : t.Keeps Set.univ (t.touch path) :=
  keeps_touch (clear_compl_univ t _ _) (clear_compl_univ t _ _)

end FileTree

/-! ### What a program changes -/

open FileTree

/-- An action whose paths stay in a region when it is done in a directory. What it removes is in the region with
everything below. -/
structure Action.Within (D : Set Location) (t : FileTree) (dir : Location) (a : Action) : Prop where
  removed : ∀ path ∈ a.removed, t.Deep D dir path
  dirs : ∀ path ∈ a.dirs, t.Clear Dᶜ dir path
  files : ∀ path ∈ a.files, t.Clear Dᶜ dir path ∧ t.Clear Dᶜ dir (Path.parent path)

theorem Action.Within.of_descends {D : Set Location} {t u : FileTree} {dir : Location} {a : Action}
    (h : a.Within D t dir) (hu : t.Descends u) : a.Within D u dir where
  removed path hpath := (h.removed path hpath).of_descends hu
  dirs path hpath := (h.dirs path hpath).of_descends hu
  files path hpath := ⟨(h.files path hpath).1.of_descends hu, (h.files path hpath).2.of_descends hu⟩

/-- **What a program changes** is in the region that its paths stay in. -/
theorem World.keeps_changed {D : Set Location} {t : FileTree} {dir : Location} {a : Action}
    (h : a.Within D t dir) : t.Keeps D (World.changed t dir a) := by
  -- three loops, each of which goes on with the tree that the one before it has left
  have h₁ := h.of_descends (t.descends_inside dir)
  have hremoved := keeps_foldl (fun u path => u.Deep D u.current path)
    (fun hkeeps hdeep => hkeeps.current_eq ▸ hdeep.of_descends hkeeps.descends) keeps_remove a.removed h₁.removed
  have hcurrent₂ : (a.removed.foldl remove (t.inside dir)).current = dir := hremoved.current_eq
  have h₂ := h₁.of_descends hremoved.descends
  have hdirs := keeps_foldl (fun u path => u.Clear Dᶜ u.current path) Keeps.clear
    (fun hclear => (grows_makeDirectories hclear).keeps) a.dirs
    (fun path hpath => by rw [hcurrent₂]; exact h₂.dirs path hpath)
  have hcurrent₃ := hdirs.current_eq.trans hcurrent₂
  have h₃ := h₂.of_descends hdirs.descends
  have hfiles := keeps_foldl
    (fun u path => u.Clear Dᶜ u.current path ∧ u.Clear Dᶜ u.current (Path.parent path))
    (fun hkeeps hclear => ⟨hkeeps.clear hclear.1, hkeeps.clear hclear.2⟩)
    (fun hclear => keeps_touch hclear.1 hclear.2) a.files
    (fun path hpath => by rw [hcurrent₃]; exact h₃.files path hpath)
  have hall := (hremoved.trans hdirs).trans hfiles
  exact ⟨rfl, hall.get?_eq, (t.descends_inside dir).trans (hall.descends.trans (descends_inside _ _))⟩

end CrateAudit
