import CrateAudit.Proofs.FileTree.Changes
import Mathlib.Data.Option.Basic

/-!
# File trees that match outside a region

Two file trees match outside a region if they hold things of the same kind at every place that is not in
it (`FileTree.Matches`): directories, the same links, files whose contents are related, programs that are
related. Where a path leads is decided by the directories and the links on its way. So a path that keeps clear of
the region leads to the same place in both trees, or is refused in both for the same reason
(`FileTree.Matches.locate`).
-/

namespace CrateAudit

open Bytes

/-! ### Results that compare -/

/-- Results that compare, or the same error. -/
inductive Compares {ε α β : Type} (S : α → β → Prop) : Except ε α → Except ε β → Prop where
  | ok {a : α} {b : β} (h : S a b) : Compares S (.ok a) (.ok b)
  | error (fault : ε) : Compares S (.error fault) (.error fault)

namespace Compares

variable {ε ε' α β γ δ : Type} {S : α → β → Prop} {T : γ → δ → Prop} {x : Except ε α} {y : Except ε β}

/-- Both succeed with results that compare, or both fail with the same error. -/
theorem cases (h : Compares S x y) :
    (∃ a b, x = .ok a ∧ y = .ok b ∧ S a b) ∨ ∃ fault, x = .error fault ∧ y = .error fault := by
  cases h with
  | ok h => exact .inl ⟨_, _, rfl, rfl, h⟩
  | error fault => exact .inr ⟨fault, rfl, rfl⟩

theorem bind {f : α → Except ε γ} {g : β → Except ε δ} (h : Compares S x y)
    (hfg : ∀ a b, S a b → Compares T (f a) (g b)) : Compares T (x >>= f) (y >>= g) := by
  cases h with
  | ok h => exact hfg _ _ h
  | error fault => exact .error fault

theorem imp {S' : α → β → Prop} (h : Compares S x y) (himp : ∀ a b, S a b → S' a b) : Compares S' x y := by
  cases h with
  | ok h => exact .ok (himp _ _ h)
  | error fault => exact .error fault

theorem mapError (h : Compares S x y) (f : ε → ε') : Compares S (x.mapError f) (y.mapError f) := by
  cases h with
  | ok h => exact .ok h
  | error fault => exact .error (f fault)

theorem eq_iff {x y : Except ε α} : Compares Eq x y ↔ x = y := by
  constructor
  · rintro (⟨rfl⟩ | _)
    · rfl
    · rfl
  · rintro rfl
    cases x with
    | ok a => exact .ok rfl
    | error fault => exact .error fault

/-- What is compared are the results. -/
theorem and_eq (h : Compares S x y) : Compares (fun a b => S a b ∧ x = .ok a) x y := by
  cases h with
  | ok h => exact .ok ⟨h, rfl⟩
  | error fault => exact .error fault

end Compares

/-! ### Entries of one kind -/

/-- Entries of one kind: links with the same target, files with related contents, programs that are related. -/
inductive Entry.Kin (F : Bytes → Bytes → Prop) (P : Program → Program → Prop) : Entry → Entry → Prop where
  | directory : Kin F P .directory .directory
  | file {c c' : Bytes} (h : F c c') : Kin F P (.file c) (.file c')
  | link (target : Bytes) : Kin F P (.link target) (.link target)
  | program {p p' : Program} (h : P p p') : Kin F P (.program p) (.program p')

namespace Entry.Kin

variable {F : Bytes → Bytes → Prop} {P : Program → Program → Prop} {entry entry' entry'' : Entry}

theorem refl (hF : ∀ c, F c c) (hP : ∀ p, P p p) (entry : Entry) : entry.Kin F P entry := by
  cases entry with
  | directory => exact .directory
  | file content => exact .file (hF content)
  | link target => exact .link target
  | program p => exact .program (hP p)

theorem imp {F' : Bytes → Bytes → Prop} {P' : Program → Program → Prop} (h : entry.Kin F P entry')
    (hF : ∀ c c', F c c' → F' c c') (hP : ∀ p p', P p p' → P' p p') : entry.Kin F' P' entry' := by
  cases h with
  | directory => exact .directory
  | file h => exact .file (hF _ _ h)
  | link target => exact .link target
  | program h => exact .program (hP _ _ h)

theorem symm (h : entry.Kin F P entry') (hF : ∀ c c', F c c' → F c' c) (hP : ∀ p p', P p p' → P p' p) :
    entry'.Kin F P entry := by
  cases h with
  | directory => exact .directory
  | file h => exact .file (hF _ _ h)
  | link target => exact .link target
  | program h => exact .program (hP _ _ h)

theorem trans (h : entry.Kin F P entry') (h' : entry'.Kin F P entry'')
    (hF : ∀ c c' c'', F c c' → F c' c'' → F c c'') (hP : ∀ p p' p'', P p p' → P p' p'' → P p p'') :
    entry.Kin F P entry'' := by
  cases h with
  | directory => exact h'
  | file h =>
    obtain _ | ⟨h'⟩ := h'
    exact .file (hF _ _ _ h h')
  | link target => exact h'
  | program h =>
    obtain _ | _ | _ | ⟨h'⟩ := h'
    exact .program (hP _ _ _ h h')

theorem isDirectory_eq (h : entry.Kin F P entry') : entry.isDirectory = entry'.isDirectory := by
  cases h <;> rfl

end Entry.Kin

/-! ### What may be missing -/

section Missing

variable {α β γ : Type} {R : α → β → Prop} {x : Option α} {y : Option β}

theorem rel_imp {R' : α → β → Prop} (h : Option.Rel R x y) (himp : ∀ a b, R a b → R' a b) : Option.Rel R' x y := by
  cases h with
  | none => exact .none
  | some h => exact .some (himp _ _ h)

theorem rel_symm {R' : β → α → Prop} (h : Option.Rel R x y) (hsymm : ∀ a b, R a b → R' b a) :
    Option.Rel R' y x := by
  cases h with
  | none => exact .none
  | some h => exact .some (hsymm _ _ h)

theorem rel_trans {S : β → γ → Prop} {T : α → γ → Prop} {z : Option γ} (h : Option.Rel R x y)
    (h' : Option.Rel S y z) (htrans : ∀ a b c, R a b → S b c → T a c) : Option.Rel T x z := by
  cases h with
  | none =>
    cases h' with
    | none => exact .none
  | some h =>
    cases h' with
    | some h' => exact .some (htrans _ _ _ h h')

theorem rel_refl {R : α → α → Prop} (hR : ∀ a, R a a) (x : Option α) : Option.Rel R x x := by
  cases x with
  | none => exact .none
  | some a => exact .some (hR a)

end Missing

namespace FileTree

/-- Entries of one kind have the same content, if files have. -/
theorem content_eq_of_kin {P : Program → Program → Prop} {entry entry' : Entry} (h : entry.Kin Eq P entry')
    (path : Bytes) : content path entry = content path entry' := by
  cases h with
  | directory => rfl
  | file h => rw [h]
  | link target => rfl
  | program h => rfl

/-- Trees that hold things of the same kind outside a region. -/
structure Matches (F : Bytes → Bytes → Prop) (P : Location → Program → Program → Prop) (D : Set Location)
    (t t' : FileTree) : Prop where
  current_eq : t.current = t'.current
  get? : ∀ place ∉ D, Option.Rel (Entry.Kin F (P place)) (t.get? place) (t'.get? place)

namespace Matches

variable {F : Bytes → Bytes → Prop} {P : Location → Program → Program → Prop} {D : Set Location}
  {t t' : FileTree} {follow : Bool} {place : Location} {path : Bytes}

theorem inside (h : t.Matches F P D t') (dir : Location) : (t.inside dir).Matches F P D (t'.inside dir) :=
  ⟨rfl, h.get?⟩

/-! ### Following paths -/

/-- What is found at the end of a path in both trees. -/
def Found (F : Bytes → Bytes → Prop) (P : Location → Program → Program → Prop)
    (x y : Location × Option Entry) : Prop :=
  x.1 = y.1 ∧ Option.Rel (Entry.Kin F (P x.1)) x.2 y.2

/-- Walks that arrive at the same place or link. -/
inductive Walks (F : Bytes → Bytes → Prop) (P : Location → Program → Program → Prop) : Walk → Walk → Prop where
  | arrived (place : Location) {entry entry' : Option Entry} (h : Option.Rel (Entry.Kin F (P place)) entry entry') :
      Walks F P (.arrived place entry) (.arrived place entry')
  | link (directory : Location) (target : Bytes) (rest : List Bytes) :
      Walks F P (.link directory target rest) (.link directory target rest)

theorem walk (h : t.Matches F P D t') (follow : Bool) {past : Location → List Bytes → List (Location × Bool)}
    {ns : List Bytes} (hclear : ∀ step ∈ courseGo t past place ns, step.2 = false → step.1 ∉ D) :
    Compares (Walks F P) (t.walk follow place ns) (t'.walk follow place ns) := by
  induction ns generalizing place with
  | nil => exact .ok (.arrived place (.some .directory))
  | cons name rest ih =>
    by_cases hdot : name = lit "."
    · rw [FileTree.walk, FileTree.walk, if_pos hdot, if_pos hdot]
      rw [courseGo, if_pos hdot] at hclear
      exact ih hclear
    by_cases hup : name = lit ".."
    · rw [FileTree.walk, FileTree.walk, if_neg hdot, if_neg hdot, if_pos hup, if_pos hup]
      rw [courseGo, if_neg hdot, if_pos hup] at hclear
      exact ih hclear
    by_cases hlen : nameLimit < name.length
    · rw [FileTree.walk, FileTree.walk, if_neg hdot, if_neg hdot, if_neg hup, if_neg hup, if_pos hlen, if_pos hlen]
      exact .error _
    have hname : IsName name := ⟨hdot, hup, Nat.not_lt.mp hlen⟩
    rw [walk_of_isName hname, walk_of_isName hname]
    rw [courseGo, if_neg hdot, if_neg hup, List.cons_append, List.forall_mem_cons] at hclear
    obtain ⟨hplace, hbehind⟩ := hclear
    -- what stands at the name decides, and it is of the same kind in both trees
    have hget := h.get? (place ++ [name]) (hplace rfl)
    have hon : ∀ step ∈ courseGo t past (place ++ [name]) rest, step.2 = false → step.1 ∉ D :=
      fun step hstep => hbehind step (List.mem_append_left _ hstep)
    revert hget
    generalize t.get? (place ++ [name]) = entry?, t'.get? (place ++ [name]) = entry?'
    intro hget
    cases hget with
    | none =>
      dsimp only
      split
      · exact .ok (.arrived _ .none)
      · exact .error _
    | some hget =>
      cases hget with
      | directory => exact ih hon
      | file hcontent =>
        dsimp only
        split
        · exact .ok (.arrived _ (.some (.file hcontent)))
        · exact .error _
      | link target =>
        dsimp only
        split
        · exact .ok (.arrived _ (.some (.link target)))
        · exact .ok (.link place target rest)
      | program hprogram =>
        dsimp only
        split
        · exact .ok (.arrived _ (.some (.program hprogram)))
        · exact .error _

theorem walkLinks (h : t.Matches F P D t') (follow : Bool) {links : Nat} {ns : List Bytes}
    (hclear : ∀ step ∈ t.course links place ns, step.2 = false → step.1 ∉ D) :
    Compares (Found F P) (t.walkLinks follow links place ns) (t'.walkLinks follow links place ns) := by
  induction links generalizing place ns with
  | zero =>
    rw [FileTree.walkLinks, FileTree.walkLinks]
    refine (h.walk follow hclear).bind ?_
    rintro _ _ (⟨place, hentry⟩ | _)
    · exact .ok ⟨rfl, hentry⟩
    · exact .error _
  | succ links ih =>
    rw [FileTree.walkLinks, FileTree.walkLinks]
    refine (h.walk follow hclear).and_eq.bind ?_
    rintro _ _ ⟨⟨place, hentry⟩ | ⟨directory, target, rest⟩, hwalk⟩
    · exact .ok ⟨rfl, hentry⟩
    · have hon : (Walk.link directory target rest).On t (t.course links) _ := (walks_of_walk hwalk).on
      exact ih fun step hstep => hclear step (hon step hstep)

/-- **A path that keeps clear of the region** leads to the same place. -/
theorem locate (h : t.Matches F P D t') (follow : Bool) (hclear : t.Clear D t.current path) :
    Compares (Found F P) (t.locate follow path) (t'.locate follow path) := by
  unfold FileTree.locate
  split
  · exact .error _
  split
  · exact .error _
  split
  · exact .error _
  rw [← h.current_eq]
  exact h.walkLinks follow hclear

end Matches

/-! ### Operations in lockstep -/

/-- A relation of trees under which operations go the same way in both of them, if their paths are allowed in
the first one. -/
structure Lockstep (F : Bytes → Bytes → Prop) (P : Location → Program → Program → Prop)
    (Q : FileTree → FileTree → Prop) (allowed : FileTree → Bytes → Prop) : Prop where
  current_eq : ∀ {t t'}, Q t t' → t.current = t'.current
  inside : ∀ {t t'}, Q t t' → ∀ dir, Q (t.inside dir) (t'.inside dir)
  locate : ∀ {t t' path}, Q t t' → allowed t path → ∀ follow,
    Compares (Matches.Found F P) (t.locate follow path) (t'.locate follow path)
  file : ∀ {t t' place c c'}, Q t t' → place ≠ [] → F c c' → Q (t.put place (.file c)) (t'.put place (.file c'))
  directory : ∀ {t t' place}, Q t t' → place ≠ [] → Q (t.put place .directory) (t'.put place .directory)
  without : ∀ {t t'}, Q t t' → ∀ place, Q (t.without place) (t'.without place)
  stays : ∀ {t u path}, t.Keeps Set.univ u → allowed t path → allowed u path
  above : ∀ {t path}, allowed t path → above path ≠ [] → allowed t (above path)
  bare : ∀ {t path}, allowed t path → bare path ≠ [] → allowed t (bare path)

namespace Lockstep

variable {F : Bytes → Bytes → Prop} {P : Location → Program → Program → Prop} {Q : FileTree → FileTree → Prop}
  {allowed : FileTree → Bytes → Prop} {t t' : FileTree} {path : Bytes}

theorem find (L : Lockstep F P Q allowed) (h : Q t t') (hpath : allowed t path) (follow : Bool) :
    Compares (fun x y => x.1 = y.1 ∧ x.2.Kin F (P x.1) y.2) (t.find follow path) (t'.find follow path) := by
  refine (L.locate h hpath follow).bind ?_
  rintro ⟨place, entry⟩ ⟨_, entry'⟩ ⟨rfl, hentry⟩
  cases hentry with
  | none => exact .error _
  | some hentry => exact .ok ⟨rfl, hentry⟩

theorem look (L : Lockstep F P Q allowed) (operation : String) (h : Q t t') (hpath : allowed t path) :
    Compares (fun entry entry' => ∃ place, entry.Kin F (P place) entry')
      (reporting operation path do return (← t.find true path).2)
      (reporting operation path do return (← t'.find true path).2) := by
  refine Compares.mapError ((L.find h hpath true).bind ?_) _
  rintro ⟨place, entry⟩ ⟨_, entry'⟩ ⟨rfl, hentry⟩
  exact .ok ⟨place, hentry⟩

theorem stat (L : Lockstep F P Q allowed) (h : Q t t') (hpath : allowed t path) :
    Compares (fun entry entry' => ∃ place, entry.Kin F (P place) entry') (t.stat path) (t'.stat path) :=
  L.look "stat" h hpath

theorem openRead (L : Lockstep F P Q allowed) (h : Q t t') (hpath : allowed t path) :
    Compares (fun entry entry' => ∃ place, entry.Kin F (P place) entry') (t.openRead path) (t'.openRead path) :=
  L.look "open" h hpath

theorem edit (L : Lockstep F P Q allowed) {change change' : Bytes → Bytes}
    (hold : ∀ c c', F c c' → F (change c) (change' c')) (hnew : F (change []) (change' [])) (h : Q t t')
    (hpath : allowed t path) : Compares Q (t.edit path change) (t'.edit path change') := by
  refine Compares.mapError ((L.locate h hpath true).and_eq.bind ?_) _
  rintro ⟨place, entry⟩ ⟨_, entry'⟩ ⟨⟨rfl, hentry⟩, hlocate⟩
  have hroot : entry ≠ some .directory → place ≠ [] := fun hne => (plain_of_locate hlocate hne).1.ne_root
  cases hentry with
  | none => exact .ok (L.file h (hroot (by simp)) hnew)
  | some hentry =>
    cases hentry with
    | directory => exact .error _
    | file hcontent => exact .ok (L.file h (hroot (by simp)) (hold _ _ hcontent))
    | link target => exact .ok (L.file h (hroot (by simp)) hnew)
    | program _ => exact .ok (L.file h (hroot (by simp)) hnew)

theorem makeDirectory (L : Lockstep F P Q allowed) (h : Q t t') (hpath : allowed t path) :
    Compares Q (t.makeDirectory path) (t'.makeDirectory path) := by
  have hpath' : allowed t (if (FileTree.bare path).isEmpty then path else FileTree.bare path) := by
    split_ifs with hempty
    · exact hpath
    · exact L.bare hpath (by simpa using hempty)
  refine Compares.mapError ((L.locate h hpath' false).and_eq.bind ?_) _
  rintro ⟨place, entry⟩ ⟨_, entry'⟩ ⟨⟨rfl, hentry⟩, hlocate⟩
  have hsome : entry.isSome = entry'.isSome := by cases hentry <;> rfl
  dsimp only
  rw [← hsome]
  split_ifs with hrefused
  · exact .error _
  · refine .ok (L.directory h ?_)
    cases entry with
    | some entry => exact absurd rfl hrefused
    | none =>
      obtain hdirectory | ⟨-, -, hroot⟩ := (arrives_of_locate hlocate).found
      · cases hdirectory
      · exact hroot

/-- What making directories leaves behind in two trees. -/
def Made (Q : FileTree → FileTree → Prop) (x y : FileTree × Option FileFault) : Prop := Q x.1 y.1 ∧ x.2 = y.2

/-- The trees that are left, and the fault that both runs share. -/
theorem Made.exists_eq {x y : FileTree × Option FileFault} (h : Made Q x y) :
    ∃ t t' fault?, x = (t, fault?) ∧ y = (t', fault?) ∧ Q t t' :=
  ⟨x.1, y.1, x.2, rfl, by rw [h.2], h.1⟩

theorem makeLast (L : Lockstep F P Q allowed) {x y : FileTree × Option FileFault} (h : Made Q x y)
    (hpath : allowed x.1 path) : Made Q (FileTree.makeLast path x) (FileTree.makeLast path y) := by
  obtain ⟨t, t', fault?, rfl, rfl, htrees⟩ := h.exists_eq
  cases fault? with
  | some fault => exact ⟨htrees, rfl⟩
  | none =>
    rw [FileTree.makeLast, FileTree.makeLast]
    obtain ⟨u, u', hu, hu', h⟩ | ⟨fault, hu, hu'⟩ := (L.makeDirectory htrees hpath).cases
    · rw [hu, hu']
      exact ⟨h, rfl⟩
    · -- a directory that is there already is no failure, and entries that match are of one kind
      rw [hu, hu']
      dsimp only
      obtain ⟨found, found', hfound, hfound', -, hentry⟩ | ⟨fault', hfound, hfound'⟩ := (L.find htrees hpath false).cases
      · obtain ⟨place, entry⟩ := found
        obtain ⟨place', entry'⟩ := found'
        rw [hfound, hfound']
        cases hentry <;> exact ⟨htrees, rfl⟩
      · rw [hfound, hfound']
        exact ⟨htrees, rfl⟩

theorem makeMissing (L : Lockstep F P Q allowed) (h : Q t t') (hpath : allowed t path)
    {x y : FileTree × Option FileFault} (hxy : Made Q x y) (hx : allowed x.1 path) :
    Made Q (t.makeMissing path x) (t'.makeMissing path y) := by
  unfold FileTree.makeMissing
  obtain ⟨entry, entry', hfound, hfound', place, hentry⟩ | ⟨fault, hfound, hfound'⟩ := (L.stat h hpath).cases
  · rw [hfound, hfound']
    cases hentry <;> exact ⟨h, rfl⟩
  · rw [hfound, hfound']
    exact L.makeLast hxy hx

theorem makeDirectoriesGo (L : Lockstep F P Q allowed) (h : Q t t') (steps : Nat) (hpath : allowed t path) :
    Made Q (FileTree.makeDirectoriesGo steps t path) (FileTree.makeDirectoriesGo steps t' path) := by
  induction steps generalizing path with
  | zero => exact L.makeMissing h hpath ⟨h, rfl⟩ hpath
  | succ steps ih =>
    rw [FileTree.makeDirectoriesGo, FileTree.makeDirectoriesGo]
    split_ifs with habove
    · exact L.makeMissing h hpath ⟨h, rfl⟩ hpath
    · have hgrows : t.Grows Set.univ (FileTree.makeDirectoriesGo steps t (FileTree.above path)).1 :=
        grows_makeDirectoriesGo steps (clear_compl_univ t _ _)
      exact L.makeMissing h hpath (ih (L.above hpath (by simpa using habove))) (L.stays hgrows.keeps hpath)

theorem makeDirectories (L : Lockstep F P Q allowed) (h : Q t t') (hpath : allowed t path) :
    Made Q (t.makeDirectories path) (t'.makeDirectories path) :=
  L.makeDirectoriesGo h path.length hpath

theorem touch (L : Lockstep F P Q allowed) (hF : F [] []) (h : Q t t') (hpath : allowed t path)
    (hparent : allowed t (Path.parent path)) : Q (t.touch path) (t'.touch path) := by
  have hparents := (L.makeDirectories h hparent).1
  have hgrows := t.grows_univ_makeDirectories (Path.parent path)
  have hcreate : Compares Q ((t.makeDirectories (Path.parent path)).1.edit path fun _ => [])
      ((t'.makeDirectories (Path.parent path)).1.edit path fun _ => []) :=
    L.edit (fun _ _ _ => hF) hF hparents (L.stays hgrows.keeps hpath)
  unfold FileTree.touch
  dsimp only
  unfold FileTree.create
  obtain ⟨u, u', hu, hu', h⟩ | ⟨fault, hu, hu'⟩ := hcreate.cases
  · rw [hu, hu']
    exact h
  · rw [hu, hu']
    exact hparents

theorem remove (L : Lockstep F P Q allowed) (h : Q t t') (hpath : allowed t path) :
    Q (t.remove path) (t'.remove path) := by
  unfold FileTree.remove
  obtain ⟨found, found', hfound, hfound', hplace, hentry⟩ | ⟨fault, hfound, hfound'⟩ := (L.locate h hpath false).cases
  · obtain ⟨place, entry⟩ := found
    obtain ⟨place', entry'⟩ := found'
    obtain rfl : place = place' := hplace
    rw [hfound, hfound']
    cases hentry with
    | none => exact h
    | some _ => exact L.without h place
  · rw [hfound, hfound']
    exact h

/-- Trees stay related through operations that keep them so. -/
theorem foldl (f : FileTree → Bytes → FileTree) (hf : ∀ (t : FileTree) (path : Bytes), t.Keeps Set.univ (f t path))
    (ok : FileTree → Bytes → Prop)
    (hok : ∀ {t u : FileTree} {path : Bytes}, t.Keeps Set.univ u → ok t path → ok u path)
    (hQ : ∀ {t t' : FileTree} {path : Bytes}, Q t t' → ok t path → Q (f t path) (f t' path)) (h : Q t t')
    (paths : List Bytes) (hpaths : ∀ path ∈ paths, ok t path) : Q (paths.foldl f t) (paths.foldl f t') := by
  induction paths generalizing t t' with
  | nil => exact h
  | cons path paths ih =>
    refine ih (hQ h (hpaths path List.mem_cons_self)) fun other hother => ?_
    exact hok (hf t path) (hpaths other (List.mem_cons_of_mem _ hother))

/-- **What a program leaves behind** in two trees. -/
theorem changed (L : Lockstep F P Q allowed) (hF : F [] []) (h : Q t t') (dir : Location) (a : Action)
    (hremoved : ∀ path ∈ a.removed, allowed (t.inside dir) path)
    (hdirs : ∀ path ∈ a.dirs, allowed (t.inside dir) path)
    (hfiles : ∀ path ∈ a.files, allowed (t.inside dir) path ∧ allowed (t.inside dir) (Path.parent path)) :
    Q (World.changed t dir a) (World.changed t' dir a) := by
  unfold World.changed
  dsimp only
  rw [L.current_eq h]
  have hkeeps₁ : (t.inside dir).Keeps Set.univ (a.removed.foldl FileTree.remove (t.inside dir)) :=
    keeps_foldl (fun _ _ => True) (fun _ _ => trivial) (fun _ => keeps_univ_remove _ _) _ fun _ _ => trivial
  have hkeeps₂ := hkeeps₁.trans (keeps_foldl (fun _ _ => True) (fun _ _ => trivial)
    (fun {u path} _ => (u.grows_univ_makeDirectories path).keeps) a.dirs fun _ _ => trivial)
  refine L.inside ?_ t'.current
  refine foldl (Q := Q) FileTree.touch keeps_univ_touch (fun t path => allowed t path ∧ allowed t (Path.parent path))
    (fun hkeeps hok => ⟨L.stays hkeeps hok.1, L.stays hkeeps hok.2⟩)
    (fun h hok => L.touch hF h hok.1 hok.2) ?_ a.files
    fun path hpath => ⟨L.stays hkeeps₂ (hfiles path hpath).1, L.stays hkeeps₂ (hfiles path hpath).2⟩
  refine foldl (Q := Q) (fun t dir => (t.makeDirectories dir).1)
    (fun u path => (u.grows_univ_makeDirectories path).keeps) allowed L.stays (fun h hok => (L.makeDirectories h hok).1) ?_ a.dirs
    fun path hpath => L.stays hkeeps₁ (hdirs path hpath)
  exact foldl (Q := Q) FileTree.remove keeps_univ_remove allowed L.stays L.remove (L.inside h dir) a.removed hremoved

end Lockstep

namespace Matches

variable {F : Bytes → Bytes → Prop} {P : Location → Program → Program → Prop} {D : Set Location} {t t' : FileTree}

theorem put (h : t.Matches F P D t') {place : Location} (hplace : place ≠ []) {entry entry' : Entry}
    (hentry : entry.Kin F (P place) entry') : (t.put place entry).Matches F P D (t'.put place entry') := by
  refine ⟨h.current_eq, fun other hother => ?_⟩
  rw [get?_put t hplace, get?_put t' hplace]
  split_ifs with heq
  · exact .some (heq ▸ hentry)
  · exact h.get? other hother

theorem without (h : t.Matches F P D t') (place : Location) : (t.without place).Matches F P D (t'.without place) := by
  refine ⟨h.current_eq, fun other hother => ?_⟩
  rw [get?_without, get?_without]
  split_ifs
  · exact .none
  · exact h.get? other hother

/-- **Operations go the same way** in trees that match outside a region, if the ways of their paths keep clear of
it. -/
theorem lockstep (F : Bytes → Bytes → Prop) (P : Location → Program → Program → Prop) (D : Set Location) :
    Lockstep F P (Matches F P D) (fun t path => t.Clear D t.current path) where
  current_eq h := h.current_eq
  inside h := h.inside
  locate h hclear follow := h.locate follow hclear
  file h hplace hcontent := h.put hplace (.file hcontent)
  directory h hplace := h.put hplace .directory
  without h := h.without
  stays hkeeps hclear := hkeeps.clear hclear
  above hclear := hclear.above
  bare hclear := hclear.bare

end Matches

/-! ### Trees that are similar -/

/-- Trees that hold things of the same kind outside a region, whatever their files and programs hold. -/
def Similar (D : Set Location) (t t' : FileTree) : Prop :=
  t.Matches (fun _ _ => True) (fun _ _ _ => True) D t'

variable {D E : Set Location} {t t' u : FileTree}

theorem Matches.similar {F : Bytes → Bytes → Prop} {P : Location → Program → Program → Prop}
    (h : t.Matches F P D t') (hD : D ⊆ E) : t.Similar E t' := by
  refine ⟨h.current_eq, fun place hplace => ?_⟩
  refine rel_imp (h.get? place fun hmem => hplace (hD hmem)) fun entry entry' hkin => ?_
  exact hkin.imp (fun _ _ _ => trivial) fun _ _ _ => trivial

theorem Keeps.matches {F : Bytes → Bytes → Prop} {P : Location → Program → Program → Prop} (h : t.Keeps D u)
    (hF : ∀ c, F c c) (hP : ∀ place p, P place p p) : t.Matches F P D u := by
  refine ⟨h.current_eq.symm, fun place hplace => ?_⟩
  rw [h.get?_eq place hplace]
  exact rel_refl (Entry.Kin.refl hF (hP place)) (t.get? place)

theorem Matches.trans_keeps {F : Bytes → Bytes → Prop} {P : Location → Program → Program → Prop}
    (h : t.Matches F P D t') (hu : t'.Keeps E u) (hE : E ⊆ D) : t.Matches F P D u := by
  refine ⟨h.current_eq.trans hu.current_eq.symm, fun place hplace => ?_⟩
  rw [hu.get?_eq place fun hmem => hplace (hE hmem)]
  exact h.get? place hplace

theorem Keeps.similar (h : t.Keeps D u) (hD : D ⊆ E) : t.Similar E u :=
  (h.matches (F := fun _ _ => True) (P := fun _ _ _ => True) (fun _ => trivial) fun _ _ => trivial).similar hD

theorem Similar.refl (D : Set Location) (t : FileTree) : t.Similar D t := (Keeps.refl D t).similar subset_rfl

theorem Similar.symm (h : t.Similar D t') : t'.Similar D t := by
  refine ⟨h.current_eq.symm, fun place hplace => ?_⟩
  refine rel_symm (h.get? place hplace) fun entry entry' hkin => ?_
  exact hkin.symm (fun _ _ _ => trivial) fun _ _ _ => trivial

theorem Similar.trans (h : t.Similar D t') (h' : t'.Similar D u) : t.Similar D u := by
  refine ⟨h.current_eq.trans h'.current_eq, fun place hplace => ?_⟩
  refine rel_trans (h.get? place hplace) (h'.get? place hplace) fun entry entry' entry'' hkin hkin' => ?_
  exact hkin.trans hkin' (fun _ _ _ _ _ => trivial) fun _ _ _ _ _ => trivial

end FileTree

end CrateAudit
