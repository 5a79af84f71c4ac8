import CrateAudit.FileTree
import CrateAudit.Proofs.Path
import Mathlib.Data.Set.Basic
import Mathlib.Tactic.SplitIfs

/-!
# The ways of paths

Which places of a file tree a path can come to is decided by the symbolic links alone. The way of a path
(`FileTree.way`) holds all these places: whatever is missing may be made in the meantime, and a link may be
followed or may be gone. So the way of a path can only become shorter as long as no links are made
(`mem_way_of_descends`), and no operation makes any.

A path that keeps clear of a region (`FileTree.Clear`) leads to the same place in all trees that hold the
same directories and links outside the region (`FileTree.Matches.locate`).
-/

namespace CrateAudit

open Bytes

namespace FileTree

variable {t t' u : FileTree} {D : Set Location} {follow : Bool} {place dir : Location} {path : Bytes}

/-! ### What stands at a place -/

theorem get?_put (t : FileTree) (hplace : place ≠ []) (entry : Entry) (other : Location) :
    (t.put place entry).get? other = if other = place then some entry else t.get? other := by
  by_cases hroot : other = []
  · rw [if_neg (hroot ▸ hplace.symm), hroot]
    rfl
  have hget : ∀ t : FileTree, t.get? other = (t.entries.find? fun e => e.1 = other).map (·.2) :=
    fun t => if_neg (by simpa using hroot)
  rw [hget, hget]
  by_cases heq : other = place
  · rw [if_pos heq, put, List.find?_cons_of_pos (by simpa using heq.symm)]
    rfl
  · rw [if_neg heq, put, List.find?_cons_of_neg (by simpa using Ne.symm heq), List.find?_filter]
    congr 2
    funext e
    by_cases he : e.1 = other
    · simp [he, heq]
    · simp [he]

theorem mem_entries_of_get? {entry : Entry} (h : t.get? place = some entry) (hplace : place ≠ []) :
    (place, entry) ∈ t.entries := by
  unfold get? at h
  rw [if_neg (by simpa using hplace)] at h
  obtain ⟨⟨place', _⟩, hfind, rfl⟩ := Option.map_eq_some_iff.mp h
  obtain rfl : place' = place := by simpa using List.find?_some hfind
  exact List.mem_of_find?_eq_some hfind

/-! ### Ways -/

/-- The places that names may lead to from a directory, each with whether the way ends there; `past` says how
it goes on behind a link. -/
def courseGo (t : FileTree) (past : Location → List Bytes → List (Location × Bool)) :
    Location → List Bytes → List (Location × Bool)
  | place, [] => [(place, true)]
  | place, name :: rest =>
    if name = lit "." then courseGo t past place rest
    else if name = lit ".." then courseGo t past place.dropLast rest
    else
      (place ++ [name], false) :: courseGo t past (place ++ [name]) rest ++
        match t.get? (place ++ [name]) with
        | some (.link target) => past (start place target) (names target ++ rest)
        | _ => []

/-- The places that names may lead to from a directory through a number of links. -/
def course (t : FileTree) : Nat → Location → List Bytes → List (Location × Bool)
  | 0 => courseGo t fun _ _ => []
  | links + 1 => courseGo t (course t links)

/-- The way of a path from a directory: all places that it may come to, each with whether it ends there. -/
def way (t : FileTree) (dir : Location) (path : Bytes) : List (Location × Bool) :=
  t.course linkLimit (start dir path) (names path)

/-- A path that comes to no place of a region. -/
def Clear (D : Set Location) (t : FileTree) (dir : Location) (path : Bytes) : Prop :=
  ∀ step ∈ t.way dir path, step.2 = false → step.1 ∉ D

instance [DecidablePred (· ∈ D)] : Decidable (t.Clear D dir path) :=
  inferInstanceAs (Decidable (∀ step ∈ t.way dir path, step.2 = false → step.1 ∉ D))

theorem Clear.not_mem {L : Location} (h : t.Clear D dir path) (hL : (L, false) ∈ t.way dir path) : L ∉ D :=
  h _ hL rfl

theorem clear_empty (t : FileTree) (dir : Location) (path : Bytes) : t.Clear ∅ dir path := fun _ _ _ => id

theorem mem_courseGo_cons {past : Location → List Bytes → List (Location × Bool)} {name : Bytes}
    {rest : List Bytes} {step : Location × Bool} :
    step ∈ courseGo t past place (name :: rest) ↔
      if name = lit "." then step ∈ courseGo t past place rest
      else if name = lit ".." then step ∈ courseGo t past place.dropLast rest
      else step = (place ++ [name], false) ∨ step ∈ courseGo t past (place ++ [name]) rest ∨
        ∃ target, t.get? (place ++ [name]) = some (.link target) ∧
          step ∈ past (start place target) (names target ++ rest) := by
  rw [courseGo]
  split_ifs
  · rfl
  · rfl
  · rw [List.cons_append, List.mem_cons, List.mem_append]
    refine or_congr_right (or_congr_right ?_)
    cases t.get? (place ++ [name]) with
    | none => simp
    | some entry => cases entry <;> simp

/-! ### Trees without new links -/

/-- A tree with no links and no programs but those of another one. -/
structure Descends (t u : FileTree) : Prop where
  link : ∀ place target, u.get? place = some (.link target) → t.get? place = some (.link target)
  program : ∀ place p, u.get? place = some (.program p) → t.get? place = some (.program p)

theorem Descends.refl (t : FileTree) : t.Descends t := ⟨fun _ _ => id, fun _ _ => id⟩

theorem Descends.trans {v : FileTree} (h : t.Descends u) (h' : u.Descends v) : t.Descends v :=
  ⟨fun place target hv => h.link place target (h'.link place target hv),
    fun place p hv => h.program place p (h'.program place p hv)⟩

theorem descends_inside (t : FileTree) (dir : Location) : t.Descends (t.inside dir) :=
  ⟨fun _ _ => id, fun _ _ => id⟩

theorem mem_courseGo_of_descends (h : t.Descends u) {past past' : Location → List Bytes → List (Location × Bool)}
    {step : Location × Bool} (hpast : ∀ place ns, step ∈ past' place ns → step ∈ past place ns) (place : Location)
    (ns : List Bytes) (hstep : step ∈ courseGo u past' place ns) : step ∈ courseGo t past place ns := by
  induction ns generalizing place with
  | nil => exact hstep
  | cons name rest ih =>
    rw [mem_courseGo_cons] at hstep ⊢
    split_ifs at hstep ⊢
    · exact ih place hstep
    · exact ih place.dropLast hstep
    · obtain rfl | hstep | ⟨target, hget, hstep⟩ := hstep
      · exact .inl rfl
      · exact .inr (.inl (ih _ hstep))
      · exact .inr (.inr ⟨target, h.link _ _ hget, hpast _ _ hstep⟩)

/-- No way becomes longer as long as no links are made. -/
theorem mem_course_of_descends (h : t.Descends u) {step : Location × Bool} (links : Nat) (place : Location)
    (ns : List Bytes) (hstep : step ∈ u.course links place ns) : step ∈ t.course links place ns := by
  induction links generalizing place ns with
  | zero => exact mem_courseGo_of_descends h (fun _ _ => id) place ns hstep
  | succ links ih => exact mem_courseGo_of_descends h ih place ns hstep

theorem mem_way_of_descends (h : t.Descends u) {step : Location × Bool} (hstep : step ∈ u.way dir path) :
    step ∈ t.way dir path :=
  mem_course_of_descends h linkLimit _ _ hstep

theorem Clear.of_descends (hclear : t.Clear D dir path) (h : t.Descends u) : u.Clear D dir path :=
  fun step hstep => hclear step (mem_way_of_descends h hstep)

theorem Clear.mono {E : Set Location} (hclear : t.Clear D dir path) (h : E ⊆ D) : t.Clear E dir path :=
  fun step hstep hpassed hE => hclear step hstep hpassed (h hE)

/-! ### The beginnings of a path -/

theorem mem_courseGo_append {past : Location → List Bytes → List (Location × Bool)} {L : Location}
    {more : List Bytes}
    (hpast : ∀ place ns, (L, false) ∈ past place ns → (L, false) ∈ past place (ns ++ more)) (place : Location)
    (ns : List Bytes) (h : (L, false) ∈ courseGo t past place ns) :
    (L, false) ∈ courseGo t past place (ns ++ more) := by
  induction ns generalizing place with
  | nil =>
    rw [courseGo, List.mem_singleton] at h
    exact absurd (congrArg Prod.snd h) Bool.false_ne_true
  | cons name rest ih =>
    rw [mem_courseGo_cons] at h
    rw [List.cons_append, mem_courseGo_cons]
    split_ifs at h ⊢
    · exact ih place h
    · exact ih place.dropLast h
    · obtain heq | h | ⟨target, hget, h⟩ := h
      · exact .inl heq
      · exact .inr (.inl (ih _ h))
      · refine .inr (.inr ⟨target, hget, ?_⟩)
        rw [← List.append_assoc]
        exact hpast _ _ h

/-- What some names come to, they come to with more names behind them. -/
theorem mem_course_append {L : Location} (links : Nat) (place : Location) (ns more : List Bytes)
    (h : (L, false) ∈ t.course links place ns) : (L, false) ∈ t.course links place (ns ++ more) := by
  induction links generalizing place ns with
  | zero => exact mem_courseGo_append (fun _ _ => id) place ns h
  | succ links ih => exact mem_courseGo_append ih place ns h

theorem mem_courseGo_of_dot {past : Location → List Bytes → List (Location × Bool)} {step : Location × Bool}
    (hpast : ∀ place ns, step ∈ past place (ns ++ [lit "."]) → step ∈ past place ns) (place : Location)
    (ns : List Bytes) (h : step ∈ courseGo t past place (ns ++ [lit "."])) : step ∈ courseGo t past place ns := by
  induction ns generalizing place with
  | nil => simpa [courseGo] using h
  | cons name rest ih =>
    rw [List.cons_append, mem_courseGo_cons] at h
    rw [mem_courseGo_cons]
    split_ifs at h ⊢
    · exact ih place h
    · exact ih place.dropLast h
    · obtain heq | h | ⟨target, hget, h⟩ := h
      · exact .inl heq
      · exact .inr (.inl (ih _ h))
      · refine .inr (.inr ⟨target, hget, hpast _ _ ?_⟩)
        rwa [List.append_assoc]

/-- A dot at the end leads nowhere else. -/
theorem mem_course_of_dot {step : Location × Bool} (links : Nat) (place : Location) (ns : List Bytes)
    (h : step ∈ t.course links place (ns ++ [lit "."])) : step ∈ t.course links place ns := by
  induction links generalizing place ns with
  | zero => exact mem_courseGo_of_dot (fun _ _ h => h) place ns h
  | succ links ih => exact mem_courseGo_of_dot ih place ns h

/-- A path comes to whatever a beginning of it comes to, if a separator follows. -/
theorem mem_way_append_slash {L : Location} {front back : Bytes} (hfront : front ≠ [])
    (h : (L, false) ∈ t.way dir front) : (L, false) ∈ t.way dir (front ++ Path.slash :: back) := by
  have hstart : start dir (front ++ Path.slash :: back) = start dir front := by
    rw [start, start, Path.isRooted, Path.isRooted, List.head?_append_of_ne_nil _ hfront]
  have hplain : (L, false) ∈ t.course linkLimit (start dir front) (Path.elements front) := by
    rw [way, names] at h
    split_ifs at h
    · exact mem_course_of_dot _ _ _ h
    · rwa [List.append_nil] at h
  rw [way, hstart, names, Path.elements_append_slash, List.append_assoc]
  exact mem_course_append _ _ _ _ hplain

theorem Clear.of_append_slash {front back : Bytes} (h : t.Clear D dir (front ++ Path.slash :: back))
    (hfront : front ≠ []) : t.Clear D dir front := by
  rintro ⟨L, _⟩ hstep rfl
  exact h.not_mem (mem_way_append_slash hfront hstep)

/-- A path goes on with a separator where its last name is left out. -/
theorem exists_append_above {path : Bytes} (h : above path ≠ []) :
    ∃ back, path = above path ++ Path.slash :: back := by
  have hslashes := List.takeWhile_append_dropWhile (p := (· = Path.slash)) (l := path.reverse)
  have hname := List.takeWhile_append_dropWhile (p := (· ≠ Path.slash))
    (l := path.reverse.dropWhile (· = Path.slash))
  have habove : above path =
      (((path.reverse.dropWhile (· = Path.slash)).dropWhile (· ≠ Path.slash)).drop 1).reverse := rfl
  cases hbefore : (path.reverse.dropWhile (· = Path.slash)).dropWhile (· ≠ Path.slash) with
  | nil =>
    rw [habove, hbefore] at h
    exact absurd rfl h
  | cons b before =>
    have hb : b = Path.slash := by
      have hhead := List.head?_dropWhile_not (· ≠ Path.slash) (path.reverse.dropWhile (· = Path.slash))
      rw [hbefore] at hhead
      simpa using hhead
    rw [hbefore, hb] at hname
    rw [← hname] at hslashes
    have hpath := congrArg List.reverse hslashes
    rw [List.reverse_reverse, List.reverse_append, List.reverse_append, List.reverse_cons, List.append_assoc,
      List.append_assoc] at hpath
    rw [habove, hbefore]
    exact ⟨_, hpath.symm⟩

/-- What leads to a path keeps clear of what the path keeps clear of. -/
theorem Clear.above {path : Bytes} (h : t.Clear D dir path) (hne : above path ≠ []) :
    t.Clear D dir (above path) := by
  obtain ⟨back, hpath⟩ := exists_append_above hne
  rw [hpath] at h
  exact h.of_append_slash hne

/-- The path without separators at its end. -/
def bare (path : Bytes) : Bytes := (path.reverse.dropWhile (· = Path.slash)).reverse

theorem eq_bare_or_exists (path : Bytes) : path = bare path ∨ ∃ back, path = bare path ++ Path.slash :: back := by
  have hpath := congrArg List.reverse (List.takeWhile_append_dropWhile (p := (· = Path.slash)) (l := path.reverse))
  rw [List.reverse_append, List.reverse_reverse] at hpath
  cases hback : (path.reverse.takeWhile (· = Path.slash)).reverse with
  | nil =>
    rw [hback, List.append_nil] at hpath
    exact .inl hpath.symm
  | cons c back =>
    have hc : c ∈ path.reverse.takeWhile (· = Path.slash) := by
      rw [← List.mem_reverse, hback]
      exact List.mem_cons_self
    have hslash : c = Path.slash := by
      have hall := List.all_takeWhile (l := path.reverse) (p := (· = Path.slash))
      simpa using List.all_eq_true.mp hall c hc
    rw [hback, hslash] at hpath
    exact .inr ⟨back, hpath.symm⟩

theorem Clear.bare {path : Bytes} (h : t.Clear D dir path) (hne : bare path ≠ []) :
    t.Clear D dir (bare path) := by
  obtain heq | ⟨back, heq⟩ := eq_bare_or_exists path
  · rwa [heq] at h
  · rw [heq] at h
    exact h.of_append_slash hne

/-! ### Where a path leads -/

/-- A name that leads to a place of its own. -/
structure IsName (name : Bytes) : Prop where
  ne_dot : name ≠ lit "."
  ne_up : name ≠ lit ".."
  length_le : name.length ≤ nameLimit

/-- How a walk succeeds. -/
inductive Walks (t : FileTree) (follow : Bool) : Location → List Bytes → Walk → Prop where
  | done (place : Location) : Walks t follow place [] (.arrived place (some .directory))
  | dot {place : Location} {rest : List Bytes} {w : Walk} (h : Walks t follow place rest w) :
      Walks t follow place (lit "." :: rest) w
  | up {place : Location} {rest : List Bytes} {w : Walk} (h : Walks t follow place.dropLast rest w) :
      Walks t follow place (lit ".." :: rest) w
  | enter {place : Location} {name : Bytes} {rest : List Bytes} {w : Walk} (hname : IsName name)
      (hget : t.get? (place ++ [name]) = some .directory) (h : Walks t follow (place ++ [name]) rest w) :
      Walks t follow place (name :: rest) w
  | stop {place : Location} {name : Bytes} (hname : IsName name)
      (hdirectory : t.get? (place ++ [name]) ≠ some .directory)
      (hlink : ∀ target, t.get? (place ++ [name]) = some (.link target) → follow = false) :
      Walks t follow place [name] (.arrived (place ++ [name]) (t.get? (place ++ [name])))
  | link {place : Location} {name target : Bytes} {rest : List Bytes} (hname : IsName name)
      (hget : t.get? (place ++ [name]) = some (.link target)) (hon : rest = [] → follow = true) :
      Walks t follow place (name :: rest) (.link place target rest)

theorem walk_of_isName {name : Bytes} (hname : IsName name) (place : Location) (rest : List Bytes) :
    t.walk follow place (name :: rest) = match t.get? (place ++ [name]) with
      | none => if rest.isEmpty then .ok (.arrived (place ++ [name]) none) else .error .notFound
      | some .directory => t.walk follow (place ++ [name]) rest
      | some (.link target) =>
        if rest.isEmpty && !follow then .ok (.arrived (place ++ [name]) (some (.link target)))
        else .ok (.link place target rest)
      | some entry =>
        if rest.isEmpty then .ok (.arrived (place ++ [name]) (some entry)) else .error .notDirectory := by
  rw [walk, if_neg hname.ne_dot, if_neg hname.ne_up]
  exact if_neg (Nat.not_lt.mpr hname.length_le)

theorem walks_of_walk {w : Walk} {ns : List Bytes} (h : t.walk follow place ns = .ok w) :
    t.Walks follow place ns w := by
  induction ns generalizing place with
  | nil =>
    cases h
    exact .done place
  | cons name rest ih =>
    by_cases hdot : name = lit "."
    · rw [walk, if_pos hdot] at h
      exact hdot ▸ .dot (ih h)
    by_cases hup : name = lit ".."
    · rw [walk, if_neg hdot, if_pos hup] at h
      exact hup ▸ .up (ih h)
    by_cases hlen : nameLimit < name.length
    · rw [walk, if_neg hdot, if_neg hup, if_pos hlen] at h
      cases h
    have hname : IsName name := ⟨hdot, hup, Nat.not_lt.mp hlen⟩
    rw [walk_of_isName hname] at h
    -- the walk is over at the name, unless a directory or a link to be followed stands there
    have hstop : rest = [] → t.get? (place ++ [name]) ≠ some .directory →
        (∀ target, t.get? (place ++ [name]) = some (.link target) → follow = false) →
        t.Walks follow place (name :: rest) (.arrived (place ++ [name]) (t.get? (place ++ [name]))) := by
      rintro rfl hdirectory hlink
      exact .stop hname hdirectory hlink
    cases hget : t.get? (place ++ [name]) with
    | none =>
      rw [hget] at h hstop
      dsimp only at h
      split_ifs at h with hempty
      obtain rfl := Except.ok.inj h
      exact hstop (by simpa using hempty) (by simp) (by simp)
    | some entry =>
      rw [hget] at h hstop
      cases entry with
      | directory => exact .enter hname hget (ih h)
      | link target =>
        dsimp only at h
        split_ifs at h with hempty <;> obtain rfl := Except.ok.inj h
        · rw [Bool.and_eq_true, List.isEmpty_iff, Bool.not_eq_true'] at hempty
          exact hstop hempty.1 (by simp) fun _ _ => hempty.2
        · refine .link hname hget fun hrest => ?_
          simpa [hrest] using hempty
      | file content =>
        dsimp only at h
        split_ifs at h with hempty
        obtain rfl := Except.ok.inj h
        exact hstop (by simpa using hempty) (by simp) (by simp)
      | program p =>
        dsimp only at h
        split_ifs at h with hempty
        obtain rfl := Except.ok.inj h
        exact hstop (by simpa using hempty) (by simp) (by simp)

theorem Walks.walk_eq {w : Walk} {ns : List Bytes} (h : t.Walks follow place ns w) :
    t.walk follow place ns = .ok w := by
  induction h with
  | done place => rfl
  | dot _ ih => rwa [walk, if_pos rfl]
  | up _ ih => rwa [walk, if_neg (by decide), if_pos rfl]
  | enter hname hget _ ih => rwa [walk_of_isName hname, hget]
  | @stop place name hname hdirectory hlink =>
    rw [walk_of_isName hname]
    cases hget : t.get? (place ++ [name]) with
    | none => rfl
    | some entry =>
      cases entry with
      | directory => exact absurd hget hdirectory
      | link target => simp [hlink target hget]
      | file content => rfl
      | program p => rfl
  | @link place name target rest hname hget hon =>
    rw [walk_of_isName hname, hget]
    cases rest with
    | nil => simp [hon rfl]
    | cons next rest => rfl

/-- The way ends where the path leads; what stands there was looked up, unless it is a directory. -/
structure Arrives (t : FileTree) (course : List (Location × Bool)) (place : Location) (entry : Option Entry) :
    Prop where
  ends : (place, true) ∈ course
  found : entry = some .directory ∨ (place, false) ∈ course ∧ t.get? place = entry ∧ place ≠ []

/-- A walk comes to no place that is not on the way. -/
def Walk.On (t : FileTree) (past : Location → List Bytes → List (Location × Bool)) (course : List (Location × Bool)) :
    Walk → Prop
  | .arrived place entry => t.Arrives course place entry
  | .link directory target rest => ∀ step ∈ past (start directory target) (names target ++ rest), step ∈ course

theorem Walks.on {past : Location → List Bytes → List (Location × Bool)} {w : Walk} {ns : List Bytes}
    (h : t.Walks follow place ns w) : w.On t past (courseGo t past place ns) := by
  induction h with
  | done place => exact ⟨List.mem_singleton_self _, .inl rfl⟩
  | dot _ ih => rwa [courseGo, if_pos rfl]
  | up _ ih => rwa [courseGo, if_neg (by decide), if_pos rfl]
  | @enter place name rest w hname _ _ ih =>
    have hsub : ∀ step ∈ courseGo t past (place ++ [name]) rest, step ∈ courseGo t past place (name :: rest) := by
      intro step hstep
      rw [mem_courseGo_cons, if_neg hname.ne_dot, if_neg hname.ne_up]
      exact .inr (.inl hstep)
    cases w with
    | arrived L entry => exact ⟨hsub _ ih.ends, ih.found.imp_right fun h => ⟨hsub _ h.1, h.2⟩⟩
    | link directory target rest' => exact fun step hstep => hsub _ (ih step hstep)
  | @stop place name hname _ _ =>
    refine ⟨?_, .inr ⟨?_, rfl, List.append_ne_nil_of_right_ne_nil _ (by simp)⟩⟩
    · rw [mem_courseGo_cons, if_neg hname.ne_dot, if_neg hname.ne_up]
      exact .inr (.inl (List.mem_singleton_self _))
    · rw [mem_courseGo_cons, if_neg hname.ne_dot, if_neg hname.ne_up]
      exact .inl rfl
  | @link place name target rest hname hget _ =>
    intro step hstep
    rw [mem_courseGo_cons, if_neg hname.ne_dot, if_neg hname.ne_up]
    exact .inr (.inr ⟨target, hget, hstep⟩)

theorem walkLinks_of_arrived {links : Nat} {ns : List Bytes} {L : Location} {entry : Option Entry}
    (h : t.walk follow place ns = .ok (.arrived L entry)) :
    t.walkLinks follow links place ns = .ok (L, entry) := by
  rw [walkLinks, h]
  rfl

theorem walkLinks_of_link {links : Nat} {ns rest : List Bytes} {directory : Location} {target : Bytes}
    (h : t.walk follow place ns = .ok (.link directory target rest)) :
    t.walkLinks follow (links + 1) place ns =
      t.walkLinks follow links (start directory target) (names target ++ rest) := by
  rw [walkLinks, h]
  rfl

/-- How names are followed successfully: to their end, or to a link with another one to spare. -/
theorem walkLinks_cases {links : Nat} {ns : List Bytes} {L : Location} {entry : Option Entry}
    (h : t.walkLinks follow links place ns = .ok (L, entry)) :
    t.walk follow place ns = .ok (.arrived L entry) ∨
    ∃ links' directory target rest, links = links' + 1 ∧
      t.walk follow place ns = .ok (.link directory target rest) ∧
      t.walkLinks follow links' (start directory target) (names target ++ rest) = .ok (L, entry) := by
  rw [walkLinks] at h
  cases hwalk : t.walk follow place ns with
  | error refusal => rw [hwalk] at h; cases h
  | ok w =>
    rw [hwalk] at h
    cases w with
    | arrived L' entry' =>
      cases h
      exact .inl rfl
    | link directory target rest =>
      cases links with
      | zero => cases h
      | succ links => exact .inr ⟨links, directory, target, rest, rfl, rfl, h⟩

theorem arrives_of_walkLinks {links : Nat} {ns : List Bytes} {L : Location} {entry : Option Entry}
    (h : t.walkLinks follow links place ns = .ok (L, entry)) :
    t.Arrives (t.course links place ns) L entry := by
  induction links generalizing place ns with
  | zero =>
    obtain hwalk | ⟨_, _, _, _, hlinks, -⟩ := walkLinks_cases h
    · exact (walks_of_walk hwalk).on
    · cases hlinks
  | succ links ih =>
    obtain hwalk | ⟨_, directory, target, rest, hlinks, hwalk, h⟩ := walkLinks_cases h
    · exact (walks_of_walk hwalk).on
    · obtain rfl := Nat.succ.inj hlinks
      have hon : (Walk.link directory target rest).On t (t.course links) _ := (walks_of_walk hwalk).on
      have harrives := ih h
      exact ⟨hon _ harrives.ends, harrives.found.imp_right fun h => ⟨hon _ h.1, h.2⟩⟩

/-- Whether a path is followed at all has nothing to do with the tree. -/
theorem locate_eq_of_ok {found : Location × Option Entry} (h : t.locate follow path = .ok found) (u : FileTree)
    (follow' : Bool) :
    u.locate follow' path = u.walkLinks follow' linkLimit (start u.current path) (names path) := by
  unfold locate at h ⊢
  split_ifs at h ⊢
  rfl

theorem locate_eq_ok {found : Location × Option Entry} (h : t.locate follow path = .ok found) :
    t.walkLinks follow linkLimit (start t.current path) (names path) = .ok found := by
  rwa [locate_eq_of_ok h] at h

/-- A path leads to an end of its way. -/
theorem arrives_of_locate {L : Location} {entry : Option Entry} (h : t.locate follow path = .ok (L, entry)) :
    t.Arrives (t.way t.current path) L entry :=
  arrives_of_walkLinks (locate_eq_ok h)

/-! ### Writing a file -/

/-- A place at which a file may be written: no directory and no link is there. -/
structure Plain (t : FileTree) (place : Location) : Prop where
  ne_root : place ≠ []
  ne_directory : t.get? place ≠ some .directory
  ne_link : ∀ target, t.get? place ≠ some (.link target)

theorem Walks.ne_link {ns : List Bytes} {w : Walk} (h : t.Walks follow place ns w) (hfollow : follow = true)
    (L : Location) (target : Bytes) : w ≠ .arrived L (some (.link target)) := by
  induction h with
  | done place => simp
  | dot _ ih => exact ih
  | up _ ih => exact ih
  | enter _ _ _ ih => exact ih
  | stop _ _ hlink =>
    intro heq
    obtain ⟨-, hget⟩ := Walk.arrived.inj heq
    exact Bool.noConfusion (hfollow.symm.trans (hlink target hget))
  | link _ _ _ => simp

theorem ne_link_of_walkLinks {links : Nat} {ns : List Bytes} {L : Location} {entry : Option Entry}
    (h : t.walkLinks true links place ns = .ok (L, entry)) (target : Bytes) : entry ≠ some (.link target) := by
  rintro rfl
  induction links generalizing place ns with
  | zero =>
    obtain hwalk | ⟨_, _, _, _, hlinks, -⟩ := walkLinks_cases h
    · exact (walks_of_walk hwalk).ne_link rfl L target rfl
    · cases hlinks
  | succ links ih =>
    obtain hwalk | ⟨_, directory, _, rest, hlinks, -, h⟩ := walkLinks_cases h
    · exact (walks_of_walk hwalk).ne_link rfl L target rfl
    · obtain rfl := Nat.succ.inj hlinks
      exact ih h

/-- A path that is followed to its end leads to a directory or to a place for a file. -/
theorem plain_of_locate {L : Location} {entry : Option Entry} (h : t.locate true path = .ok (L, entry))
    (hentry : entry ≠ some .directory) : t.Plain L ∧ t.get? L = entry := by
  obtain hdirectory | ⟨-, hget, hroot⟩ := (arrives_of_locate h).found
  · exact absurd hdirectory hentry
  · refine ⟨⟨hroot, hget ▸ hentry, fun target => ?_⟩, hget⟩
    rw [hget]
    exact ne_link_of_walkLinks (locate_eq_ok h) target

/-- What is found at a place when something was put at another one. -/
def overlaid (N : Location) (x : Entry) (L : Location) : Option Entry → Option Entry
  | some .directory => some .directory
  | entry => if L = N then some x else entry

theorem overlaid_of_ne {N : Location} {x : Entry} {L : Location} {entry : Option Entry}
    (h : entry ≠ some .directory) : overlaid N x L entry = if L = N then some x else entry := by
  rcases entry with _ | (_ | _ | _ | _)
  · rfl
  · exact absurd rfl h
  all_goals rfl

/-- What a walk finds when something was put at a place. -/
def Walk.overlaid (N : Location) (x : Entry) : Walk → Walk
  | .arrived L entry => .arrived L (FileTree.overlaid N x L entry)
  | .link directory target rest => .link directory target rest

/-- A walk goes on through directories and links, so a file or a directory that is put in place of neither of them
does not change where it leads. -/
theorem Walks.put {N : Location} (hN : t.Plain N) {x : Entry} (hx : ∀ target, x ≠ .link target) {ns : List Bytes}
    {w : Walk} (h : t.Walks follow place ns w) : (t.put N x).Walks follow place ns (w.overlaid N x) := by
  have hget : ∀ {L : Location}, L ≠ N → (t.put N x).get? L = t.get? L := by
    intro L hL
    rw [get?_put t hN.ne_root, if_neg hL]
  induction h with
  | done place => exact .done place
  | dot _ ih => exact .dot ih
  | up _ ih => exact .up ih
  | @enter place name rest w hname hdirectory _ ih =>
    have hne : place ++ [name] ≠ N := by
      rintro rfl
      exact hN.ne_directory hdirectory
    exact .enter hname ((hget hne).trans hdirectory) ih
  | @stop place name hname hdirectory hlink =>
    rw [Walk.overlaid, overlaid_of_ne hdirectory]
    by_cases hplace : place ++ [name] = N
    · -- the walk ends at the new thing, and enters it if it is a directory
      have hnew : (t.put N x).get? (place ++ [name]) = some x := by
        rw [get?_put t hN.ne_root, if_pos hplace]
      rw [if_pos hplace]
      cases x with
      | directory => exact .enter hname hnew (.done _)
      | link target => exact absurd rfl (hx target)
      | file content =>
        rw [← hnew]
        exact .stop hname (by simp [hnew]) (by simp [hnew])
      | program p =>
        rw [← hnew]
        exact .stop hname (by simp [hnew]) (by simp [hnew])
    · rw [if_neg hplace, ← hget hplace]
      exact .stop hname (hget hplace ▸ hdirectory) (hget hplace ▸ hlink)
  | @link place name target rest hname hlink hon =>
    have hne : place ++ [name] ≠ N := by
      rintro rfl
      exact hN.ne_link target hlink
    exact .link hname ((hget hne).trans hlink) hon

theorem walkLinks_put {N : Location} (hN : t.Plain N) {x : Entry} (hx : ∀ target, x ≠ .link target) {links : Nat}
    {ns : List Bytes} {L : Location} {entry : Option Entry}
    (h : t.walkLinks follow links place ns = .ok (L, entry)) :
    (t.put N x).walkLinks follow links place ns = .ok (L, overlaid N x L entry) := by
  induction links generalizing place ns with
  | zero =>
    obtain hwalk | ⟨_, _, _, _, hlinks, -⟩ := walkLinks_cases h
    · exact walkLinks_of_arrived ((walks_of_walk hwalk).put hN hx).walk_eq
    · cases hlinks
  | succ links ih =>
    obtain hwalk | ⟨_, directory, target, rest, hlinks, hwalk, h⟩ := walkLinks_cases h
    · exact walkLinks_of_arrived ((walks_of_walk hwalk).put hN hx).walk_eq
    · obtain rfl := Nat.succ.inj hlinks
      rw [walkLinks_of_link ((walks_of_walk hwalk).put hN hx).walk_eq]
      exact ih h

/-- **Putting a file or a directory** where neither a directory nor a link was does not change where a path leads,
only what is found there. -/
theorem locate_put {N : Location} (hN : t.Plain N) {x : Entry} (hx : ∀ target, x ≠ .link target) {L : Location}
    {entry : Option Entry} (h : t.locate follow path = .ok (L, entry)) :
    (t.put N x).locate follow path = .ok (L, overlaid N x L entry) := by
  rw [locate_eq_of_ok h]
  exact walkLinks_put hN hx (locate_eq_ok h)

/-! ### Links at the end -/

theorem Walks.following {ns : List Bytes} {w : Walk} (h : t.Walks follow place ns w)
    (hw : ∀ L target, w ≠ .arrived L (some (.link target))) : t.Walks true place ns w := by
  induction h with
  | done place => exact .done place
  | dot _ ih => exact .dot (ih hw)
  | up _ ih => exact .up (ih hw)
  | enter hname hget _ ih => exact .enter hname hget (ih hw)
  | stop hname hdirectory _ =>
    refine .stop hname hdirectory fun target hget => ?_
    exact absurd (congrArg _ hget) (hw _ target)
  | link hname hget _ => exact .link hname hget fun _ => rfl

theorem walkLinks_following {links : Nat} {ns : List Bytes} {L : Location} {entry : Option Entry}
    (h : t.walkLinks follow links place ns = .ok (L, entry)) (hentry : ∀ target, entry ≠ some (.link target)) :
    t.walkLinks true links place ns = .ok (L, entry) := by
  have harrived : ∀ {place : Location} {ns : List Bytes}, t.walk follow place ns = .ok (.arrived L entry) →
      t.walk true place ns = .ok (.arrived L entry) := by
    intro place ns hwalk
    refine ((walks_of_walk hwalk).following fun L' target heq => ?_).walk_eq
    exact hentry target (Walk.arrived.inj heq).2
  induction links generalizing place ns with
  | zero =>
    obtain hwalk | ⟨_, _, _, _, hlinks, -⟩ := walkLinks_cases h
    · exact walkLinks_of_arrived (harrived hwalk)
    · cases hlinks
  | succ links ih =>
    obtain hwalk | ⟨_, directory, target, rest, hlinks, hwalk, h⟩ := walkLinks_cases h
    · exact walkLinks_of_arrived (harrived hwalk)
    · obtain rfl := Nat.succ.inj hlinks
      have hlink := ((walks_of_walk hwalk).following (by simp)).walk_eq
      rw [walkLinks_of_link hlink]
      exact ih h

/-- Whether a link at the end is followed matters only if there is one. -/
theorem locate_following {L : Location} {entry : Option Entry} (h : t.locate follow path = .ok (L, entry))
    (hentry : ∀ target, entry ≠ some (.link target)) : t.locate true path = .ok (L, entry) := by
  rw [locate_eq_of_ok h]
  exact walkLinks_following (locate_eq_ok h) hentry

end FileTree

end CrateAudit
