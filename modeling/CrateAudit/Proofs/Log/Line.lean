import CrateAudit.Log
import CrateAudit.Proofs.Json.RoundTrip

/-!
# The content of log lines

Attributes are shown as members of a JSON object by a few rules (`Shows`). A logger has been derived by adding
attributes and opening groups, and the members of its lines can be told by the number of groups around them
(`Content`): where a number of groups was open, there are the attributes that were added at that time and then the next
group; the attributes of the record and of the context are in the innermost one. A line is one JSON object with this
content, and no line is written for a record that is not important enough (`line_cases`).
-/

namespace CrateAudit.Log

open Bytes

/-! ### Attributes -/

/-- **The members by which attributes are shown**, in the same order: a document by itself, and a group by an object. An
attribute without a name and a value is left out, so is a group without members; and a group without a name is shown by
its members. -/
inductive Shows : List Attr → List (Bytes × Json) → Prop
  | nil : Shows [] []
  | zero {attrs : List Attr} {members : List (Bytes × Json)} (hattrs : Shows attrs members) :
      Shows (([], .document .null) :: attrs) members
  | document {name : Bytes} {j : Json} {attrs : List Attr} {members : List (Bytes × Json)} (hj : name ≠ [] ∨ j ≠ .null)
      (hattrs : Shows attrs members) : Shows ((name, .document j) :: attrs) ((name, j) :: members)
  | empty {name : Bytes} {inner attrs : List Attr} {members : List (Bytes × Json)} (hinner : Shows inner [])
      (hattrs : Shows attrs members) : Shows ((name, .group inner) :: attrs) members
  | inline {inner attrs : List Attr} {members members' : List (Bytes × Json)} (hinner : Shows inner members)
      (hattrs : Shows attrs members') : Shows (([], .group inner) :: attrs) (members ++ members')
  | group {name : Bytes} {inner attrs : List Attr} {members members' : List (Bytes × Json)} (hname : name ≠ [])
      (hne : members ≠ []) (hinner : Shows inner members) (hattrs : Shows attrs members') :
      Shows ((name, .group inner) :: attrs) ((name, .object members) :: members')

theorem Shows.append {attrs attrs' : List Attr} {members members' : List (Bytes × Json)} (h : Shows attrs members)
    (h' : Shows attrs' members') : Shows (attrs ++ attrs') (members ++ members') := by
  induction h with
  | nil => exact h'
  | zero _ ih => exact .zero ih
  | document hj _ ih => exact .document hj ih
  | empty hinner _ _ ih => exact .empty hinner ih
  | inline hinner _ _ ih =>
    rw [List.append_assoc]
    exact .inline hinner ih
  | group hname hne hinner _ _ ih => exact .group hname hne hinner ih

theorem inObject_eq (name : Bytes) (members : List (Bytes × Json)) :
    inObject name members = if members.isEmpty then [] else [(name, .object members)] := by
  cases members <;> rfl

theorem shows_shown : (attrs : List Attr) → Shows attrs (shown attrs)
  | [] => by
    rw [shown]
    exact .nil
  | (name, .document j) :: attrs => by
    have hattrs := shows_shown attrs
    rw [shown]
    by_cases hzero : name = [] ∧ j = .null
    · obtain ⟨rfl, rfl⟩ := hzero
      exact .zero hattrs
    · have hshown : Value.shown name (.document j) = [(name, j)] := by
        cases j <;> simp_all [Value.shown]
      rw [hshown]
      exact .document (not_and_or.mp hzero) hattrs
  | (name, .group inner) :: attrs => by
    have hinner := shows_shown inner
    have hattrs := shows_shown attrs
    rw [shown, Value.shown]
    by_cases hname : name = []
    · subst hname
      exact .inline hinner hattrs
    · rw [if_neg (by simpa using hname), inObject_eq]
      by_cases hne : shown inner = []
      · rw [hne] at hinner ⊢
        exact .empty hinner hattrs
      · rw [if_neg (by simpa using hne)]
        exact .group hname hne hinner hattrs

/-! ### Groups -/

/-- The name of the group that a derivation opens. -/
def Layer.group? : Layer → Option Bytes
  | .attrs _ => none
  | .group name => some name

/-- The groups that some derivations open, the outermost one first. -/
def opened (layers : List Layer) : List Bytes := layers.filterMap Layer.group?

/-- The attributes that some derivations add while a number of groups is open. -/
def addedIn : List Layer → ℕ → List Attr
  | [], _ => []
  | .attrs attrs :: rest, 0 => attrs ++ addedIn rest 0
  | .attrs _ :: rest, k + 1 => addedIn rest (k + 1)
  | .group _ :: _, 0 => []
  | .group _ :: rest, k + 1 => addedIn rest k

/-- **The members of a line** by the number of groups around them, for the derivations of a logger and the attributes of
a record and its context. -/
structure Content (layers : List Layer) (inner : List Attr) (content : ℕ → List (Bytes × Json)) : Prop where
  /-- a group stands behind the attributes that were added before it was opened, unless it is empty -/
  group : ∀ k name, (opened layers)[k]? = some name → ∃ members, Shows (addedIn layers k) members ∧
    content k = members ++ if (content (k + 1)).isEmpty then [] else [(name, .object (content (k + 1)))]
  innermost : Shows (addedIn layers (opened layers).length ++ inner) (content (opened layers).length)

namespace Content

variable {layers : List Layer} {inner : List Attr} {content : ℕ → List (Bytes × Json)}

theorem nil (inner : List Attr) : Content [] inner fun _ => shown inner where
  group _ _ hname := nomatch hname
  innermost := shows_shown inner

/-- Attributes that are added first stand in front of all others outside of all groups. -/
theorem adding (h : Content layers inner content) (attrs : List Attr) :
    Content (.attrs attrs :: layers) inner fun k => if k = 0 then shown attrs ++ content 0 else content k where
  group k name hname := by
    obtain ⟨members, hmembers, hcontent⟩ := h.group k name hname
    cases k with
    | zero => exact ⟨shown attrs ++ members, (shows_shown attrs).append hmembers, by simp [hcontent]⟩
    | succ k => exact ⟨members, hmembers, hcontent⟩
  innermost := by
    have hlast := h.innermost
    show Shows (addedIn (.attrs attrs :: layers) (opened layers).length ++ inner)
      (if (opened layers).length = 0 then shown attrs ++ content 0 else content (opened layers).length)
    cases hlength : (opened layers).length with
    | zero =>
      rw [hlength] at hlast
      rw [if_pos rfl, addedIn, List.append_assoc]
      exact (shows_shown attrs).append hlast
    | succ n =>
      rw [hlength] at hlast
      exact hlast

/-- A group that is opened first has everything inside. -/
theorem opening (h : Content layers inner content) (name : Bytes) :
    Content (.group name :: layers) inner fun k => if k = 0 then inObject name (content 0) else content (k - 1) where
  group k name' hname := by
    cases k with
    | zero =>
      obtain rfl := Option.some.inj hname
      exact ⟨[], .nil, inObject_eq name (content 0)⟩
    | succ k => exact h.group k name' hname
  innermost := h.innermost

end Content

/-- What a logger nests is the content of its lines. -/
theorem exists_content (layers : List Layer) (inner : List Attr) :
    ∃ content, Content layers inner content ∧ content 0 = nest layers (shown inner) := by
  induction layers with
  | nil => exact ⟨_, .nil inner, rfl⟩
  | cons layer layers ih =>
    obtain ⟨content, hcontent, hnest⟩ := ih
    cases layer with
    | attrs attrs => exact ⟨_, hcontent.adding attrs, congrArg (shown attrs ++ ·) hnest⟩
    | group name => exact ⟨_, hcontent.opening name, congrArg (inObject name) hnest⟩

/-! ### Lines -/

/-- Whether records of a level are written. -/
def Level.IsWritten (level : Level) (verbose : Bool) : Prop := (if verbose then -4 else 0) ≤ level.rank

theorem isEnabled_iff {l : Logger} {level : Level} : l.isEnabled level = true ↔ level.IsWritten l.verbose := by
  rw [Logger.isEnabled, decide_eq_true_iff, Level.IsWritten]
  cases l.verbose <;> rfl

/-- **A line** is one JSON object with the content that the logger, the record and the context give, ended by a line
break. Nothing is written for a record below the level of the logger. -/
theorem line_cases (l : Logger) (now : Bytes) (c : Context) (r : Record) :
    (¬r.level.IsWritten l.verbose → l.line now c r = []) ∧
      (r.level.IsWritten l.verbose → ∃ body content, l.line now c r = body ++ [newline] ∧ newline ∉ body ∧
        Json.read? body = some (Json.object (builtIn now r ++ content 0)).repair ∧
        Content l.layers (r.attrs ++ c.attrs) content) := by
  rw [← isEnabled_iff, Logger.line]
  refine ⟨fun h => if_neg h, fun h => ?_⟩
  obtain ⟨content, hcontent, hnest⟩ := exists_content l.layers (r.attrs ++ c.attrs)
  rw [if_pos h, ← hnest]
  have hread := Json.read?_write_append (Json.isSpacing_oneLine { markup := false, shortControls := false })
    (.object (builtIn now r ++ content 0)) 0 (show List.all [] Json.isBlank = true from rfl)
  rw [List.append_nil] at hread
  exact ⟨_, content, rfl, Json.newline_not_mem_write _ _ _, hread, hcontent⟩

-- a level between two names, a group of the record that is empty, and the attribute of the context in the open group
example :
    Logger.line { verbose := false, layers := [.attrs [.text "a" (lit "1")], .group (lit "g")] } (lit "t")
        ⟨[.text "c" (lit "3")]⟩ ⟨⟨2⟩, lit "m", [.text "b" (lit "2"), (lit "h", .group [])]⟩ =
      lit "\x7b\"time\":\"t\",\"level\":\"INFO+2\",\"msg\":\"m\",\"a\":\"1\"," ++
        lit "\"g\":\x7b\"b\":\"2\",\"c\":\"3\"\x7d\x7d\n" := by
  decide +kernel

end CrateAudit.Log
