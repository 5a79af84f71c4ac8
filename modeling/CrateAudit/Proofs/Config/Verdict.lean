import CrateAudit.Proofs.Config.Settings

/-!
# Verdicts on settings

A setting is judged by the trees that a document gives it (`Setting.Verdict`). If there are none, it has its default. If
its rule admits all of them, and as the same value, it has that value. Otherwise there are values to blame, each with
the names that lead to it (`Setting.Blames`); some of them have no place in the document that one could point at
(`Setting.Hides`).

Reading a document goes through its sections one after the other. It is taken apart setting by setting
(`Setting.check`): each setting gets what its verdict tells (`Setting.verdict_check`), and the objections to a document
are those to its sections and settings (`conflicts_draft`).
-/

namespace CrateAudit.Config

open Bytes Yaml

/-! ### Objections -/

namespace Setting

/-- Settings whose items are judged one by one. -/
def hasItems : Setting → Bool
  | .args _ => true
  | _ => false

/-- Settings for which any value that is refused fails both the default and the rule. -/
def hasAlternative : Setting → Bool
  | .version | .path _ | .args _ => false
  | _ => true

/-- **Values to blame**, with the names that lead to them: those that the rule of the setting does not admit, or their
items, and all of them if they are admitted but not the same. -/
inductive Blames (s : Setting) (given : Tree → Prop) : List Bytes → Tree → Prop
  | value {t : Tree} (hgiven : given t) (hrefused : ∀ v, ¬s.rule.Admits t v)
      (hwhole : s.hasItems → ∀ m items, t ≠ .list m items) : Blames s given s.names t
  | item {m : Mark} {items : List Tree} {i : ℕ} {t : Tree} (hs : s.hasItems) (hgiven : given (.list m items))
      (hitem : items[i]? = some t) (hrefused : ∀ v, ¬Rule.text.Admits t v) :
      Blames s given (s.names ++ [decimal i]) t
  | divided {t : Tree} (hgiven : given t) (hvalues : ∀ t, given t → ∃ v, s.rule.Admits t v)
      (hdivided : ¬∃ v, ∀ t, given t → s.rule.Admits t v) : Blames s given s.names t

/-- **Values without a place**: a record that is not empty cannot be pointed at, and the objection to it cannot be told
from the one to the field as a whole. The same goes for a list whose first item to blame is such a record. -/
inductive Hides : Setting → Tree → Prop
  | record {s : Setting} {m : Mark} {field : Label × Tree} {rest : List (Label × Tree)} (hs : s.hasAlternative) :
      Hides s (.record m (field :: rest))
  | item {tool : Tool} {m m' : Mark} {front back : List Tree} {field : Label × Tree} {rest : List (Label × Tree)}
      (hfront : ∀ t ∈ front, ∃ v, Rule.text.Admits t v) :
      Hides (.env tool) (.list m (front ++ .record m' (field :: rest) :: back))

end Setting

/-- The objections to some values, each with its path. -/
def accusations (path : List Bytes) (alternative : Bool) (culprits : List (List Bytes × Tree)) : List Issue :=
  (if alternative then [noAlternative path] else []) ++ culprits.map fun c => conflict c.1 c.2

/-- **Verdicts** on the trees given for a setting: there are none and the setting has its default, or they all have the
value that the setting gets, or some of them are to blame. -/
inductive Setting.Verdict (s : Setting) (fallback : Value) (trees : List Tree) : Checked Value → Prop
  | absent (h : trees = []) : Verdict s fallback trees ⟨fallback, [], []⟩
  | same {v : Value} (hne : trees ≠ []) (h : ∀ t ∈ trees, s.rule.Admits t v) : Verdict s fallback trees ⟨v, [], []⟩
  | refused {v : Value} {alternative : Bool} {culprits : List (List Bytes × Tree)} (hne : culprits ≠ [])
      (halternative : alternative → ∀ c ∈ culprits, c.1 = s.names)
      (hblames : ∀ path, (∃ t, (path, t) ∈ culprits) ↔ ∃ t, s.Blames (· ∈ trees) path t)
      (hplaced : ∀ path, (∃ t, (path, t) ∈ culprits ∧ (alternative → places t ≠ [])) ↔
        ∃ t, s.Blames (· ∈ trees) path t ∧ ¬s.Hides t) :
      Verdict s fallback trees ⟨v, accusations s.names alternative culprits, []⟩

section Leaves

variable {α : Type} [DecidableEq α] {s : Setting} {trees : List Tree} {t : Tree}

theorem Rule.Admits.places_ne_nil {rule : Rule} {v : Value} (h : rule.Admits t v) : places t ≠ [] := by
  cases h <;> exact List.cons_ne_nil _ _

theorem Setting.Hides.not_admits (h : s.Hides t) (v : Value) : ¬s.rule.Admits t v := by
  intro hadmits
  cases h with
  | record =>
    generalize s.rule = rule at hadmits
    cases hadmits
  | @item tool m m' front back field rest =>
    have hrecord := exists_admits_texts_iff.mp ⟨v, hadmits⟩ (.record m' (field :: rest)) (by simp)
    obtain ⟨_, ⟨⟩⟩ := hrecord

theorem Setting.hasAlternative_of_hides (h : s.Hides t) : s.hasAlternative = true := by
  cases h with
  | record hs => exact hs
  | item => rfl

/-- Values that are read are the same exactly if there is one that all trees have. -/
theorem agree_filterMap_iff {read : Tree → Option α} {a : α} {rest : List Tree} (ht : read t = some a)
    (hall : ∀ t ∈ rest, read t ≠ none) :
    agree ((t :: rest).filterMap read) = true ↔ ∃ a, ∀ t' ∈ t :: rest, read t' = some a := by
  rw [List.filterMap_cons_some ht, agree, List.all_eq_true]
  simp only [decide_eq_true_eq, List.mem_filterMap, forall_exists_index, and_imp, List.forall_mem_cons, ht,
    Option.some.injEq]
  constructor
  · intro h
    refine ⟨a, rfl, fun t' ht' => ?_⟩
    obtain ⟨a', ha'⟩ := Option.ne_none_iff_exists'.mp (hall t' ht')
    rw [ha', h a' t' ht' ha']
  · rintro ⟨_, rfl, h⟩ a' t' ht' ha'
    exact Option.some.inj (ha'.symm.trans (h t' ht'))

/-- What becomes of a field with a default. -/
theorem leaf_cases (path : List Bytes) (read : Tree → Option α) (fallback : α) (blame : Tree → Tree)
    (trees : List Tree) :
    (trees = [] ∧ leaf path read fallback blame trees = ⟨fallback, [], []⟩) ∨
    (∃ a, trees ≠ [] ∧ (∀ t ∈ trees, read t = some a) ∧ leaf path read fallback blame trees = ⟨a, [], []⟩) ∨
    (∃ wrong, wrong ≠ [] ∧ (∀ t, t ∈ wrong ↔ t ∈ trees ∧ read t = none) ∧
      leaf path read fallback blame trees =
        ⟨fallback, accusations path true (wrong.map fun t => (path, blame t)), []⟩) ∨
    ∃ t ∈ trees, ∃ a, (∀ t ∈ trees, read t ≠ none) ∧ (¬∃ a, ∀ t ∈ trees, read t = some a) ∧
      leaf path read fallback blame trees = ⟨a, accusations path true [(path, t)], []⟩ := by
  by_cases hwrong : trees.filter (fun t => (read t).isNone) = []
  · have hall : ∀ t ∈ trees, read t ≠ none := by simpa [List.filter_eq_nil_iff] using hwrong
    rcases trees with _ | ⟨t, rest⟩
    · exact .inl ⟨rfl, rfl⟩
    obtain ⟨a, ha⟩ := Option.ne_none_iff_exists'.mp (hall t List.mem_cons_self)
    have hagree := agree_filterMap_iff ha fun t' ht' => hall t' (List.mem_cons_of_mem t ht')
    have hleaf : leaf path read fallback blame (t :: rest) =
        if agree ((t :: rest).filterMap read) then ⟨a, [], []⟩ else ⟨a, [noAlternative path, conflict path t], []⟩ := by
      simp only [leaf, hwrong, List.filterMap_cons_some ha]
      rfl
    rw [hleaf]
    by_cases hsame : ∃ a, ∀ t' ∈ t :: rest, read t' = some a
    · obtain ⟨a', ha'⟩ := hsame
      obtain rfl : a = a' := Option.some.inj (ha.symm.trans (ha' t List.mem_cons_self))
      exact .inr (.inl ⟨a, List.cons_ne_nil _ _, ha', if_pos (hagree.mpr ⟨a, ha'⟩)⟩)
    · exact .inr (.inr (.inr ⟨t, List.mem_cons_self, a, hall, hsame, if_neg (mt hagree.mp hsame)⟩))
  · refine .inr (.inr (.inl ⟨_, hwrong, fun t => by simp [List.mem_filter], ?_⟩))
    simp [leaf, hwrong, accusations]

/-- What was read, as something else. -/
def Checked.map {α β : Type} (f : α → β) (c : Checked α) : Checked β := ⟨f c.value, c.conflicts, c.unknown⟩

namespace Setting

variable {fallback : Value}

/-- Values that are judged as a whole are to blame if they are not admitted, or if all are admitted but differ. -/
theorem blames_iff {given : Tree → Prop} {path : List Bytes} (hs : s.hasItems = false) :
    s.Blames given path t ↔ path = s.names ∧ given t ∧
      ((∀ v, ¬s.rule.Admits t v) ∨
        (∀ t, given t → ∃ v, s.rule.Admits t v) ∧ ¬∃ v, ∀ t, given t → s.rule.Admits t v) := by
  constructor
  · intro h
    cases h with
    | value hgiven hrefused => exact ⟨rfl, hgiven, .inl hrefused⟩
    | item hs' => rw [hs] at hs'; contradiction
    | divided hgiven hvalues hdivided => exact ⟨rfl, hgiven, .inr ⟨hvalues, hdivided⟩⟩
  · rintro ⟨rfl, hgiven, hrefused | ⟨hvalues, hdivided⟩⟩
    · exact .value hgiven hrefused fun h => by rw [hs] at h; contradiction
    · exact .divided hgiven hvalues hdivided

/-- A verdict on a setting whose values are judged as a whole. -/
theorem Verdict.of_names {v : Value} {alternative : Bool} (ts : List Tree) (hs : s.hasItems = false) (hne : ts ≠ [])
    (hblames : ∃ t, s.Blames (· ∈ trees) s.names t)
    (hplaced : (∃ t ∈ ts, alternative → places t ≠ []) ↔ ∃ t, s.Blames (· ∈ trees) s.names t ∧ ¬s.Hides t) :
    s.Verdict fallback trees ⟨v, accusations s.names alternative (ts.map fun t => (s.names, t)), []⟩ := by
  have hmem {path : List Bytes} {t : Tree} : (path, t) ∈ ts.map (fun t => (s.names, t)) ↔ path = s.names ∧ t ∈ ts := by
    simp [eq_comm, and_comm]
  refine .refused (by simpa using hne) (fun _ => by simp) (fun path => ?_) (fun path => ?_)
  · simp only [hmem]
    constructor
    · rintro ⟨t, rfl, -⟩
      exact hblames
    · rintro ⟨t, h⟩
      obtain ⟨t', ht'⟩ := List.exists_mem_of_ne_nil ts hne
      exact ⟨t', ((blames_iff hs).mp h).1, ht'⟩
  · simp only [hmem]
    constructor
    · rintro ⟨t, ⟨rfl, ht⟩, hplace⟩
      exact hplaced.mp ⟨t, ht, hplace⟩
    · rintro ⟨t, h, hhides⟩
      obtain rfl := ((blames_iff hs).mp h).1
      obtain ⟨t', ht', hplace⟩ := hplaced.mpr ⟨t, h, hhides⟩
      exact ⟨t', ⟨rfl, ht'⟩, hplace⟩

theorem rule_of_hasItems (hs : s.hasItems = true) : s.rule = .texts := by
  cases s with
  | args => rfl
  | _ => contradiction

/-- A verdict on a setting with values that are all admitted, but not the same. -/
theorem Verdict.of_divided {v : Value} (alternative : Bool) (ht : t ∈ trees)
    (hvalues : ∀ t ∈ trees, ∃ v, s.rule.Admits t v) (hdivided : ¬∃ v, ∀ t ∈ trees, s.rule.Admits t v) :
    s.Verdict fallback trees ⟨v, accusations s.names alternative [(s.names, t)], []⟩ := by
  have hblames : s.Blames (· ∈ trees) s.names t := .divided ht hvalues hdivided
  have hpath {path : List Bytes} {t' : Tree} (h : s.Blames (· ∈ trees) path t') : path = s.names := by
    cases h with
    | value | divided => rfl
    | item hs hgiven hitem hrefused =>
      have hlist := hvalues _ hgiven
      rw [rule_of_hasItems hs, exists_admits_texts_iff] at hlist
      obtain ⟨v, hv⟩ := hlist _ (List.mem_of_getElem? hitem)
      exact absurd hv (hrefused v)
  obtain ⟨v', hv'⟩ := hvalues t ht
  refine .refused (List.cons_ne_nil _ _) (fun _ => by simp) (fun path => ?_) fun path => ?_
  · constructor
    · rintro ⟨t', hmem⟩
      obtain ⟨rfl, -⟩ := Prod.mk.inj (List.mem_singleton.mp hmem)
      exact ⟨t, hblames⟩
    · rintro ⟨t', h⟩
      exact ⟨t, List.mem_singleton.mpr (by rw [hpath h])⟩
  · constructor
    · rintro ⟨t', hmem, -⟩
      obtain ⟨rfl, -⟩ := Prod.mk.inj (List.mem_singleton.mp hmem)
      exact ⟨t, hblames, fun h => h.not_admits v' hv'⟩
    · rintro ⟨t', h, -⟩
      exact ⟨t, List.mem_singleton.mpr (by rw [hpath h]), fun _ => hv'.places_ne_nil⟩

/-- A verdict on a setting with values that are not admitted: they are to blame, and no others. -/
theorem Verdict.of_wrong {v : Value} {alternative : Bool} {wrong : List Tree} {blame : Tree → Tree}
    (hs : s.hasItems = false) (hne : wrong ≠ [])
    (hwrong : ∀ t, t ∈ wrong ↔ t ∈ trees ∧ ∀ v, ¬s.rule.Admits t v)
    (hblame : ∀ t ∈ wrong, (alternative → places (blame t) ≠ []) ↔ ¬s.Hides t) :
    s.Verdict fallback trees ⟨v, accusations s.names alternative (wrong.map fun t => (s.names, blame t)), []⟩ := by
  have hblames (t : Tree) : s.Blames (· ∈ trees) s.names t ↔ t ∈ wrong := by
    rw [blames_iff hs, hwrong]
    constructor
    · rintro ⟨-, ht, hrefused | ⟨hvalues, -⟩⟩
      · exact ⟨ht, hrefused⟩
      · obtain ⟨t', ht'⟩ := List.exists_mem_of_ne_nil wrong hne
        obtain ⟨hmem, hrefused⟩ := (hwrong t').mp ht'
        obtain ⟨v, hv⟩ := hvalues t' hmem
        exact absurd hv (hrefused v)
    · rintro ⟨ht, hrefused⟩
      exact ⟨rfl, ht, .inl hrefused⟩
  have hverdict : s.Verdict fallback trees
      ⟨v, accusations s.names alternative ((wrong.map blame).map fun t => (s.names, t)), []⟩ := by
    refine .of_names _ hs (by simpa using hne) ?_ ?_
    · simpa only [hblames] using List.exists_mem_of_ne_nil wrong hne
    · simp only [hblames, List.mem_map, exists_exists_and_eq_and]
      exact exists_congr fun t => and_congr_right fun ht => hblame t ht
  rwa [List.map_map] at hverdict

/-- The verdict on a field with a default, if the values without a place are told. -/
theorem verdict_leaf (s : Setting) {read : Tree → Option α} {value : α → Value} (hs : s.hasItems = false)
    (hchecks : s.rule.Checks read value) (a : α) {blame : Tree → Tree}
    (hblame : ∀ t ∈ trees, read t = none → (places (blame t) = [] ↔ s.Hides t)) :
    s.Verdict (value a) trees ((leaf s.names read a blame trees).map value) := by
  obtain ⟨htrees, hleaf⟩ | ⟨a', hne, hall, hleaf⟩ | ⟨wrong, hne, hwrong, hleaf⟩ | ⟨t, ht, a', hall, hdivided, hleaf⟩ :=
    leaf_cases s.names read a blame trees
  · rw [hleaf]
    exact .absent htrees
  · rw [hleaf]
    exact .same hne fun t ht => hchecks.eq_some_iff.mp (hall t ht)
  · rw [hleaf]
    refine .of_wrong hs hne (fun t => ?_) fun t ht => ?_
    · rw [hwrong, hchecks.eq_none_iff]
    · obtain ⟨hmem, hread⟩ := (hwrong t).mp ht
      simpa using not_congr (hblame t hmem hread)
  · rw [hleaf]
    have hvalues : ∀ t ∈ trees, ∃ v, s.rule.Admits t v := by
      intro t ht
      obtain ⟨a, ha⟩ := Option.ne_none_iff_exists'.mp (hall t ht)
      exact ⟨_, hchecks.eq_some_iff.mp ha⟩
    refine .of_divided true ht hvalues ?_
    rintro ⟨v, hv⟩
    obtain ⟨a, -, rfl⟩ := hchecks.admits_iff.mp (hv t ht)
    exact hdivided ⟨a, fun t ht => hchecks.eq_some_iff.mpr (hv t ht)⟩

theorem not_hides_of_hasAlternative (hs : s.hasAlternative = false) : ¬s.Hides t := by
  intro h
  rw [hasAlternative_of_hides h] at hs
  contradiction

theorem exists_versionConflicts_eq (trees : List Tree) :
    ∃ wrong : List Tree, (∀ t, t ∈ wrong ↔ t ∈ trees ∧ ∀ v, ¬Rule.zero.Admits t v) ∧
      versionConflicts trees = wrong.map (conflict version.names) := by
  refine ⟨_, fun t => ?_, rfl⟩
  rw [List.mem_filter]
  refine and_congr_right fun _ => ?_
  have hzero (v : Value) : Rule.zero.Admits t v ↔ v = .number 0 ∧ ∃ m, t = .scalar m (.int 0) := by
    constructor
    · rintro ⟨⟩
      exact ⟨rfl, _, rfl⟩
    · rintro ⟨rfl, m, rfl⟩
      exact .zero
  simp only [hzero]
  split <;> simp_all

/-- The verdict on the version. -/
theorem verdict_version (trees : List Tree) :
    version.Verdict (.number 0) trees ⟨.number 0, versionConflicts trees, []⟩ := by
  obtain ⟨wrong, hwrong, hconflicts⟩ := exists_versionConflicts_eq trees
  rw [hconflicts]
  by_cases hne : wrong = []
  · subst hne
    by_cases htrees : trees = []
    · exact .absent htrees
    · refine .same htrees fun t ht => ?_
      have hadmits : ¬∀ v, ¬Rule.zero.Admits t v := fun h => List.not_mem_nil ((hwrong t).mpr ⟨ht, h⟩)
      push Not at hadmits
      obtain ⟨_, ⟨⟩⟩ := hadmits
      exact .zero
  · have hverdict : version.Verdict (.number 0) trees
        ⟨.number 0, accusations version.names false (wrong.map fun t => (version.names, id t)), []⟩ :=
      .of_wrong rfl hne hwrong fun t _ => iff_of_true nofun (not_hides_of_hasAlternative rfl)
    simpa [accusations, Function.comp_def] using hverdict

/-- The check of a command's path. -/
def path? : Tool → Tree → Option Bytes
  | .wrapper => text?
  | _ => filled?

theorem checks_path? (tool : Tool) : (path tool).rule.Checks (path? tool) .text := by
  cases tool
  · exact Rule.checks_filled
  · exact Rule.checks_filled
  · exact Rule.checks_filled
  · exact Rule.checks_text

/-- A path is a text at least. -/
theorem text?_ne_none_of_path? {tool : Tool} {s : Bytes} (h : path? tool t = some s) : text? t ≠ none := by
  cases tool
  case wrapper => exact fun hnone => nomatch hnone.symm.trans h
  all_goals exact fun hnone => nomatch hnone.symm.trans (Option.filter_eq_some_iff.mp h).1

/-- The verdict on the path of a command. -/
theorem verdict_commandPath (tool : Tool) (default : Bytes) (trees : List Tree) :
    (path tool).Verdict (.text default) trees
      ((commandPath (path tool).names (path? tool) default trees).map .text) := by
  unfold commandPath
  dsimp only
  split
  · rename_i htexts
    -- only texts are given, and those have a place
    refine verdict_leaf (path tool) rfl (checks_path? tool) default fun t ht _ => ?_
    have htext : text? t ≠ none := by
      rw [List.isEmpty_iff, List.filter_eq_nil_iff] at htexts
      simpa using htexts t ht
    obtain ⟨s, hs⟩ := Option.ne_none_iff_exists'.mp htext
    obtain ⟨m, rfl⟩ := text?_eq_some_iff.mp hs
    exact iff_of_false (List.cons_ne_nil _ _) (not_hides_of_hasAlternative rfl)
  · rename_i hwrong
    rw [List.isEmpty_iff] at hwrong
    obtain ⟨t, ht⟩ := List.exists_mem_of_ne_nil _ hwrong
    obtain ⟨hmem, hnone⟩ := List.mem_filter.mp ht
    have hblames : (path tool).Blames (· ∈ trees) (path tool).names t := by
      refine .value hmem (fun v hv => ?_) nofun
      obtain ⟨s, hread, -⟩ := (checks_path? tool).admits_iff.mp hv
      exact text?_ne_none_of_path? hread (Option.isNone_iff_eq_none.mp hnone)
    have hverdict : (path tool).Verdict (.text default) trees ⟨.text default, accusations (path tool).names false
        ((trees.filter fun t => (text? t).isNone).map fun t => ((path tool).names, t)), []⟩ :=
      .of_names _ rfl hwrong ⟨t, hblames⟩
        (iff_of_true ⟨t, ht, nofun⟩ ⟨t, hblames, not_hides_of_hasAlternative rfl⟩)
    simpa [accusations, Checked.map, Function.comp_def] using hverdict

/-- What of a list of arguments is to blame, with the path of each item. -/
def argCulprits (path : List Bytes) : Tree → List (List Bytes × Tree)
  | .list _ items => items.zipIdx.filterMap fun (t, i) =>
      if (text? t).isNone then some (path ++ [decimal i], t) else none
  | t => [(path, t)]

theorem argsConflicts_eq (path : List Bytes) (t : Tree) :
    argsConflicts path t = (argCulprits path t).map fun c => conflict c.1 c.2 := by
  rcases t with _ | ⟨m, items⟩ | _
  · rfl
  · simp only [argsConflicts, itemConflicts, argCulprits, List.map_filterMap]
    refine List.filterMap_congr fun c _ => ?_
    split <;> rfl
  · rfl

theorem mem_argCulprits_iff {path path' : List Bytes} {t' : Tree} :
    (path', t') ∈ argCulprits path t ↔
      (∃ m items i, t = .list m items ∧ items[i]? = some t' ∧ (∀ v, ¬Rule.text.Admits t' v) ∧
        path' = path ++ [decimal i]) ∨
      (∀ m items, t ≠ .list m items) ∧ t' = t ∧ path' = path := by
  have hwhole (ht : ∀ m items, t ≠ Tree.list m items) : (path', t') ∈ [(path, t)] ↔
      (∃ m items i, t = Tree.list m items ∧ items[i]? = some t' ∧ (∀ v, ¬Rule.text.Admits t' v) ∧
        path' = path ++ [decimal i]) ∨ (∀ m items, t ≠ Tree.list m items) ∧ t' = t ∧ path' = path := by
    simp [ht, and_comm]
  rcases t with _ | ⟨m, items⟩ | _
  · exact hwhole nofun
  · simp only [argCulprits, List.mem_filterMap, Prod.exists, List.mem_zipIdx_iff_getElem?,
      Option.ite_none_right_eq_some, Option.isNone_iff_eq_none, Rule.checks_text.eq_none_iff, Option.some.injEq,
      Prod.mk.injEq]
    constructor
    · rintro ⟨t, i, hitem, hrefused, rfl, rfl⟩
      exact .inl ⟨m, items, i, rfl, hitem, hrefused, rfl⟩
    · rintro (⟨_, _, i, ⟨rfl, rfl⟩, hitem, hrefused, rfl⟩ | ⟨hlist, -⟩)
      · exact ⟨t', i, hitem, hrefused, rfl, rfl⟩
      · exact absurd rfl (hlist m items)
  · exact hwhole nofun

/-- Nothing is to blame exactly if the whole is admitted. -/
theorem argCulprits_eq_nil_iff {path : List Bytes} : argCulprits path t = [] ↔ ∃ v, Rule.texts.Admits t v := by
  rcases t with _ | ⟨m, items⟩ | _
  · exact iff_of_false (List.cons_ne_nil _ _) (by rintro ⟨_, ⟨⟩⟩)
  · rw [exists_admits_texts_iff, List.eq_nil_iff_forall_not_mem]
    constructor
    · intro h t ht
      obtain ⟨i, hitem⟩ := List.mem_iff_getElem?.mp ht
      by_contra hrefused
      push Not at hrefused
      exact h (path ++ [decimal i], t) (mem_argCulprits_iff.mpr (.inl ⟨m, items, i, rfl, hitem, hrefused, rfl⟩))
    · rintro h ⟨path', t⟩ hmem
      obtain ⟨_, _, i, ⟨rfl, rfl⟩, hitem, hrefused, -⟩ | ⟨hlist, -⟩ := mem_argCulprits_iff.mp hmem
      · obtain ⟨v, hv⟩ := h t (List.mem_of_getElem? hitem)
        exact hrefused v hv
      · exact hlist m items rfl
  · exact iff_of_false (List.cons_ne_nil _ _) (by rintro ⟨_, ⟨⟩⟩)

/-- If some arguments are not admitted, these are to blame, and no others. -/
theorem blames_args_iff {tool : Tool} {path : List Bytes} (hwrong : ∃ t ∈ trees, ∀ v, ¬Rule.texts.Admits t v) :
    (args tool).Blames (· ∈ trees) path t ↔ ∃ t' ∈ trees, (path, t) ∈ argCulprits (args tool).names t' := by
  constructor
  · intro h
    cases h with
    | value hgiven hrefused hwhole => exact ⟨t, hgiven, mem_argCulprits_iff.mpr (.inr ⟨hwhole rfl, rfl, rfl⟩)⟩
    | item hs hgiven hitem hrefused =>
      exact ⟨_, hgiven, mem_argCulprits_iff.mpr (.inl ⟨_, _, _, rfl, hitem, hrefused, rfl⟩)⟩
    | divided hgiven hvalues =>
      obtain ⟨t', ht', hrefused⟩ := hwrong
      obtain ⟨v, hv⟩ := hvalues t' ht'
      exact absurd hv (hrefused v)
  · rintro ⟨t', ht', hmem⟩
    obtain ⟨m, items, i, rfl, hitem, hrefused, rfl⟩ | ⟨hlist, rfl, rfl⟩ := mem_argCulprits_iff.mp hmem
    · exact .item rfl ht' hitem hrefused
    · refine .value ht' (fun v hv => ?_) fun _ => hlist
      cases hv with
      | texts => exact hlist _ _ rfl

/-- The verdict on the arguments of a command. -/
theorem verdict_commandArgs (tool : Tool) (default : List Bytes) (trees : List Tree) :
    (args tool).Verdict (.texts default) trees
      ((commandArgs (args tool).names default trees).map .texts) := by
  have hconflicts : trees.flatMap (argsConflicts (args tool).names) =
      accusations (args tool).names false (trees.flatMap (argCulprits (args tool).names)) := by
    rw [funext (argsConflicts_eq (args tool).names), accusations, List.map_flatMap]
    rfl
  unfold commandArgs
  dsimp only
  rw [hconflicts]
  -- a value that is no list of texts is told before values that differ
  by_cases hwrong : ∃ t ∈ trees, ∀ v, ¬Rule.texts.Admits t v
  · have hmem (path : List Bytes) (t : Tree) : (path, t) ∈ trees.flatMap (argCulprits (args tool).names) ↔
        (args tool).Blames (· ∈ trees) path t := by
      rw [blames_args_iff hwrong, List.mem_flatMap]
    have hne : trees.flatMap (argCulprits (args tool).names) ≠ [] := by
      obtain ⟨t, ht, hrefused⟩ := hwrong
      intro hnil
      obtain ⟨v, hv⟩ := argCulprits_eq_nil_iff.mp (List.flatMap_eq_nil_iff.mp hnil t ht)
      exact hrefused v hv
    rw [if_pos (by simpa [accusations] using hne)]
    refine .refused hne nofun (fun path => exists_congr (hmem path)) fun path => exists_congr fun t => ?_
    rw [hmem]
    exact and_congr_right fun _ => iff_of_true nofun (not_hides_of_hasAlternative rfl)
  · push Not at hwrong
    have hnil : trees.flatMap (argCulprits (args tool).names) = [] :=
      List.flatMap_eq_nil_iff.mpr fun t ht => argCulprits_eq_nil_iff.mpr (hwrong t ht)
    rw [hnil, if_neg (by simp [accusations])]
    -- every value is a list of texts, so the only question is whether they agree
    rcases trees with _ | ⟨t, rest⟩
    · exact .absent rfl
    have hread : ∀ t' ∈ t :: rest, texts? t' ≠ none := by
      intro t' ht' hnone
      obtain ⟨v, hv⟩ := hwrong t' ht'
      exact Rule.checks_texts.eq_none_iff.mp hnone v hv
    obtain ⟨a, ha⟩ := Option.ne_none_iff_exists'.mp (hread t List.mem_cons_self)
    have hagree := agree_filterMap_iff ha fun t' ht' => hread t' (List.mem_cons_of_mem t ht')
    rw [List.filterMap_cons_some ha] at hagree ⊢
    dsimp only
    by_cases hsame : ∃ a, ∀ t' ∈ t :: rest, texts? t' = some a
    · rw [if_pos (hagree.mpr hsame)]
      obtain ⟨a', ha'⟩ := hsame
      obtain rfl : a = a' := Option.some.inj (ha.symm.trans (ha' t List.mem_cons_self))
      exact .same (List.cons_ne_nil _ _) fun t' ht' => Rule.checks_texts.eq_some_iff.mp (ha' t' ht')
    · rw [if_neg (mt hagree.mp hsame)]
      have hvalues : ∀ t' ∈ t :: rest, ∃ v, (args tool).rule.Admits t' v := hwrong
      refine .of_divided false List.mem_cons_self hvalues ?_
      rintro ⟨v, hv⟩
      obtain ⟨a, -, rfl⟩ := Rule.checks_texts.admits_iff.mp (hv t List.mem_cons_self)
      exact hsame ⟨a, fun t' ht' => Rule.checks_texts.eq_some_iff.mpr (hv t' ht')⟩

theorem places_eq_nil_iff : places t = [] ↔ ∃ m field rest, t = .record m (field :: rest) := by
  rcases t with _ | _ | ⟨m, _ | ⟨field, rest⟩⟩ <;> simp [places]

/-- The verdict on a field with a default that no items are to blame for. -/
theorem verdict_leaf_id (s : Setting) {read : Tree → Option α} {value : α → Value} (hs : s.hasAlternative = true)
    (henv : ∀ tool, s ≠ .env tool) (hchecks : s.rule.Checks read value) (a : α) :
    s.Verdict (value a) trees ((leaf s.names read a id trees).map value) := by
  have hitems : s.hasItems = false := by
    cases s with
    | args => contradiction
    | _ => rfl
  refine verdict_leaf s hitems hchecks a fun t _ _ => ?_
  rw [id, places_eq_nil_iff]
  constructor
  · rintro ⟨m, field, rest, rfl⟩
    exact .record hs
  · intro h
    cases h with
    | record => exact ⟨_, _, _, rfl⟩
    | item => exact absurd rfl (henv _)

/-- In a list the first item that is no text is to blame. -/
theorem find?_eq_some_iff_text {items : List Tree} : items.find? (fun t => (text? t).isNone) = some t ↔
    (∀ v, ¬Rule.text.Admits t v) ∧
      ∃ front back, items = front ++ t :: back ∧ ∀ t ∈ front, ∃ v, Rule.text.Admits t v := by
  rw [List.find?_eq_some_iff_append, Option.isNone_iff_eq_none, Rule.checks_text.eq_none_iff]
  simp only [Bool.not_eq_true', Option.isNone_eq_false_iff, Option.isSome_iff_ne_none, Rule.checks_text.ne_none_iff]

theorem places_culprit_eq_nil_iff {tool : Tool} (hread : texts? t = none) :
    places (culprit t) = [] ↔ (env tool).Hides t := by
  rcases t with _ | ⟨m, items⟩ | ⟨m, fields⟩
  · exact iff_of_false (List.cons_ne_nil _ _) nofun
  · obtain ⟨t, ht⟩ : ∃ t, items.find? (fun t => (text? t).isNone) = some t := by
      rw [← Option.isSome_iff_exists, List.find?_isSome]
      by_contra htexts
      simp only [not_exists, not_and, Option.isNone_iff_eq_none, Rule.checks_text.ne_none_iff] at htexts
      obtain ⟨v, hv⟩ := exists_admits_texts_iff.mpr htexts
      exact Rule.checks_texts.eq_none_iff.mp hread v hv
    rw [culprit, ht, Option.getD_some, places_eq_nil_iff]
    constructor
    · rintro ⟨m', field, rest, rfl⟩
      obtain ⟨-, front, back, rfl, hfront⟩ := find?_eq_some_iff_text.mp ht
      exact .item hfront
    · intro h
      cases h with
      | @item _ _ m' front back field rest hfront =>
        have hrefused : ∀ v, ¬Rule.text.Admits (.record m' (field :: rest)) v := fun _ => nofun
        have hrecord := find?_eq_some_iff_text.mpr ⟨hrefused, front, back, rfl, hfront⟩
        exact ⟨_, _, _, Option.some.inj (ht.symm.trans hrecord)⟩
  · show places (.record m fields) = [] ↔ _
    rw [places_eq_nil_iff]
    constructor
    · rintro ⟨_, field, rest, ⟨rfl, rfl⟩⟩
      exact .record rfl
    · intro h
      cases h with
      | record => exact ⟨_, _, _, rfl⟩

end Setting

end Leaves

/-! ### Documents setting by setting -/

/-- The draft that has all defaults. -/
def Draft.defaults : Draft := ⟨{}, (Config.killGrace {}).text⟩

namespace Setting

/-- The value of a setting as it is written in a draft. -/
def written (d : Draft) : Setting → Value
  | .killGrace => .text d.grace
  | s => s.get d.config

/-- What is read for a setting. -/
def check (fields : List (Label × Tree)) (s : Setting) : Checked Value :=
  match s with
  | .version => ⟨.number 0, versionConflicts (s.given fields), []⟩
  | .path tool => (commandPath s.names (path? tool) (tool.get {}).path (s.given fields)).map .text
  | .args tool => (commandArgs s.names (tool.get {}).args (s.given fields)).map .texts
  | .env tool => (leaf s.names texts? (tool.get {}).env culprit (s.given fields)).map .texts
  | .killGrace => (leaf s.names grace? (Config.killGrace {}).text id (s.given fields)).map .text
  | .strict => (leaf s.names flag? (Config.strict {}) id (s.given fields)).map .flag
  | .dir => (leaf s.names filled? (Config.output {}).dir id (s.given fields)).map .text
  | .table => (leaf s.names filled? (Config.output {}).table id (s.given fields)).map .text
  | .narrative => (leaf s.names filled? (Config.output {}).narrative id (s.given fields)).map .text
  | .bom => (leaf s.names text? (Config.output {}).bom id (s.given fields)).map .text
  | .verbose => (leaf s.names flag? (Config.logging {}).verbose id (s.given fields)).map .flag
  | .target => (leaf s.names filled? (Config.logging {}).target id (s.given fields)).map .text

/-- **Verdicts on settings**: every setting is read by the verdict on what is given for it. -/
theorem verdict_check (fields : List (Label × Tree)) (s : Setting) :
    s.Verdict (s.written .defaults) (s.given fields) (s.check fields) := by
  cases s with
  | version => exact verdict_version _
  | path tool => exact verdict_commandPath tool _ _
  | args tool => exact verdict_commandArgs tool _ _
  | env tool => exact verdict_leaf (env tool) rfl Rule.checks_texts _ fun t _ => places_culprit_eq_nil_iff
  | killGrace => exact verdict_leaf_id killGrace rfl nofun Rule.checks_grace _
  | strict => exact verdict_leaf_id strict rfl nofun Rule.checks_flag _
  | dir => exact verdict_leaf_id dir rfl nofun Rule.checks_filled _
  | table => exact verdict_leaf_id table rfl nofun Rule.checks_filled _
  | narrative => exact verdict_leaf_id narrative rfl nofun Rule.checks_filled _
  | bom => exact verdict_leaf_id bom rfl nofun Rule.checks_text _
  | verbose => exact verdict_leaf_id verbose rfl nofun Rule.checks_flag _
  | target => exact verdict_leaf_id target rfl nofun Rule.checks_filled _

end Setting

/-- The objections to what is given for a section. -/
def Section.conflicts (fields : List (Label × Tree)) (sec : Section) : List Issue :=
  sectionConflicts [lit sec.name] (given fields sec.name)

/-- Whether a setting is looked at: nothing but records is given for its section. -/
def Setting.isReached (fields : List (Label × Tree)) (s : Setting) : Bool :=
  match s.section? with
  | none => true
  | some sec => (sec.conflicts fields).isEmpty

/-- The fields of a document. -/
inductive Field where
  | group (sec : Section)
  | leaf (s : Setting)
  deriving DecidableEq

namespace Field

/-- All fields, in the order in which they are read. -/
def all : List Field :=
  .leaf .version ::
    ([Tool.analyzer, .preprocess, .cleanup, .wrapper].flatMap fun tool =>
      [.group (.command tool), .leaf (.path tool), .leaf (.args tool), .leaf (.env tool)]) ++
    [.leaf .killGrace, .group .classify, .leaf .strict, .group .output, .leaf .dir, .leaf .table, .leaf .narrative,
     .leaf .bom, .group .service, .leaf .verbose, .leaf .target]

theorem mem_all (f : Field) : f ∈ all := by
  rcases f with (tool | _ | _ | _) | (_ | tool | tool | tool | _ | _ | _ | _ | _ | _ | _ | _) <;>
    first | decide | (cases tool <;> decide)

/-- The names that lead to a field. -/
def names : Field → List Bytes
  | .group sec => [lit sec.name]
  | .leaf s => s.names

/-- The objections to a field. -/
def conflicts (fields : List (Label × Tree)) : Field → List Issue
  | .group sec => sec.conflicts fields
  | .leaf s => if s.isReached fields then (s.check fields).conflicts else []

end Field

section Sections

variable {α : Type} (sec : Section) {known : List String} {fallback : α} {read : List (Label × Tree) → Checked α}
  {fields : List (Label × Tree)}

theorem inSection_of_nil {sec : Section} (h : sec.conflicts fields = []) :
    inSection sec.name known fallback read fields =
      ⟨(read (sectionFields (given fields sec.name))).value, (read (sectionFields (given fields sec.name))).conflicts,
        unknownFields [lit sec.name] known (sectionFields (given fields sec.name)) ++
          (read (sectionFields (given fields sec.name))).unknown⟩ := by
  rw [Section.conflicts] at h
  simp only [inSection, h]

theorem inSection_of_ne_nil {sec : Section} (h : sec.conflicts fields ≠ []) :
    inSection sec.name known fallback read fields = ⟨fallback, sec.conflicts fields, []⟩ := by
  simp only [inSection]
  split
  · contradiction
  · rfl

/-- The objections to a section and to the settings in it. -/
theorem conflicts_inSection (settings : List Setting) (hsettings : ∀ s ∈ settings, s.section? = some sec)
    (hread : (read (sectionFields (given fields sec.name))).conflicts =
      settings.flatMap fun s => (s.check fields).conflicts) :
    (inSection sec.name known fallback read fields).conflicts =
      (.group sec :: settings.map .leaf).flatMap (Field.conflicts fields) := by
  have hleaf : ∀ s ∈ settings, Field.conflicts fields (.leaf s) =
      if (sec.conflicts fields).isEmpty then (s.check fields).conflicts else [] := by
    intro s hs
    rw [Field.conflicts, Setting.isReached, hsettings s hs]
  rw [List.flatMap_cons, List.flatMap_map, List.flatMap_congr hleaf]
  by_cases h : sec.conflicts fields = []
  · rw [inSection_of_nil h, Field.conflicts, h]
    exact hread
  · simp [inSection_of_ne_nil h, Field.conflicts, h]

end Sections

theorem conflicts_command (fields : List (Label × Tree)) (tool : Tool) :
    (command tool.name (Setting.path? tool) (tool.get {}) fields).conflicts =
      [.group (.command tool), .leaf (.path tool), .leaf (.args tool), .leaf (.env tool)].flatMap
        (Field.conflicts fields) := by
  unfold command
  refine conflicts_inSection (.command tool) [.path tool, .args tool, .env tool] (by simp [Setting.section?]) ?_
  simp only [List.flatMap_cons, List.flatMap_nil, List.append_nil, List.append_assoc]
  rfl

theorem conflicts_classification (fields : List (Label × Tree)) :
    (classification (Config.strict {}) fields).conflicts =
      [.group .classify, .leaf .strict].flatMap (Field.conflicts fields) := by
  unfold classification
  refine conflicts_inSection .classify [.strict] (by simp [Setting.section?]) ?_
  simp only [List.flatMap_cons, List.flatMap_nil, List.append_nil]
  rfl

theorem conflicts_outputNames (fields : List (Label × Tree)) :
    (outputNames (Config.output {}) fields).conflicts =
      [.group .output, .leaf .dir, .leaf .table, .leaf .narrative, .leaf .bom].flatMap (Field.conflicts fields) := by
  unfold outputNames
  refine conflicts_inSection .output [.dir, .table, .narrative, .bom] (by simp [Setting.section?]) ?_
  simp only [List.flatMap_cons, List.flatMap_nil, List.append_nil, List.append_assoc]
  rfl

theorem conflicts_loggingSettings (fields : List (Label × Tree)) :
    (loggingSettings (Config.logging {}) fields).conflicts =
      [.group .service, .leaf .verbose, .leaf .target].flatMap (Field.conflicts fields) := by
  unfold loggingSettings
  refine conflicts_inSection .service [.verbose, .target] (by simp [Setting.section?]) ?_
  simp only [List.flatMap_cons, List.flatMap_nil, List.append_nil]
  rfl

/-- **Objections to a document** are those to its fields. -/
theorem conflicts_draft (fields : List (Label × Tree)) :
    (draft fields).conflicts = Field.all.flatMap (Field.conflicts fields) := by
  have hdraft : (draft fields).conflicts = Field.conflicts fields (.leaf .version) ++
      (command Tool.analyzer.name (Setting.path? .analyzer) (Tool.analyzer.get {}) fields).conflicts ++
      (command Tool.preprocess.name (Setting.path? .preprocess) (Tool.preprocess.get {}) fields).conflicts ++
      (command Tool.cleanup.name (Setting.path? .cleanup) (Tool.cleanup.get {}) fields).conflicts ++
      (command Tool.wrapper.name (Setting.path? .wrapper) (Tool.wrapper.get {}) fields).conflicts ++
      Field.conflicts fields (.leaf .killGrace) ++ (classification (Config.strict {}) fields).conflicts ++
      (outputNames (Config.output {}) fields).conflicts ++ (loggingSettings (Config.logging {}) fields).conflicts := rfl
  rw [hdraft, conflicts_command, conflicts_command, conflicts_command, conflicts_command, conflicts_classification,
    conflicts_outputNames, conflicts_loggingSettings]
  simp only [Field.all, List.flatMap_cons, List.flatMap_nil, List.append_nil, List.append_assoc,
    List.cons_append, List.nil_append]

theorem get_draft (fields : List (Label × Tree)) (tool : Tool) :
    tool.get (draft fields).value.config = (command tool.name (Setting.path? tool) (tool.get {}) fields).value := by
  cases tool <;> rfl

/-- What is read for a setting that is looked at. -/
theorem written_draft {fields : List (Label × Tree)} {s : Setting} (h : s.isReached fields = true) :
    s.written (draft fields).value = (s.check fields).value := by
  have hsection {sec : Section} (hs : s.section? = some sec) : sec.conflicts fields = [] := by
    rw [Setting.isReached, hs] at h
    exact List.isEmpty_iff.mp h
  have hcommand {tool : Tool} (hs : s.section? = some (.command tool)) :
      tool.get (draft fields).value.config = ⟨(commandPath (Setting.path tool).names (Setting.path? tool)
          (tool.get {}).path ((Setting.path tool).given fields)).value,
        (commandArgs (Setting.args tool).names (tool.get {}).args ((Setting.args tool).given fields)).value,
        (leaf (Setting.env tool).names texts? (tool.get {}).env culprit ((Setting.env tool).given fields)).value⟩ :=
    (get_draft fields tool).trans (congrArg Checked.value (inSection_of_nil (hsection hs)))
  cases s with
  | version => rfl
  | killGrace => rfl
  | path tool => exact congrArg (fun c => Value.text c.path) (hcommand rfl)
  | args tool => exact congrArg (fun c => Value.texts c.args) (hcommand rfl)
  | env tool => exact congrArg (fun c => Value.texts c.env) (hcommand rfl)
  | strict =>
    show Value.flag (inSection Section.classify.name _ _ _ fields).value = _
    rw [inSection_of_nil (hsection rfl)]
    rfl
  | dir => exact congrArg (fun c : Checked OutputNames => Value.text c.value.dir) (inSection_of_nil (hsection rfl))
  | table => exact congrArg (fun c : Checked OutputNames => Value.text c.value.table) (inSection_of_nil (hsection rfl))
  | narrative =>
    exact congrArg (fun c : Checked OutputNames => Value.text c.value.narrative) (inSection_of_nil (hsection rfl))
  | bom => exact congrArg (fun c : Checked OutputNames => Value.text c.value.bom) (inSection_of_nil (hsection rfl))
  | verbose => exact congrArg (fun c : Checked Logging => Value.flag c.value.verbose) (inSection_of_nil (hsection rfl))
  | target => exact congrArg (fun c : Checked Logging => Value.text c.value.target) (inSection_of_nil (hsection rfl))

end CrateAudit.Config
