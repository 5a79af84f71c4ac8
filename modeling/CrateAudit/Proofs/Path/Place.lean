import CrateAudit.Proofs.Path
import Mathlib.Data.List.TakeWhile

/-!
# The places that paths name

A path is followed element by element: a name leads down, `..` leads back, `.` and a doubled separator lead
nowhere. As long as there are no symbolic links, where it comes to is a place below the root, or a place that is
reached from the current directory by going up some steps and then down by names (`Place`). `Place.Leads` says so
without cleaning anything.

Cleaning a path writes down its place (`clean_of_leads`), and different places are written differently
(`Place.text_inj`). Main results: `clean_eq_clean_iff`, and `join_eq_join_iff` for paths below a directory.
-/

namespace CrateAudit.Path

open Bytes

/-! ### Paths and their elements -/

theorem elements_cons_slash (rest : Bytes) : elements (slash :: rest) = elements rest := elements_append_slash [] rest

/-- The first element of a path. -/
theorem elements_append {e rest : Bytes} (hne : e ≠ []) (hfree : slash ∉ e)
    (hend : rest = [] ∨ rest.head? = some slash) : elements (e ++ rest) = e :: elements rest := by
  have he : elements e = [e] := by simp [elements, pieces_of_not_mem hfree, hne]
  obtain rfl | hhead := hend
  · rw [List.append_nil, he]
    rfl
  · obtain ⟨rest, rfl⟩ := List.head?_eq_some_iff.mp hhead
    rw [elements_append_slash, he, elements_cons_slash, List.singleton_append]

/-- A path is empty, or it begins with a separator or with an element. -/
theorem cases_first_element (path : Bytes) :
    path = [] ∨ (∃ rest, path = slash :: rest) ∨
      ∃ e rest, path = e ++ rest ∧ e ≠ [] ∧ slash ∉ e ∧ (rest = [] ∨ rest.head? = some slash) := by
  cases path with
  | nil => exact .inl rfl
  | cons b path =>
    by_cases hb : b = slash
    · exact .inr (.inl ⟨path, by rw [hb]⟩)
    · refine .inr (.inr ⟨(b :: path).takeWhile (· ≠ slash), (b :: path).dropWhile (· ≠ slash),
        List.takeWhile_append_dropWhile.symm, by simp [hb], ?_, ?_⟩)
      · intro hmem
        simpa using List.mem_takeWhile_imp hmem
      · have hhead := List.head?_dropWhile_not (· ≠ slash) (b :: path)
        cases hrest : (b :: path).dropWhile (· ≠ slash) with
        | nil => exact .inl rfl
        | cons c rest =>
          rw [hrest] at hhead
          exact .inr (by simpa using hhead)

theorem flatMap_eq_nil_or_head? (es : List Bytes) :
    es.flatMap (slash :: ·) = [] ∨ (es.flatMap (slash :: ·)).head? = some slash := by
  cases es with
  | nil => exact .inl rfl
  | cons e es => exact .inr rfl

theorem elements_flatMap {es : List Bytes} (h : ∀ e ∈ es, e ≠ [] ∧ slash ∉ e) :
    elements (es.flatMap (slash :: ·)) = es := by
  induction es with
  | nil => rfl
  | cons e es ih =>
    obtain ⟨⟨hne, hfree⟩, hes⟩ := List.forall_mem_cons.mp h
    rw [List.flatMap_cons, List.cons_append, elements_cons_slash,
      elements_append hne hfree (flatMap_eq_nil_or_head? es), ih hes]

/-- The elements of a path are found again. -/
theorem elements_intercalate {es : List Bytes} (h : ∀ e ∈ es, e ≠ [] ∧ slash ∉ e) :
    elements ([slash].intercalate es) = es := by
  cases es with
  | nil => rfl
  | cons e es =>
    have hpath : (e :: es).flatMap (slash :: ·) = slash :: [slash].intercalate (e :: es) :=
      congrArg (slash :: ·) (intercalate_append_cons slash [] e es).symm
    rw [← elements_cons_slash, ← hpath, elements_flatMap h]

theorem isRooted_ofElements (rooted : Bool) {es : List Bytes} (h : ∀ e ∈ es, e ≠ [] ∧ slash ∉ e) :
    isRooted (ofElements rooted es) = rooted := by
  cases rooted with
  | true => rfl
  | false =>
    cases es with
    | nil => rfl
    | cons e es =>
      obtain ⟨hne, hfree⟩ := h e List.mem_cons_self
      have hpath : ofElements false (e :: es) = e ++ es.flatMap (slash :: ·) := intercalate_append_cons slash [] e es
      refine decide_eq_false fun hhead => ?_
      rw [hpath, List.head?_append_of_ne_nil _ hne] at hhead
      exact hfree (List.mem_of_head? hhead)

theorem elements_ofElements (rooted : Bool) {es : List Bytes} (h : ∀ e ∈ es, e ≠ [] ∧ slash ∉ e) :
    elements (ofElements rooted es) = if rooted = false ∧ es = [] then [lit "."] else es := by
  cases rooted with
  | true =>
    have hpath : ofElements true es = slash :: [slash].intercalate es := rfl
    rw [hpath, elements_cons_slash, elements_intercalate h, if_neg (by simp)]
  | false =>
    by_cases hes : es = []
    · rw [hes]
      decide
    · have hpath : ofElements false es = [slash].intercalate es := by simp [ofElements, hes]
      rw [hpath, elements_intercalate h, if_neg (by simp [hes])]

/-- Elements that lead somewhere else are written differently. -/
theorem ofElements_inj {rooted rooted' : Bool} {es es' : List Bytes}
    (h : ∀ e ∈ es, e ≠ [] ∧ slash ∉ e ∧ e ≠ lit ".") (h' : ∀ e ∈ es', e ≠ [] ∧ slash ∉ e ∧ e ≠ lit ".")
    (heq : ofElements rooted es = ofElements rooted' es') : rooted = rooted' ∧ es = es' := by
  have hes : ∀ e ∈ es, e ≠ [] ∧ slash ∉ e := fun e he => ⟨(h e he).1, (h e he).2.1⟩
  have hes' : ∀ e ∈ es', e ≠ [] ∧ slash ∉ e := fun e he => ⟨(h' e he).1, (h' e he).2.1⟩
  have hrooted := congrArg isRooted heq
  have helements := congrArg elements heq
  rw [isRooted_ofElements _ hes, isRooted_ofElements _ hes'] at hrooted
  rw [elements_ofElements _ hes, elements_ofElements _ hes', hrooted] at helements
  refine ⟨hrooted, ?_⟩
  -- a dot stands for no elements, and is none of them
  split_ifs at helements with hnil hnil' hnil'
  · rw [hnil.2, hnil'.2]
  · exact absurd rfl (h' (lit ".") (helements ▸ List.mem_singleton_self _)).2.2
  · exact absurd rfl (h (lit ".") (helements ▸ List.mem_singleton_self _)).2.2
  · exact helements

/-! ### Places -/

/-- A name, which leads from a directory to something in it. -/
@[ext] structure Name where
  bytes : Bytes
  ne_nil : bytes ≠ []
  slash_not_mem : slash ∉ bytes
  ne_dot : bytes ≠ lit "."
  ne_up : bytes ≠ lit ".."

/-- A place that is reached by names from the root, or from some steps above the current directory. -/
inductive Place where
  | absolute (names : List Name)
  | relative (ups : ℕ) (names : List Name)

namespace Place

variable {p q q' : Place} {e path rest : Bytes}

/-- Whether a place is reached from the root. -/
def rooted : Place → Bool
  | absolute _ => true
  | relative _ _ => false

/-- The place of a name in a directory. -/
def below : Place → Name → Place
  | absolute names, name => absolute (names ++ [name])
  | relative ups names, name => relative ups (names ++ [name])

/-- How an element of a path leads on. There is nothing above the root. -/
inductive Step : Place → Bytes → Place → Prop
  | stay (p : Place) : Step p (lit ".") p
  | down (p : Place) (name : Name) : Step p name.bytes (p.below name)
  | back (p : Place) (name : Name) : Step (p.below name) (lit "..") p
  | top : Step (absolute []) (lit "..") (absolute [])
  | up (ups : ℕ) : Step (relative ups []) (lit "..") (relative (ups + 1) [])

/-- How a path leads on from a place. -/
inductive Leads : Place → Bytes → Place → Prop
  | done (p : Place) : Leads p [] p
  | skip {p q : Place} {rest : Bytes} (h : Leads p rest q) : Leads p (slash :: rest) q
  | step {p q r : Place} {e rest : Bytes} (hne : e ≠ []) (hfree : slash ∉ e)
      (hend : rest = [] ∨ rest.head? = some slash) (hstep : Step p e q) (h : Leads q rest r) : Leads p (e ++ rest) r

/-- Where a path starts. -/
def start (path : Bytes) : Place := if path.head? = some slash then absolute [] else relative 0 []

/-! ### Every path leads to a place -/

theorem cases_below (p : Place) : p = absolute [] ∨ (∃ ups, p = relative ups []) ∨ ∃ p' name, p = below p' name := by
  obtain names | ⟨ups, names⟩ := p <;> obtain rfl | ⟨names, name, rfl⟩ := List.eq_nil_or_concat names
  · exact .inl rfl
  · exact .inr (.inr ⟨absolute names, name, by rw [below, List.concat_eq_append]⟩)
  · exact .inr (.inl ⟨ups, rfl⟩)
  · exact .inr (.inr ⟨relative ups names, name, by rw [below, List.concat_eq_append]⟩)

theorem exists_step (p : Place) (hne : e ≠ []) (hfree : slash ∉ e) : ∃ q, Step p e q := by
  by_cases hdot : e = lit "."
  · exact ⟨p, hdot ▸ .stay p⟩
  by_cases hup : e = lit ".."
  · subst hup
    obtain rfl | ⟨ups, rfl⟩ | ⟨p, name, rfl⟩ := cases_below p
    · exact ⟨_, .top⟩
    · exact ⟨_, .up ups⟩
    · exact ⟨_, .back p name⟩
  · exact ⟨_, .down p ⟨e, hne, hfree, hdot, hup⟩⟩

theorem exists_leads (p : Place) (path : Bytes) : ∃ q, Leads p path q := by
  induction hlength : path.length using Nat.strongRecOn generalizing p path with
  | _ n ih =>
    obtain rfl | ⟨rest, rfl⟩ | ⟨e, rest, rfl, hne, hfree, hend⟩ := cases_first_element path
    · exact ⟨p, .done p⟩
    · obtain ⟨q, hq⟩ := ih rest.length (by simp [← hlength]) p rest rfl
      exact ⟨q, .skip hq⟩
    · have hlt : rest.length < n := by
        have hpos := List.length_pos_iff.mpr hne
        rw [List.length_append] at hlength
        omega
      obtain ⟨q, hq⟩ := exists_step p hne hfree
      obtain ⟨r, hr⟩ := ih rest.length hlt q rest rfl
      exact ⟨r, .step hne hfree hend hq hr⟩

/-! ### The elements that lead to a place -/

/-- The elements of the shortest path to a place. -/
def elements : Place → List Bytes
  | absolute names => names.map (·.bytes)
  | relative ups names => List.replicate ups (lit "..") ++ names.map (·.bytes)

theorem elements_below (p : Place) (name : Name) : (p.below name).elements = p.elements ++ [name.bytes] := by
  cases p <;> simp [below, elements]

@[simp] theorem rooted_below (p : Place) (name : Name) : (p.below name).rooted = p.rooted := by
  cases p <;> rfl

theorem of_mem_elements (h : e ∈ p.elements) : e ≠ [] ∧ slash ∉ e ∧ e ≠ lit "." := by
  have hname : ∀ names : List Name, e ∈ names.map (·.bytes) → e ≠ [] ∧ slash ∉ e ∧ e ≠ lit "." := by
    intro names he
    obtain ⟨name, -, rfl⟩ := List.mem_map.mp he
    exact ⟨name.ne_nil, name.slash_not_mem, name.ne_dot⟩
  cases p with
  | absolute names => exact hname names h
  | relative ups names =>
    obtain he | he := List.mem_append.mp h
    · rw [List.eq_of_mem_replicate he]
      decide
    · exact hname names he

theorem map_bytes_injective : Function.Injective (List.map Name.bytes) :=
  List.map_injective_iff.mpr fun _ _ => Name.ext

/-- The names begin where the steps up are over. -/
theorem replicate_append_inj {m n : ℕ} {names names' : List Name}
    (h : List.replicate m (lit "..") ++ names.map (·.bytes) = List.replicate n (lit "..") ++ names'.map (·.bytes)) :
    m = n ∧ names = names' := by
  have hno : ∀ (n : ℕ) (names names' : List Name),
      names.map (·.bytes) ≠ List.replicate (n + 1) (lit "..") ++ names'.map (·.bytes) := by
    intro n names names' heq
    rw [List.replicate_succ, List.cons_append] at heq
    obtain ⟨name, _, -, hname, -⟩ := List.map_eq_cons_iff.mp heq
    exact name.ne_up hname
  induction m generalizing n with
  | zero =>
    cases n with
    | zero => exact ⟨rfl, map_bytes_injective h⟩
    | succ n => exact absurd h (hno n names names')
  | succ m ih =>
    cases n with
    | zero => exact absurd h.symm (hno m names' names)
    | succ n =>
      rw [List.replicate_succ, List.replicate_succ, List.cons_append, List.cons_append] at h
      obtain ⟨rfl, hnames⟩ := ih (List.cons.inj h).2
      exact ⟨rfl, hnames⟩

theorem elements_inj (hrooted : p.rooted = q.rooted) (h : p.elements = q.elements) : p = q := by
  cases p with
  | absolute names =>
    cases q with
    | absolute names' => rw [map_bytes_injective h]
    | relative ups' names' => contradiction
  | relative ups names =>
    cases q with
    | absolute names' => contradiction
    | relative ups' names' =>
      obtain ⟨rfl, rfl⟩ := replicate_append_inj h
      rfl

/-! ### Cleaning goes the same way -/

theorem walk_name (rooted : Bool) (seen : List Bytes) (name : Name) :
    walk rooted seen name.bytes = name.bytes :: seen := by
  unfold walk
  rw [if_neg name.ne_dot, if_neg name.ne_up]

theorem walk_up_cons (rooted : Bool) (last : Bytes) (before : List Bytes) :
    walk rooted (last :: before) (lit "..") = if last = lit ".." then lit ".." :: last :: before else before := rfl

theorem walk_of_step (h : Step p e q) :
    walk p.rooted p.elements.reverse e = q.elements.reverse ∧ p.rooted = q.rooted := by
  cases h with
  | stay => exact ⟨rfl, rfl⟩
  | down _ name =>
    rw [walk_name, elements_below, List.reverse_append]
    exact ⟨rfl, (rooted_below p name).symm⟩
  | back _ name =>
    rw [elements_below, List.reverse_append, List.reverse_singleton, List.singleton_append, walk_up_cons,
      if_neg name.ne_up]
    exact ⟨rfl, rooted_below q name⟩
  | top => exact ⟨rfl, rfl⟩
  | up ups =>
    have hups : ∀ n, (relative n []).elements.reverse = List.replicate n (lit "..") := by simp [elements]
    rw [hups, hups]
    cases ups with
    | zero => exact ⟨rfl, rfl⟩
    | succ ups => exact ⟨rfl, rfl⟩

theorem foldl_walk_of_leads (h : Leads p path q) :
    (Path.elements path).foldl (walk p.rooted) p.elements.reverse = q.elements.reverse ∧ p.rooted = q.rooted := by
  induction h with
  | done p => exact ⟨rfl, rfl⟩
  | @skip p q rest _ ih =>
    rw [elements_cons_slash]
    exact ih
  | @step p q r e rest hne hfree hend hstep _ ih =>
    obtain ⟨hwalk, hrooted⟩ := walk_of_step hstep
    rw [elements_append hne hfree hend, List.foldl_cons, hwalk, hrooted]
    exact ih

/-- A path leads to one place. -/
theorem Leads.eq (h : Leads p path q) (h' : Leads p path q') : q = q' := by
  obtain ⟨hwalk, hrooted⟩ := foldl_walk_of_leads h
  obtain ⟨hwalk', hrooted'⟩ := foldl_walk_of_leads h'
  exact elements_inj (hrooted.symm.trans hrooted') (List.reverse_injective (hwalk.symm.trans hwalk'))

/-- A path with a separator in it is followed to the separator, and then on. -/
theorem leads_append_slash {front back : Bytes} :
    Leads p (front ++ slash :: back) q ↔ ∃ mid, Leads p front mid ∧ Leads mid back q := by
  have happend : ∀ {p mid q : Place} {front : Bytes}, Leads p front mid → Leads mid back q →
      Leads p (front ++ slash :: back) q := by
    intro p mid q front hfront hback
    induction hfront with
    | done p => exact .skip hback
    | skip _ ih => exact .skip (ih hback)
    | @step _ _ _ e rest hne hfree hend hstep _ ih =>
      rw [List.append_assoc]
      refine .step hne hfree (.inr ?_) hstep (ih hback)
      obtain rfl | hhead := hend
      · rfl
      · rw [List.head?_append, hhead]
        rfl
  constructor
  · -- there is a way in two parts, and no other place for it to lead to
    intro h
    obtain ⟨mid, hmid⟩ := exists_leads p front
    obtain ⟨q', hq'⟩ := exists_leads mid back
    exact ⟨mid, hmid, h.eq (happend hmid hq') ▸ hq'⟩
  · rintro ⟨mid, hmid, hback⟩
    exact happend hmid hback

/-! ### How places are written -/

/-- The shortest path to a place. -/
def text (p : Place) : Bytes := ofElements p.rooted p.elements

theorem text_inj (h : p.text = q.text) : p = q := by
  obtain ⟨hrooted, helements⟩ := ofElements_inj (fun _ => of_mem_elements) (fun _ => of_mem_elements) h
  exact elements_inj hrooted helements

theorem rooted_start (path : Bytes) : (start path).rooted = isRooted path := by
  unfold start isRooted
  split_ifs with hhead <;> simp [rooted, hhead]

theorem elements_start (path : Bytes) : (start path).elements = [] := by
  unfold start
  split_ifs <;> rfl

end Place

open Place

variable {path path' dir : Bytes} {q : Place}

theorem clean_of_leads (h : Leads (start path) path q) : clean path = q.text := by
  obtain ⟨hwalk, hrooted⟩ := foldl_walk_of_leads h
  rw [elements_start, rooted_start] at hwalk
  rw [rooted_start] at hrooted
  calc clean path
      = ofElements (isRooted path) ((elements path).foldl (walk (isRooted path)) []).reverse := rfl
    _ = ofElements q.rooted q.elements.reverse.reverse := by rw [← hwalk, hrooted]; rfl
    _ = q.text := by rw [List.reverse_reverse, text]

/-- **Clean paths** are the same exactly if the paths lead to the same place. -/
theorem clean_eq_clean_iff :
    clean path = clean path' ↔ ∃ q, Leads (start path) path q ∧ Leads (start path') path' q := by
  constructor
  · intro heq
    obtain ⟨q, hq⟩ := exists_leads (start path) path
    obtain ⟨q', hq'⟩ := exists_leads (start path') path'
    rw [clean_of_leads hq, clean_of_leads hq'] at heq
    obtain rfl := text_inj heq
    exact ⟨q, hq, hq'⟩
  · rintro ⟨q, hq, hq'⟩
    rw [clean_of_leads hq, clean_of_leads hq']

/-! ### Paths below a directory -/

/-- Where a path leads below a directory: it goes on from where the directory is. Without a directory the path starts
by itself. -/
def Place.LeadsBelow (dir path : Bytes) (q : Place) : Prop :=
  (dir = [] ∧ Leads (start path) path q) ∨ (dir ≠ [] ∧ ∃ p, Leads (start dir) dir p ∧ Leads p path q)

/-- Joined paths are the same exactly if they lead to the same place. -/
theorem join_eq_join_iff (hne : path ≠ []) (hne' : path' ≠ []) :
    join dir path = join dir path' ↔ ∃ q, LeadsBelow dir path q ∧ LeadsBelow dir path' q := by
  obtain rfl | hdir := eq_or_ne dir []
  · have hjoin : ∀ {path : Bytes}, path ≠ [] → join [] path = clean path := by
      intro path hne
      simp [join, hne]
    simp only [hjoin hne, hjoin hne', clean_eq_clean_iff, LeadsBelow, true_and, ne_eq, not_true_eq_false, false_and,
      or_false]
  · have hjoin : ∀ path, join dir path = clean (dir ++ slash :: path) := by
      intro path
      simp [join, hdir]
    have hstart : ∀ path, start (dir ++ slash :: path) = start dir := by
      intro path
      rw [start, start, List.head?_append_of_ne_nil _ hdir]
    simp only [hjoin, clean_eq_clean_iff, hstart, leads_append_slash, LeadsBelow, hdir, false_and, false_or, ne_eq,
      not_false_eq_true, true_and]

/-! ### Plain paths -/

/-- A path that is made of names, with one separator between two of them. -/
def IsPlain (path : Bytes) : Prop := ∃ names : List Name, names ≠ [] ∧ path = [slash].intercalate (names.map (·.bytes))

namespace Place

variable {p : Place}

theorem elements_foldl_below (p : Place) (names : List Name) :
    (names.foldl below p).elements = p.elements ++ names.map (·.bytes) := by
  induction names generalizing p with
  | nil => simp
  | cons name names ih =>
    rw [List.foldl_cons, ih, elements_below, List.append_assoc, List.singleton_append, List.map_cons]

theorem leads_cons_slash {rest : Bytes} : Leads p (slash :: rest) q ↔ Leads p rest q := by
  refine ⟨fun h => ?_, .skip⟩
  obtain ⟨q', hq'⟩ := exists_leads p rest
  exact h.eq (.skip hq') ▸ hq'

theorem leads_flatMap (p : Place) (names : List Name) :
    Leads p ((names.map (·.bytes)).flatMap (slash :: ·)) (names.foldl below p) := by
  induction names generalizing p with
  | nil => exact .done p
  | cons name names ih =>
    exact .skip (.step name.ne_nil name.slash_not_mem (flatMap_eq_nil_or_head? _) (.down p name) (ih _))

/-- A plain path leads down by its names. -/
theorem leads_intercalate (p : Place) {names : List Name} (hne : names ≠ []) :
    Leads p ([slash].intercalate (names.map (·.bytes))) (names.foldl below p) := by
  have hpath : (names.map (·.bytes)).flatMap (slash :: ·) = slash :: [slash].intercalate (names.map (·.bytes)) := by
    cases names with
    | nil => exact absurd rfl hne
    | cons name names => exact congrArg (slash :: ·) (intercalate_append_cons slash [] _ _).symm
  rw [← leads_cons_slash, ← hpath]
  exact leads_flatMap p names

end Place

theorem IsPlain.start_eq (h : IsPlain path) : start path = relative 0 [] := by
  obtain ⟨names, hne, rfl⟩ := h
  have hnames : ∀ e ∈ names.map (·.bytes), e ≠ [] ∧ slash ∉ e := by
    simp only [List.forall_mem_map]
    exact fun name _ => ⟨name.ne_nil, name.slash_not_mem⟩
  have hrooted := isRooted_ofElements false hnames
  have hpath : ofElements false (names.map (·.bytes)) = [slash].intercalate (names.map (·.bytes)) := by
    simp [ofElements, hne]
  rw [hpath, isRooted, decide_eq_false_iff_not] at hrooted
  rw [start, if_neg hrooted]

/-- Different plain paths lead to different places. -/
theorem IsPlain.eq_of_leads {p : Place} (h : IsPlain path) (h' : IsPlain path') (hq : Leads p path q)
    (hq' : Leads p path' q) : path = path' := by
  obtain ⟨names, hne, rfl⟩ := h
  obtain ⟨names', hne', rfl⟩ := h'
  have hplace : names.foldl below p = names'.foldl below p :=
    ((leads_intercalate p hne).eq hq).trans (hq'.eq (leads_intercalate p hne'))
  have helements := congrArg Place.elements hplace
  rw [elements_foldl_below, elements_foldl_below] at helements
  rw [List.append_cancel_left helements]

theorem IsPlain.eq_of_leadsBelow (h : IsPlain path) (h' : IsPlain path') (hq : LeadsBelow dir path q)
    (hq' : LeadsBelow dir path' q) : path = path' := by
  obtain ⟨hdir, hq⟩ | ⟨hdir, p, hp, hq⟩ := hq <;> obtain ⟨hdir', hq'⟩ | ⟨hdir', p', hp', hq'⟩ := hq'
  · rw [h.start_eq] at hq
    rw [h'.start_eq] at hq'
    exact h.eq_of_leads h' hq hq'
  · exact absurd hdir hdir'
  · exact absurd hdir' hdir
  · obtain rfl := hp.eq hp'
    exact h.eq_of_leads h' hq hq'

end CrateAudit.Path
