import CrateAudit.Proofs.Bytes.Space

/-!
# Texts without the white space around them

Trimming drops white space from the front of a text, and then from its end, which is read backwards. What is
left can be said without reading at all (`Trims`): it neither starts nor ends with white space, and nothing but
white space stands around it. Every text has such a core (`exists_trims`), and trimming finds it (`trim_eq_iff`).
-/

namespace CrateAudit.Bytes

variable {bs front back word rest s : Bytes}

/-- White space, and nothing else. -/
def Blank (bs : Bytes) : Prop := ∃ ss : List Bytes, (∀ s ∈ ss, s ∈ spaces) ∧ bs = ss.flatten

/-- A text that neither starts nor ends with white space. -/
def Bare (bs : Bytes) : Prop := ∀ s ∈ spaces, ¬ s <+: bs ∧ ¬ s <:+ bs

/-- What is left of a text without the white space around it. -/
def Trims (bs word : Bytes) : Prop :=
  Bare word ∧ ∃ front back, Blank front ∧ Blank back ∧ bs = front ++ word ++ back

/-! ### Every text has a core -/

theorem blank_nil : Blank [] := ⟨[], fun _ => (absurd · List.not_mem_nil), rfl⟩

theorem Blank.append (hfront : Blank front) (hback : Blank back) : Blank (front ++ back) := by
  obtain ⟨ss, hss, rfl⟩ := hfront
  obtain ⟨ts, hts, rfl⟩ := hback
  exact ⟨ss ++ ts, List.forall_mem_append.mpr ⟨hss, hts⟩, List.flatten_append.symm⟩

theorem blank_of_mem_spaces (hs : s ∈ spaces) : Blank s :=
  ⟨[s], List.forall_mem_singleton.mpr hs, (List.append_nil s).symm⟩

theorem bare_of_spaceless (h : Spaceless bs) : Bare bs :=
  fun s hs => ⟨fun hstarts => h s hs hstarts.isInfix, fun hends => h s hs hends.isInfix⟩

theorem trims_self (h : Bare bs) : Trims bs bs := ⟨h, [], [], blank_nil, blank_nil, (List.append_nil bs).symm⟩

/-- White space around a text does not change its core. -/
theorem Trims.append (h : Trims bs word) (hfront : Blank front) (hback : Blank back) :
    Trims (front ++ bs ++ back) word := by
  obtain ⟨hbare, front', back', hfront', hback', rfl⟩ := h
  refine ⟨hbare, front ++ front', back' ++ back, hfront.append hfront', hback'.append hback, ?_⟩
  simp only [List.append_assoc]

theorem exists_trims (bs : Bytes) : ∃ word, Trims bs word := by
  -- as long as there is white space at one of the ends, it is cut off
  induction hn : bs.length using Nat.strongRecOn generalizing bs with
  | ind n ih =>
    subst hn
    by_cases hbare : Bare bs
    · exact ⟨bs, trims_self hbare⟩
    · obtain ⟨s, hs, hedge⟩ : ∃ s ∈ spaces, s <+: bs ∨ s <:+ bs := by
        by_contra hnone
        refine hbare fun s hs => ⟨fun hstarts => hnone ⟨s, hs, .inl hstarts⟩, fun hends => hnone ⟨s, hs, .inr hends⟩⟩
      have hpos := List.length_pos_iff.mpr (ne_nil_of_mem_spaces hs)
      obtain ⟨rest, rfl⟩ | ⟨rest, rfl⟩ := hedge
      · obtain ⟨word, hword⟩ := ih rest.length (by rw [List.length_append]; omega) rest rfl
        have htrims := hword.append (blank_of_mem_spaces hs) blank_nil
        rw [List.append_nil] at htrims
        exact ⟨word, htrims⟩
      · obtain ⟨word, hword⟩ := ih rest.length (by rw [List.length_append]; omega) rest rfl
        exact ⟨word, hword.append blank_nil (blank_of_mem_spaces hs)⟩

/-! ### White space from behind -/

/-- Read backwards, no encoding of white space starts another one either. -/
theorem reversed_spaces_spec : ∀ s ∈ spaces.map List.reverse,
    s ≠ [] ∧ (∀ t ∈ spaces.map List.reverse, s <+: t → s = t) ∧
      (s.head?.any isAsciiSpace = true ∨ s.head?.any (0x80 ≤ ·) = true ∧ s ∈ wideSpaces.map List.reverse) := by
  decide +kernel

theorem isSpaceCode_reversed : IsSpaceCode (wideSpaces.map List.reverse) (spaces.map List.reverse) where
  subset := List.map_subset _ (List.subset_append_right _ _)
  ascii h := List.mem_map_of_mem (singleton_mem_spaces_of_isAsciiSpace h)
  ne_nil hs := (reversed_spaces_spec _ hs).1
  eq_of_isPrefix hs ht := (reversed_spaces_spec _ hs).2.1 _ ht
  ascii_or_wide hs := by
    have hhead := (reversed_spaces_spec _ hs).2.2
    rwa [List.head?_cons, Option.any_some, Option.any_some, decide_eq_true_eq] at hhead

theorem trailingSpace_eq (bs : Bytes) : trailingSpace bs = startingSpace (wideSpaces.map List.reverse) bs := by
  cases bs with
  | nil => rfl
  | cons b rest =>
    simp only [trailingSpace, startingSpace, List.find?_map, Function.comp_def]
    cases wideSpaces.find? fun s => s.reverse.isPrefixOf (b :: rest) with
    | none => rfl
    | some s => simp only [Option.map_some, List.length_reverse]

theorem trailingSpace_append_reverse (hs : s ∈ spaces) (rest : Bytes) :
    trailingSpace (s.reverse ++ rest) = s.length := by
  rw [trailingSpace_eq, isSpaceCode_reversed.startingSpace_eq (List.mem_map_of_mem hs) (List.prefix_append _ rest),
    List.length_reverse]

theorem trailingSpace_reverse_eq_zero (h : Bare bs) : trailingSpace bs.reverse = 0 := by
  by_contra hne
  rw [trailingSpace_eq] at hne
  obtain ⟨t, ht, hstarts, -⟩ := isSpaceCode_reversed.exists_of_startingSpace_ne_zero hne
  obtain ⟨s, hs, rfl⟩ := List.mem_map.mp ht
  exact (h s hs).2 (List.reverse_prefix.mp hstarts)

/-! ### Trimming finds the core -/

section Dropping

variable {space : Bytes → Nat}

theorem dropSpaces_skip (skip : Nat) (bs : Bytes) : dropSpaces space skip bs = dropSpaces space 0 (bs.drop skip) := by
  induction bs generalizing skip with
  | nil => cases skip <;> rfl
  | cons b rest ih =>
    cases skip with
    | zero => rfl
    | succ skip => exact ih skip

theorem dropSpaces_of_eq_zero (h : space bs = 0) : dropSpaces space 0 bs = bs := by
  cases bs with
  | nil => rfl
  | cons b rest => simp only [dropSpaces, h]

theorem dropSpaces_append (hne : s ≠ []) (h : space (s ++ rest) = s.length) :
    dropSpaces space 0 (s ++ rest) = dropSpaces space 0 rest := by
  obtain ⟨b, t, rfl⟩ := List.exists_cons_of_ne_nil hne
  rw [List.cons_append, List.length_cons] at h
  simp only [List.cons_append, dropSpaces, h]
  rw [dropSpaces_skip, List.drop_left]

end Dropping

theorem dropSpaces_leading (h : Blank front) (rest : Bytes) :
    dropSpaces leadingSpace 0 (front ++ rest) = dropSpaces leadingSpace 0 rest := by
  obtain ⟨ss, hss, rfl⟩ := h
  induction ss with
  | nil => rfl
  | cons s ss ih =>
    rw [List.forall_mem_cons] at hss
    rw [List.flatten_cons, List.append_assoc, dropSpaces_append (ne_nil_of_mem_spaces hss.1), ih hss.2]
    exact leadingSpace_of_isPrefix hss.1 (List.prefix_append _ _)

theorem dropSpaces_trailing (h : Blank back) (rest : Bytes) :
    dropSpaces trailingSpace 0 (back.reverse ++ rest) = dropSpaces trailingSpace 0 rest := by
  obtain ⟨ss, hss, rfl⟩ := h
  induction ss generalizing rest with
  | nil => rfl
  | cons s ss ih =>
    rw [List.forall_mem_cons] at hss
    have hne : s.reverse ≠ [] := mt List.reverse_eq_nil_iff.mp (ne_nil_of_mem_spaces hss.1)
    rw [List.flatten_cons, List.reverse_append, List.append_assoc, ih _ hss.2, dropSpaces_append hne]
    rw [trailingSpace_append_reverse hss.1, List.length_reverse]

/-- The white space behind a core does not go on with its last bytes. -/
theorem leadingSpace_bare_append (hbare : Bare word) (hne : word ≠ []) (hback : Blank back) :
    leadingSpace (word ++ back) = 0 := by
  have hinner : ∀ b ∈ back.head?, isInner b = false := by
    obtain ⟨ss, hss, rfl⟩ := hback
    rcases ss with - | ⟨s, ss⟩
    · exact fun b hb => absurd hb (Option.not_mem_none b)
    · rw [List.flatten_cons, List.head?_append_of_ne_nil _ (ne_nil_of_mem_spaces (hss s List.mem_cons_self))]
      exact fun b hb => isInner_head_of_mem_spaces (hss s List.mem_cons_self) hb
  rw [leadingSpace_append hne hinner, leadingSpace_eq_zero_iff]
  exact fun s hs => (hbare s hs).1

theorem trim_of_trims (h : Trims bs word) : trim bs = word := by
  obtain ⟨hbare, front, back, hfront, hback, rfl⟩ := h
  rw [trim, List.append_assoc, dropSpaces_leading hfront]
  by_cases hne : word = []
  · subst hne
    have hdropped := dropSpaces_leading hback []
    rw [List.append_nil] at hdropped
    rw [List.nil_append, hdropped]
    rfl
  · rw [dropSpaces_of_eq_zero (leadingSpace_bare_append hbare hne hback), List.reverse_append,
      dropSpaces_trailing hback, dropSpaces_of_eq_zero (trailingSpace_reverse_eq_zero hbare), List.reverse_reverse]

/-- **Trimming** a text gives its core. -/
theorem trim_eq_iff : trim bs = word ↔ Trims bs word := by
  refine ⟨?_, trim_of_trims⟩
  rintro rfl
  obtain ⟨word, hword⟩ := exists_trims bs
  rwa [trim_of_trims hword]

end CrateAudit.Bytes
