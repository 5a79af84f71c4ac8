import CrateAudit.Bytes.Space
import Mathlib.Data.List.Basic
import Mathlib.Data.List.Infix

/-!
# White space and words

The reader of words looks for white space from left to right, by the bytes alone. What it finds are the
encodings of white-space characters (`spaces`), and since no encoding starts inside another one, it finds
all of them: a text that ends in white space can be cut off without changing the words of either part
(`fields_append`). So the words behind the last white space of a text start with what stands there, the
*last word* of the text (`LastWord`), which every text has (`exists_lastWord`).
-/

namespace CrateAudit.Bytes

variable {bs front word rest s t : Bytes}

/-! ### The encodings of white space -/

/-- The white-space characters, each in its encoding. -/
def spaces : List Bytes := [[0x09], [0x0a], [0x0b], [0x0c], [0x0d], [0x20]] ++ wideSpaces

/-- A byte that does not start an encoding. -/
def isInner (b : UInt8) : Bool := 0x80 ≤ b && b < 0xc0

/-- A byte of a number with a point: a digit or the point. -/
def isNumeral (b : UInt8) : Bool := isDigit b || b = 0x2e

/-- What there is to know about the encodings of white space: none is empty and none starts another one; the
first byte is an ASCII character or starts a wide one, the others are inner bytes, and no number has one of
them. -/
theorem spaces_spec : ∀ s ∈ spaces, s ≠ [] ∧ s.tail.all isInner = true ∧ s.head?.any isInner = false ∧
    (∀ t ∈ spaces, s <+: t → s = t) ∧
    (s.head?.any isAsciiSpace = true ∨ s.head?.any (0x80 ≤ ·) = true ∧ s ∈ wideSpaces) ∧
    s.any isNumeral = false := by
  decide +kernel

theorem ne_nil_of_mem_spaces (hs : s ∈ spaces) : s ≠ [] := (spaces_spec s hs).1

theorem isInner_of_mem_tail (hs : s ∈ spaces) {b : UInt8} (hb : b ∈ s.tail) : isInner b = true :=
  List.all_eq_true.mp (spaces_spec s hs).2.1 b hb

theorem isInner_head_of_mem_spaces (hs : s ∈ spaces) {b : UInt8} (hb : b ∈ s.head?) : isInner b = false := by
  have hhead := (spaces_spec s hs).2.2.1
  rwa [Option.mem_def.mp hb] at hhead

/-- No encoding starts another one. -/
theorem eq_of_mem_spaces_of_isPrefix (hs : s ∈ spaces) (ht : t ∈ spaces) (h : s <+: t) : s = t :=
  (spaces_spec s hs).2.2.2.1 t ht h

theorem isAsciiSpace_or_mem_wideSpaces {b : UInt8} (hs : b :: s ∈ spaces) :
    isAsciiSpace b = true ∨ 0x80 ≤ b ∧ b :: s ∈ wideSpaces := by
  have hhead := (spaces_spec _ hs).2.2.2.2.1
  rwa [List.head?_cons, Option.any_some, Option.any_some, decide_eq_true_eq] at hhead

theorem isNumeral_of_mem_spaces (hs : s ∈ spaces) {b : UInt8} (hb : b ∈ s) : isNumeral b = false :=
  Bool.eq_false_iff.mpr (List.any_eq_false.mp (spaces_spec s hs).2.2.2.2.2 b hb)

theorem singleton_mem_spaces_of_isAsciiSpace {b : UInt8} (h : isAsciiSpace b = true) : [b] ∈ spaces := by
  have hall : ∀ n < 256, isAsciiSpace n.toUInt8 = true → [n.toUInt8] ∈ spaces := by decide +kernel
  have hb := hall b.toNat b.toNat_lt
  rw [Nat.toUInt8, UInt8.ofNat_toNat] at hb
  exact hb h

/-! ### Where white space starts -/

/-- The length of the encoding that starts a text, when the wide characters have the encodings `wide`. -/
def startingSpace (wide : List Bytes) : Bytes → Nat
  | [] => 0
  | b :: rest =>
    if isAsciiSpace b then 1
    else if b < 0x80 then 0
    else match wide.find? (·.isPrefixOf (b :: rest)) with
      | some s => s.length
      | none => 0

/-- Encodings that a text can be searched for: those of the ASCII characters and of the wide ones, none of which
starts another one. -/
structure IsSpaceCode (wide code : List Bytes) : Prop where
  subset : wide ⊆ code
  ascii : ∀ {b : UInt8}, isAsciiSpace b = true → [b] ∈ code
  ne_nil : ∀ {s : Bytes}, s ∈ code → s ≠ []
  eq_of_isPrefix : ∀ {s t : Bytes}, s ∈ code → t ∈ code → s <+: t → s = t
  ascii_or_wide : ∀ {b : UInt8} {s : Bytes}, b :: s ∈ code → isAsciiSpace b = true ∨ 0x80 ≤ b ∧ b :: s ∈ wide

namespace IsSpaceCode

variable {wide code : List Bytes}

theorem eq_of_prefixes (h : IsSpaceCode wide code) (hs : s ∈ code) (ht : t ∈ code) (hsb : s <+: bs)
    (htb : t <+: bs) : s = t := by
  obtain hst | hts := List.prefix_or_prefix_of_prefix hsb htb
  · exact h.eq_of_isPrefix hs ht hst
  · exact (h.eq_of_isPrefix ht hs hts).symm

/-- White space that starts a text is found. -/
theorem startingSpace_eq (h : IsSpaceCode wide code) (hs : s ∈ code) (hstarts : s <+: bs) :
    startingSpace wide bs = s.length := by
  obtain ⟨b, s, rfl⟩ := List.exists_cons_of_ne_nil (h.ne_nil hs)
  obtain ⟨rest, rfl⟩ := hstarts
  by_cases hascii : isAsciiSpace b = true
  · have hone : [b] = b :: s :=
      h.eq_of_prefixes (h.ascii hascii) hs (List.prefix_append [b] (s ++ rest)) (List.prefix_append (b :: s) rest)
    rw [← hone]
    simp [startingSpace, hascii]
  · obtain hb | ⟨hb, hwide⟩ := h.ascii_or_wide hs
    · exact absurd hb hascii
    · have hfind : (wide.find? (·.isPrefixOf (b :: s ++ rest))) = some (b :: s) := by
        cases hfind : wide.find? (·.isPrefixOf (b :: s ++ rest)) with
        | none =>
          have hnot := List.find?_eq_none.mp hfind _ hwide
          exact absurd (List.isPrefixOf_iff_prefix.mpr (List.prefix_append (b :: s) rest)) hnot
        | some t =>
          have ht : t ∈ code := h.subset (List.mem_of_find?_eq_some hfind)
          have hstarts : t <+: b :: s ++ rest := by simpa using List.find?_some hfind
          rw [h.eq_of_prefixes ht hs hstarts (List.prefix_append (b :: s) rest)]
      rw [List.cons_append] at hfind ⊢
      simp [startingSpace, hascii, UInt8.not_lt.mpr hb, hfind]

/-- Nothing else is taken for white space. -/
theorem exists_of_startingSpace_ne_zero (h : IsSpaceCode wide code) (hne : startingSpace wide bs ≠ 0) :
    ∃ s ∈ code, s <+: bs ∧ startingSpace wide bs = s.length := by
  cases bs with
  | nil => exact absurd rfl hne
  | cons b rest =>
    by_cases hascii : isAsciiSpace b = true
    · refine ⟨[b], h.ascii hascii, List.prefix_append [b] rest, ?_⟩
      simp [startingSpace, hascii]
    · cases hfind : wide.find? (·.isPrefixOf (b :: rest)) with
      | none => simp [startingSpace, hascii, hfind] at hne
      | some s =>
        have hs : s ∈ code := h.subset (List.mem_of_find?_eq_some hfind)
        have hstarts : s <+: b :: rest := by simpa using List.find?_some hfind
        exact ⟨s, hs, hstarts, h.startingSpace_eq hs hstarts⟩

end IsSpaceCode

theorem isSpaceCode_spaces : IsSpaceCode wideSpaces spaces where
  subset := List.subset_append_right _ _
  ascii := singleton_mem_spaces_of_isAsciiSpace
  ne_nil := ne_nil_of_mem_spaces
  eq_of_isPrefix := eq_of_mem_spaces_of_isPrefix
  ascii_or_wide := isAsciiSpace_or_mem_wideSpaces

theorem leadingSpace_eq (bs : Bytes) : leadingSpace bs = startingSpace wideSpaces bs := by
  cases bs <;> rfl

theorem leadingSpace_of_isPrefix (hs : s ∈ spaces) (h : s <+: bs) : leadingSpace bs = s.length := by
  rw [leadingSpace_eq, isSpaceCode_spaces.startingSpace_eq hs h]

theorem exists_of_leadingSpace_ne_zero (h : leadingSpace bs ≠ 0) :
    ∃ s ∈ spaces, s <+: bs ∧ leadingSpace bs = s.length := by
  rw [leadingSpace_eq] at h ⊢
  exact isSpaceCode_spaces.exists_of_startingSpace_ne_zero h

theorem leadingSpace_eq_zero_iff : leadingSpace bs = 0 ↔ ∀ s ∈ spaces, ¬ s <+: bs := by
  constructor
  · intro h s hs hstarts
    rw [leadingSpace_of_isPrefix hs hstarts, List.length_eq_zero_iff] at h
    exact ne_nil_of_mem_spaces hs h
  · intro h
    by_contra hne
    obtain ⟨s, hs, hstarts, -⟩ := exists_of_leadingSpace_ne_zero hne
    exact h s hs hstarts

/-- White space ends in front of a byte that starts an encoding of its own. -/
theorem prefix_of_prefix_append (hs : s ∈ spaces) (hne : front ≠ [])
    (hrest : ∀ b ∈ rest.head?, isInner b = false) (h : s <+: front ++ rest) : s <+: front := by
  obtain ⟨behind, heq⟩ := h
  obtain ⟨t, rfl, -⟩ | ⟨t, rfl, rfl⟩ := List.append_eq_append_iff.mp heq
  · exact List.prefix_append s t
  · cases t with
    | nil => rw [List.append_nil]
    | cons b t =>
      -- the byte would lie inside the encoding
      have hmem : b ∈ (front ++ b :: t).tail := by
        rw [List.tail_append_of_ne_nil hne]
        exact List.mem_append_right _ List.mem_cons_self
      have hinner := isInner_of_mem_tail hs hmem
      rw [hrest b rfl] at hinner
      contradiction

/-- So whether a text starts with white space can be seen in front of such a byte. -/
theorem leadingSpace_append (hne : front ≠ []) (hrest : ∀ b ∈ rest.head?, isInner b = false) :
    leadingSpace (front ++ rest) = leadingSpace front := by
  by_cases hzero : leadingSpace front = 0
  · rw [hzero, leadingSpace_eq_zero_iff]
    intro s hs hstarts
    exact leadingSpace_eq_zero_iff.mp hzero s hs (prefix_of_prefix_append hs hne hrest hstarts)
  · obtain ⟨s, hs, hstarts, hlength⟩ := exists_of_leadingSpace_ne_zero hzero
    rw [hlength, leadingSpace_of_isPrefix hs (hstarts.trans (List.prefix_append front rest))]

/-- A text is read by bytes that belong to words and by white space, which may take several bytes. -/
theorem induction_on_spaces {motive : Bytes → Prop} (bs : Bytes) (nil : motive [])
    (byte : ∀ b rest, leadingSpace (b :: rest) = 0 → motive rest → motive (b :: rest))
    (space : ∀ s ∈ spaces, ∀ rest, motive rest → motive (s ++ rest)) : motive bs := by
  induction hn : bs.length using Nat.strongRecOn generalizing bs with
  | ind n ih =>
    subst hn
    cases bs with
    | nil => exact nil
    | cons b rest =>
      by_cases hzero : leadingSpace (b :: rest) = 0
      · exact byte b rest hzero (ih rest.length (by simp) rest rfl)
      · obtain ⟨s, hs, ⟨behind, hbehind⟩, -⟩ := exists_of_leadingSpace_ne_zero hzero
        have hlt : behind.length < (b :: rest).length := by
          have hpos := List.length_pos_iff.mpr (ne_nil_of_mem_spaces hs)
          rw [← hbehind, List.length_append]
          omega
        rw [← hbehind]
        exact space s hs behind (ih _ hlt behind rfl)

/-! ### Words -/

/-- The words so far, with the one that is still open. -/
def closeWord (word : Bytes) (done : List Bytes) : List Bytes :=
  if word.isEmpty then done else word.reverse :: done

theorem closeWord_eq (word : Bytes) (done : List Bytes) : closeWord word done = closeWord word [] ++ done := by
  unfold closeWord
  split <;> rfl

theorem fieldsGo_nil (skip : Nat) (word : Bytes) (done : List Bytes) :
    fieldsGo skip [] word done = (closeWord word done).reverse := by
  cases skip <;> rfl

theorem fieldsGo_cons (b : UInt8) (rest word : Bytes) (done : List Bytes) :
    fieldsGo 0 (b :: rest) word done = match leadingSpace (b :: rest) with
      | 0 => fieldsGo 0 rest (b :: word) done
      | size + 1 => fieldsGo size rest [] (closeWord word done) := rfl

/-- Reading goes on behind the bytes that are passed over. -/
theorem fieldsGo_skip (skip : Nat) (bs word : Bytes) (done : List Bytes) :
    fieldsGo skip bs word done = fieldsGo 0 (bs.drop skip) word done := by
  induction bs generalizing skip with
  | nil => rw [List.drop_nil, fieldsGo_nil, fieldsGo_nil]
  | cons b rest ih =>
    cases skip with
    | zero => rfl
    | succ skip => exact ih skip

/-- White space closes a word. -/
theorem fieldsGo_space (hs : s ∈ spaces) (rest word : Bytes) (done : List Bytes) :
    fieldsGo 0 (s ++ rest) word done = fieldsGo 0 rest [] (closeWord word done) := by
  have hlength : leadingSpace (s ++ rest) = s.length := leadingSpace_of_isPrefix hs (List.prefix_append s rest)
  obtain ⟨b, t, rfl⟩ := List.exists_cons_of_ne_nil (ne_nil_of_mem_spaces hs)
  rw [List.cons_append, List.length_cons] at hlength
  rw [List.cons_append, fieldsGo_cons, hlength]
  show fieldsGo t.length (t ++ rest) [] (closeWord word done) = _
  rw [fieldsGo_skip, List.drop_left]

/-- Any other byte belongs to the open word. -/
theorem fieldsGo_byte {b : UInt8} (h : leadingSpace (b :: rest) = 0) (word : Bytes) (done : List Bytes) :
    fieldsGo 0 (b :: rest) word done = fieldsGo 0 rest (b :: word) done := by
  rw [fieldsGo_cons, h]

/-- The words that are closed stay in front of the others. -/
theorem fieldsGo_done (bs word : Bytes) (done : List Bytes) :
    fieldsGo 0 bs word done = done.reverse ++ fieldsGo 0 bs word [] := by
  induction bs using induction_on_spaces generalizing word done with
  | nil => rw [fieldsGo_nil, fieldsGo_nil, closeWord_eq, List.reverse_append]
  | byte b rest hzero ih => rw [fieldsGo_byte hzero, fieldsGo_byte hzero, ih]
  | space s hs rest ih =>
    rw [fieldsGo_space hs, fieldsGo_space hs, ih, ih [] (closeWord word []), closeWord_eq,
      List.reverse_append, List.append_assoc]

/-- Bytes without white space belong to the open word. -/
def Spaceless (bs : Bytes) : Prop := ∀ s ∈ spaces, ¬ s <:+: bs

theorem fieldsGo_spaceless (hword : Spaceless word) (hrest : ∀ b ∈ rest.head?, isInner b = false)
    (start : Bytes) (done : List Bytes) :
    fieldsGo 0 (word ++ rest) start done = fieldsGo 0 rest (word.reverse ++ start) done := by
  induction word generalizing start with
  | nil => rfl
  | cons b word ih =>
    have hzero : leadingSpace (b :: (word ++ rest)) = 0 := by
      rw [← List.cons_append, leadingSpace_append (List.cons_ne_nil b word) hrest, leadingSpace_eq_zero_iff]
      exact fun s hs hstarts => hword s hs hstarts.isInfix
    have htail : Spaceless word := fun s hs hinside =>
      hword s hs (hinside.trans (List.infix_cons List.infix_rfl))
    rw [List.cons_append, fieldsGo_byte hzero, ih htail, List.reverse_cons, List.append_assoc]
    rfl

/-! ### Cutting behind white space -/

/-- A text that is empty or ends in white space. -/
def Closed (bs : Bytes) : Prop := bs = [] ∨ ∃ s ∈ spaces, s <:+ bs

theorem fieldsGo_append (hs : s ∈ spaces) (front rest word : Bytes) :
    fieldsGo 0 (front ++ (s ++ rest)) word [] = fieldsGo 0 (front ++ s) word [] ++ fields rest := by
  induction front using induction_on_spaces generalizing word with
  | nil =>
    have hclose := fieldsGo_space hs [] word []
    rw [List.append_nil] at hclose
    rw [List.nil_append, List.nil_append, fieldsGo_space hs, hclose, fieldsGo_done rest, fields]
    rfl
  | byte b front hzero ih =>
    have hinner : ∀ c ∈ s.head?, isInner c = false := fun c hc => isInner_head_of_mem_spaces hs hc
    have hinner' : ∀ c ∈ (s ++ rest).head?, isInner c = false := by
      rw [List.head?_append_of_ne_nil _ (ne_nil_of_mem_spaces hs)]
      exact hinner
    have hfront := List.cons_ne_nil b front
    have hcut : leadingSpace (b :: (front ++ s)) = 0 := (leadingSpace_append hfront hinner).trans hzero
    have hwhole : leadingSpace (b :: (front ++ (s ++ rest))) = 0 :=
      (leadingSpace_append hfront hinner').trans hzero
    rw [List.cons_append, List.cons_append, fieldsGo_byte hcut, fieldsGo_byte hwhole, ih]
  | space t ht front ih =>
    rw [List.append_assoc, List.append_assoc, fieldsGo_space ht, fieldsGo_space ht,
      fieldsGo_done _ [] (closeWord word []), fieldsGo_done (front ++ s) [] (closeWord word []), ih,
      List.append_assoc]

/-- **Words** of a text that is cut behind white space are those of the two parts. -/
theorem fields_append (hfront : Closed front) (rest : Bytes) :
    fields (front ++ rest) = fields front ++ fields rest := by
  obtain rfl | ⟨s, hs, start, rfl⟩ := hfront
  · rfl
  · rw [List.append_assoc]
    exact fieldsGo_append hs start rest []

/-- A word in front of white space. -/
theorem fields_spaceless_append (hword : Spaceless word) (hne : word ≠ []) (hs : s ∈ spaces) :
    fields (word ++ s) = [word] := by
  have hclose := fieldsGo_space hs [] (word.reverse ++ []) []
  rw [List.append_nil] at hclose
  rw [fields, fieldsGo_spaceless hword fun b hb => isInner_head_of_mem_spaces hs hb, hclose]
  simp [closeWord, fieldsGo, hne]

/-! ### The last word -/

/-- What stands behind the last white space of a text. -/
def LastWord (bs word : Bytes) : Prop := Spaceless word ∧ ∃ front, Closed front ∧ bs = front ++ word

/-- Every text has a last word, though it may be empty. -/
theorem exists_lastWord (bs : Bytes) : ∃ word, LastWord bs word := by
  -- the last white space is found by going from one to the next
  have hnext : ∀ rest front : Bytes, Closed front → ∃ word, LastWord (front ++ rest) word := by
    intro rest
    induction hn : rest.length using Nat.strongRecOn generalizing rest with
    | ind n ih =>
      subst hn
      intro front hfront
      by_cases hrest : Spaceless rest
      · exact ⟨rest, hrest, front, hfront, rfl⟩
      · simp only [Spaceless, not_forall, not_not] at hrest
        obtain ⟨s, hs, start, behind, rfl⟩ := hrest
        have hlt : behind.length < (start ++ s ++ behind).length := by
          have hpos := List.length_pos_iff.mpr (ne_nil_of_mem_spaces hs)
          rw [List.length_append, List.length_append]
          omega
        have hclosed : Closed (front ++ (start ++ s)) :=
          .inr ⟨s, hs, (List.suffix_append start s).trans (List.suffix_append front _)⟩
        have hword := ih behind.length hlt behind rfl (front ++ (start ++ s)) hclosed
        rwa [List.append_assoc] at hword
  exact hnext bs [] (.inl rfl)

theorem all_isNumeral_of_all_isDigit {digits : Bytes} (hall : digits.all isDigit = true) :
    digits.all isNumeral = true := by
  rw [List.all_eq_true] at hall ⊢
  intro b hb
  rw [isNumeral, hall b hb, Bool.true_or]

theorem spaceless_nil : Spaceless [] := by
  intro s hs hinside
  exact ne_nil_of_mem_spaces hs (List.infix_nil.mp hinside)

/-- A number goes on with a word. -/
theorem Spaceless.append_numeral {number : Bytes} (hword : Spaceless word)
    (hnumber : number.all isNumeral = true) : Spaceless (word ++ number) := by
  rintro s hs ⟨start, behind, heq⟩
  obtain ⟨t, rfl, -⟩ | ⟨t, hstart, rfl⟩ := List.append_eq_append_iff.mp heq
  · exact hword s hs ⟨start, t, rfl⟩
  · by_cases ht : t = []
    · subst ht
      rw [List.append_nil] at hstart
      exact hword s hs (hstart ▸ (List.suffix_append start s).isInfix)
    · -- the last byte of the white space would be one of the number
      have hlast : s.getLast? = t.getLast? := by
        rw [← List.getLast?_append_of_ne_nil start (ne_nil_of_mem_spaces hs), hstart,
          List.getLast?_append_of_ne_nil word ht]
      obtain ⟨b, hb⟩ := Option.ne_none_iff_exists'.mp (mt List.getLast?_eq_none_iff.mp ht)
      have hnumeral := List.all_eq_true.mp hnumber b (List.mem_append_left behind (List.mem_of_getLast? hb))
      rw [isNumeral_of_mem_spaces hs (List.mem_of_getLast? (hlast.trans hb))] at hnumeral
      contradiction

end CrateAudit.Bytes
