import CrateAudit.Proofs.Number.Amount
import CrateAudit.Proofs.Number.Reading

/-!
# Names of numbers

Some numbers are read from names and not from digits: the infinities and what is not a number. These are the only
texts that give such a number (`read?_eq_nan_iff`, `read?_eq_infinite_iff`). All other texts that are read at all give
a finite number (`representable_of_read?`): a numeral whose value is out of range is refused, not read as an infinity.

Underscores do not make more names, since an underscore needs a digit in front of it
(`exists_isDigit_of_underscoresFit`) and no name has a digit.
-/

namespace CrateAudit.Binary64

open Bytes

variable {b c : UInt8} {bs word : Bytes} {x : Binary64} {negative : Bool} {units : ℕ}

/-! ### Letters -/

/-- Nothing but itself becomes a byte that is no letter in lower case. -/
theorem eq_of_lowerByte_eq (h : lowerByte b = c) (hc : c.toNat < 0x41) : b = c := by
  unfold lowerByte at h
  split_ifs at h with hupper
  · -- an upper-case letter would become a lower-case one
    simp only [Bool.and_eq_true, decide_eq_true_eq, UInt8.le_iff_toNat_le] at hupper
    have hlow : 0x41 ≤ b.toNat := hupper.1
    have hhigh : b.toNat ≤ 0x5a := hupper.2
    have hsum : (b + 0x20).toNat = (b.toNat + 0x20) % 256 := UInt8.toNat_add b 0x20
    rw [h] at hsum
    omega
  · exact h

/-- The name of what is not a number, in any case. -/
def NamesNan (word : Bytes) : Prop := word.map lowerByte = lit "nan"

/-- The names of the infinities, in any case. -/
def NamesInfinity (negative : Bool) (word : Bytes) : Prop :=
  word.map lowerByte ∈ if negative then [lit "-inf", lit "-infinity"]
    else [lit "inf", lit "infinity", lit "+inf", lit "+infinity"]

instance : Decidable (NamesNan word) := inferInstanceAs (Decidable (_ = _))

instance : Decidable (NamesInfinity negative word) := inferInstanceAs (Decidable (_ ∈ _))

/-! ### Numerals are finite -/

theorem ofRatio_cases (negative : Bool) (num den : ℕ) :
    (∃ units, Representable units ∧ ofRatio negative num den = .finite negative units) ∨
      ofRatio negative num den = .infinite negative := by
  rw [ofRatio, ofUnits]
  split_ifs with hlt
  · exact .inl ⟨_, representable_roundUnits hlt, rfl⟩
  · exact .inr rfl

theorem exists_of_scaled? {digits base : ℕ} {exponent : ℤ} (h : scaled? negative digits base exponent = some x) :
    ∃ units, Representable units ∧ x = .finite negative units := by
  unfold scaled? at h
  dsimp only at h
  split at h
  · cases h
  · rename_i hfinite
    have hx := Option.some.inj h
    rw [hx] at hfinite
    have hratio : ∀ num den, ofRatio negative num den = x → ∃ units, Representable units ∧ x = .finite negative units := by
      rintro num den rfl
      exact (ofRatio_cases negative num den).resolve_right (hfinite negative)
    split_ifs at hx
    · exact ⟨0, representable_zero, hx.symm⟩
    · exact hratio _ _ hx
    · exact hratio _ _ hx

theorem exists_scaled?_of_readNumeral? {base : ℕ} (h : readNumeral? negative base bs = some x) :
    ∃ digits base' exponent, scaled? negative digits base' exponent = some x := by
  unfold readNumeral? at h
  dsimp only at h
  split_ifs at h
  · split at h
    · cases h
    · split_ifs at h
      · cases h
      · obtain ⟨e, -, h⟩ := Option.bind_eq_some_iff.mp h
        exact ⟨_, _, _, h⟩
  · split at h
    · exact ⟨_, _, _, h⟩
    · split_ifs at h
      · cases h
      · obtain ⟨e, -, h⟩ := Option.bind_eq_some_iff.mp h
        exact ⟨_, _, _, h⟩

/-! ### Underscores -/

theorem exists_isDigit_of_underscoresFitGo {before : Before} (h : underscoresFitGo false before bs = true)
    (hmem : 0x5f ∈ bs) : before = .digit ∨ ∃ b ∈ bs, isDigit b = true := by
  induction bs generalizing before with
  | nil => cases hmem
  | cons b rest ih =>
    rw [underscoresFitGo] at h
    by_cases hdigit : isDigit b = true
    · exact .inr ⟨b, List.mem_cons_self, hdigit⟩
    simp only [hdigit, Bool.false_and, Bool.or_false, Bool.false_eq_true, if_false] at h
    split_ifs at h with hb
    · rw [Bool.and_eq_true, decide_eq_true_eq] at h
      exact .inl h.1
    · rw [Bool.and_eq_true] at h
      have hrest : 0x5f ∈ rest := (List.mem_cons.mp hmem).resolve_left fun heq => hb heq.symm
      obtain hbefore | ⟨d, hd, hdigit⟩ := ih h.2 hrest
      · cases hbefore
      · exact .inr ⟨d, List.mem_cons_of_mem b hd, hdigit⟩

/-- What is behind the sign of a numeral, if it has one. -/
def behindSign : Bytes → Bytes
  | 0x2b :: rest => rest
  | 0x2d :: rest => rest
  | rest => rest

theorem behindSign_subset (bs : Bytes) : behindSign bs ⊆ bs := by
  unfold behindSign
  split
  · exact List.subset_cons_self _ _
  · exact List.subset_cons_self _ _
  · exact List.Subset.refl _

theorem mem_behindSign (h : 0x5f ∈ bs) : 0x5f ∈ behindSign bs := by
  unfold behindSign
  split
  · exact (List.mem_cons.mp h).resolve_left (by decide)
  · exact (List.mem_cons.mp h).resolve_left (by decide)
  · exact h

theorem underscoresFit_eq_of_head? (h : (behindSign bs).head? ≠ some 0x30) :
    underscoresFit bs = underscoresFitGo false .start (behindSign bs) := by
  unfold underscoresFit
  dsimp only
  split
  · rename_i hbody
    exact absurd (congrArg List.head? hbody) h
  · rfl

/-- Where underscores may stand there is a digit. -/
theorem exists_isDigit_of_underscoresFit (h : underscoresFit bs = true) (hmem : 0x5f ∈ bs) :
    ∃ b ∈ bs, isDigit b = true := by
  by_cases hzero : (behindSign bs).head? = some 0x30
  · -- the marker of a base starts with a zero
    exact ⟨0x30, behindSign_subset bs (List.mem_of_mem_head? hzero), rfl⟩
  · rw [underscoresFit_eq_of_head? hzero] at h
    obtain hdigit | ⟨b, hb, hdigit⟩ := exists_isDigit_of_underscoresFitGo h (mem_behindSign hmem)
    · cases hdigit
    · exact ⟨b, behindSign_subset bs hb, hdigit⟩

/-! ### Names -/

/-- The names, in lower case. -/
def names : List Bytes :=
  [lit "nan", lit "inf", lit "infinity", lit "+inf", lit "+infinity", lit "-inf", lit "-infinity"]

theorem NamesNan.mem_names (h : NamesNan word) : word.map lowerByte ∈ names := by
  rw [h]
  decide

theorem NamesInfinity.mem_names (h : NamesInfinity negative word) : word.map lowerByte ∈ names := by
  have hsub : (if negative then [lit "-inf", lit "-infinity"]
      else [lit "inf", lit "infinity", lit "+inf", lit "+infinity"]) ⊆ names := by
    cases negative <;> decide
  exact hsub h

/-- A name has neither digits nor underscores. -/
theorem plain_of_mem_names (h : word.map lowerByte ∈ names) (hb : b ∈ word) : isDigit b = false ∧ b ≠ 0x5f := by
  have hall : names.all (fun name => name.all fun c => !isDigit c && c ≠ 0x5f) = true := by decide
  have hplain := List.all_eq_true.mp (List.all_eq_true.mp hall _ h) _ (List.mem_map_of_mem hb)
  rw [Bool.and_eq_true, Bool.not_eq_true', decide_eq_true_eq] at hplain
  constructor
  · rw [← Bool.not_eq_true]
    intro hdigit
    rw [lowerByte_of_le (isDigit_iff.mp hdigit).2, hdigit] at hplain
    exact absurd hplain.1 (by decide)
  · rintro rfl
    exact hplain.2 rfl

/-- A text that is a name, with or without underscores, has none. -/
theorem filter_underscores_eq_self (hfit : word.contains 0x5f = true → underscoresFit word = true)
    (h : (word.filter (· ≠ 0x5f)).map lowerByte ∈ names) : word.filter (· ≠ 0x5f) = word := by
  refine List.filter_eq_self.mpr fun b hb => decide_eq_true ?_
  rintro rfl
  obtain ⟨d, hd, hdigit⟩ := exists_isDigit_of_underscoresFit (hfit (by simpa using hb)) hb
  have hkept : d ∈ word.filter (· ≠ 0x5f) := by
    refine List.mem_filter.mpr ⟨hd, decide_eq_true ?_⟩
    rintro rfl
    exact absurd hdigit (by decide)
  rw [(plain_of_mem_names h hkept).1] at hdigit
  cases hdigit

/-! ### Texts that are read -/

/-- The number that a text stands for when its sign is known. -/
def readBody? (signed negative : Bool) (body : Bytes) : Option Binary64 :=
  if body.map lowerByte = lit "inf" || body.map lowerByte = lit "infinity" then some (.infinite negative)
  else if body.map lowerByte = lit "nan" then if signed then none else some .nan
  else match body with
    | 0x30 :: m :: rest =>
      if lowerByte m = 0x78 then readNumeral? negative 16 rest else readNumeral? negative 10 body
    | _ => readNumeral? negative 10 body

/-- How a sign is read. -/
theorem readPlain?_eq (bs : Bytes) :
    (∃ rest, bs = 0x2b :: rest ∧ readPlain? bs = readBody? true false rest) ∨
      (∃ rest, bs = 0x2d :: rest ∧ readPlain? bs = readBody? true true rest) ∨
      bs.head? ≠ some 0x2b ∧ bs.head? ≠ some 0x2d ∧ readPlain? bs = readBody? false false bs := by
  unfold readPlain?
  split
  rename_i signed negative body hsign
  split at hsign
  · obtain ⟨rfl, rfl, rfl⟩ := by simpa using hsign
    exact .inl ⟨_, rfl, rfl⟩
  · obtain ⟨rfl, rfl, rfl⟩ := by simpa using hsign
    exact .inr (.inl ⟨_, rfl, rfl⟩)
  · rename_i hplus hminus
    obtain ⟨rfl, rfl, rfl⟩ := by simpa using hsign
    refine .inr (.inr ⟨fun hhead => ?_, fun hhead => ?_, rfl⟩)
    · obtain ⟨rest, heq⟩ := List.head?_eq_some_iff.mp hhead
      exact hplus rest heq
    · obtain ⟨rest, heq⟩ := List.head?_eq_some_iff.mp hhead
      exact hminus rest heq

/-- What a text with a known sign is read as. -/
theorem readBody?_cases {signed : Bool} (h : readBody? signed negative bs = some x) :
    (bs.map lowerByte = lit "nan" ∧ signed = false ∧ x = .nan) ∨
      (bs.map lowerByte ∈ [lit "inf", lit "infinity"] ∧ x = .infinite negative) ∨
      ∃ units, Representable units ∧ x = .finite negative units := by
  have hnumeral : ∀ {base body}, readNumeral? negative base body = some x →
      ∃ units, Representable units ∧ x = .finite negative units := by
    intro base body h
    obtain ⟨_, _, _, hscaled⟩ := exists_scaled?_of_readNumeral? h
    exact exists_of_scaled? hscaled
  unfold readBody? at h
  split_ifs at h with hinfinite hnan hsigned
  · exact .inr (.inl ⟨by simpa using hinfinite, (Option.some.inj h).symm⟩)
  · exact .inl ⟨hnan, by simpa using hsigned, (Option.some.inj h).symm⟩
  · refine .inr (.inr ?_)
    split at h
    · split_ifs at h
      · exact hnumeral h
      · exact hnumeral h
    · exact hnumeral h

/-- What a text without underscores is read as. -/
theorem readPlain?_cases (h : readPlain? bs = some x) :
    (NamesNan bs ∧ x = .nan) ∨ (∃ negative, NamesInfinity negative bs ∧ x = .infinite negative) ∨
      ∃ negative units, Representable units ∧ x = .finite negative units := by
  -- a name of an infinity with its sign
  have hsign : ∀ {b rest}, lowerByte b = b → rest.map lowerByte ∈ [lit "inf", lit "infinity"] →
      (b :: rest).map lowerByte ∈ [b :: lit "inf", b :: lit "infinity"] := by
    intro b rest hb hrest
    rw [List.map_cons, hb]
    simpa using hrest
  obtain ⟨rest, rfl, heq⟩ | ⟨rest, rfl, heq⟩ | ⟨-, -, heq⟩ := readPlain?_eq bs <;> rw [heq] at h <;>
    obtain ⟨hname, hsigned, rfl⟩ | ⟨hname, rfl⟩ | ⟨units, hunits, rfl⟩ := readBody?_cases h
  · cases hsigned
  · exact .inr (.inl ⟨false, List.mem_append_right [lit "inf", lit "infinity"] (hsign (by decide) hname), rfl⟩)
  · exact .inr (.inr ⟨false, units, hunits, rfl⟩)
  · cases hsigned
  · exact .inr (.inl ⟨true, hsign (by decide) hname, rfl⟩)
  · exact .inr (.inr ⟨true, units, hunits, rfl⟩)
  · exact .inl ⟨hname, rfl⟩
  · exact .inr (.inl ⟨false, List.mem_append_left [lit "+inf", lit "+infinity"] hname, rfl⟩)
  · exact .inr (.inr ⟨false, units, hunits, rfl⟩)

theorem readPlain?_of_namesNan (h : NamesNan bs) : readPlain? bs = some .nan := by
  obtain ⟨rest, rfl, -⟩ | ⟨rest, rfl, -⟩ | ⟨-, -, heq⟩ := readPlain?_eq bs
  · exact absurd (List.cons.inj h).1 (by decide)
  · exact absurd (List.cons.inj h).1 (by decide)
  · have hinfinite : ¬ (bs.map lowerByte = lit "inf" || bs.map lowerByte = lit "infinity") = true := by
      rw [h]
      decide
    rw [heq]
    unfold readBody?
    rw [if_neg hinfinite]
    exact if_pos h

/-- The name of an infinity is bare, or it has a sign in front. -/
theorem NamesInfinity.cases (h : NamesInfinity negative bs) :
    (negative = false ∧ bs.map lowerByte ∈ [lit "inf", lit "infinity"]) ∨
      ∃ rest, bs = (if negative then 0x2d else 0x2b) :: rest ∧ rest.map lowerByte ∈ [lit "inf", lit "infinity"] := by
  have hsign : ∀ {c : UInt8} {name : Bytes}, c.toNat < 0x41 → name ∈ [lit "inf", lit "infinity"] →
      bs.map lowerByte = c :: name →
      ∃ rest, bs = c :: rest ∧ rest.map lowerByte ∈ [lit "inf", lit "infinity"] := by
    intro c name hc hname heq
    obtain ⟨b, rest, rfl, hb, rfl⟩ := List.map_eq_cons_iff.mp heq
    exact ⟨rest, by rw [eq_of_lowerByte_eq hb hc], hname⟩
  cases negative with
  | false =>
    have hsplit : bs.map lowerByte ∈ [lit "inf", lit "infinity"] ++ [lit "+inf", lit "+infinity"] := h
    rcases List.mem_append.mp hsplit with h | h
    · exact .inl ⟨rfl, h⟩
    · rcases List.mem_pair.mp h with h | h
      · exact .inr (hsign (by decide) List.mem_cons_self h)
      · exact .inr (hsign (by decide) (List.mem_cons_of_mem _ List.mem_cons_self) h)
  | true =>
    rcases List.mem_pair.mp h with h | h
    · exact .inr (hsign (by decide) List.mem_cons_self h)
    · exact .inr (hsign (by decide) (List.mem_cons_of_mem _ List.mem_cons_self) h)

theorem readPlain?_of_namesInfinity (h : NamesInfinity negative bs) : readPlain? bs = some (.infinite negative) := by
  have hbody : ∀ {signed bs}, bs.map lowerByte ∈ [lit "inf", lit "infinity"] →
      readBody? signed negative bs = some (.infinite negative) := fun hname => if_pos (by simpa using hname)
  obtain ⟨rfl, hname⟩ | ⟨rest, rfl, hname⟩ := h.cases
  · -- a bare name does not start with a sign
    have hhead : bs.head? ≠ some 0x2b ∧ bs.head? ≠ some 0x2d := by
      rcases List.mem_pair.mp hname with hname | hname <;>
        obtain ⟨b, rest, rfl, hb, -⟩ := List.map_eq_cons_iff.mp hname
      all_goals
        constructor <;> rintro ⟨⟩ <;> exact absurd hb (by decide)
    obtain ⟨rest, rfl, -⟩ | ⟨rest, rfl, -⟩ | ⟨-, -, heq⟩ := readPlain?_eq bs
    · exact absurd rfl hhead.1
    · exact absurd rfl hhead.2
    · rw [heq, hbody hname]
  · cases negative with
    | false => exact hbody hname
    | true => exact hbody hname

/-- A text is read as the text without its underscores, if they may stand where they do. -/
theorem exists_of_read? (h : read? word = some x) :
    readPlain? (word.filter (· ≠ 0x5f)) = some x ∧ (word.contains 0x5f = true → underscoresFit word = true) := by
  unfold read? at h
  split_ifs at h with hrefused
  refine ⟨h, fun hcontains => ?_⟩
  rw [hcontains] at hrefused
  simpa using hrefused

/-- A name is read as it is. -/
theorem read?_of_mem_names (h : word.map lowerByte ∈ names) : read? word = readPlain? word := by
  have hcontains : word.contains 0x5f = false := by
    rw [List.contains_eq_mem, decide_eq_false_iff_not]
    exact fun hmem => (plain_of_mem_names h hmem).2 rfl
  have hfilter : word.filter (· ≠ 0x5f) = word :=
    List.filter_eq_self.mpr fun b hb => decide_eq_true (plain_of_mem_names h hb).2
  rw [read?, hcontains, hfilter]
  rfl

/-- **What a text is read as**. -/
theorem read?_cases (h : read? word = some x) :
    (NamesNan word ∧ x = .nan) ∨ (∃ negative, NamesInfinity negative word ∧ x = .infinite negative) ∨
      ∃ negative units, Representable units ∧ x = .finite negative units := by
  obtain ⟨hplain, hfit⟩ := exists_of_read? h
  have hcases := readPlain?_cases hplain
  obtain ⟨hname, rfl⟩ | ⟨negative, hname, rfl⟩ | hfinite := hcases
  · rw [filter_underscores_eq_self hfit hname.mem_names] at hname
    exact .inl ⟨hname, rfl⟩
  · rw [filter_underscores_eq_self hfit hname.mem_names] at hname
    exact .inr (.inl ⟨negative, hname, rfl⟩)
  · exact .inr (.inr hfinite)

/-- The name of what is not a number is the only text that is read as it. -/
theorem read?_eq_nan_iff : read? word = some .nan ↔ NamesNan word := by
  refine ⟨fun h => ?_, fun h => (read?_of_mem_names h.mem_names).trans (readPlain?_of_namesNan h)⟩
  obtain ⟨hname, -⟩ | ⟨_, -, hx⟩ | ⟨_, _, -, hx⟩ := read?_cases h
  · exact hname
  · cases hx
  · cases hx

/-- The names of an infinity are the only texts that are read as it. -/
theorem read?_eq_infinite_iff : read? word = some (.infinite negative) ↔ NamesInfinity negative word := by
  refine ⟨fun h => ?_, fun h => (read?_of_mem_names h.mem_names).trans (readPlain?_of_namesInfinity h)⟩
  obtain ⟨-, hx⟩ | ⟨_, hname, hx⟩ | ⟨_, _, -, hx⟩ := read?_cases h
  · cases hx
  · cases hx
    exact hname
  · cases hx

/-- Any other text that is read gives a finite number. -/
theorem representable_of_read? (h : read? word = some (.finite negative units)) : Representable units := by
  obtain ⟨-, hx⟩ | ⟨_, -, hx⟩ | ⟨_, _, hunits, hx⟩ := read?_cases h
  · cases hx
  · cases hx
  · cases hx
    exact hunits

end CrateAudit.Binary64
