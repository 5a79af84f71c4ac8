import CrateAudit.Bytes.Utf8
import Mathlib.Data.List.Basic
import Mathlib.Tactic.SplitIfs

/-!
# Reading UTF-8

The reader recognises exactly the encodings of characters: `leading?_eq_some_iff` says that it finds a
character at the front of a text if and only if the text starts with the encoding of that character. Hence
no byte is lost (`flatMap_bytes_pieces`), a text that is put together from characters is read as them
(`pieces_encode`), and the texts without stray bytes are those that are encodings (`isValid_iff`).

The table of well-formed encodings (`Encoding`) carries the arithmetic. The bytes behind the first one of an
encoding are not ASCII characters, so a text may be cut at an ASCII character without breaking another one
(`isValid_append_cons_iff`).
-/

namespace CrateAudit.Utf8

open String (utf8EncodeChar)

variable {bs rest : Bytes} {c : Char} {cs : List Char}

/-! ### Encodings of one character -/

theorem isContinuation_iff {b : UInt8} : isContinuation b = true ↔ 0x80 ≤ b.toNat ∧ b.toNat ≤ 0xbf := by
  simp [isContinuation, UInt8.le_iff_toNat_le]

/-- The well-formed encodings, with the number of the character: neither overlong forms nor surrogates nor
numbers above `0x10ffff`. -/
inductive Encoding : Bytes → Nat → Prop
  | one {a : UInt8} (ha : a.toNat < 0x80) : Encoding [a] a.toNat
  | two {a b : UInt8} (ha : 0xc2 ≤ a.toNat ∧ a.toNat < 0xe0) (hb : isContinuation b = true) :
    Encoding [a, b] (a.toNat % 32 * 64 + payload b)
  | three {a b c : UInt8} (ha : 0xe0 ≤ a.toNat ∧ a.toNat < 0xf0) (hb : isContinuation b = true)
    (hc : isContinuation c = true) (hlow : a.toNat = 0xe0 → 0xa0 ≤ b.toNat)
    (hhigh : a.toNat = 0xed → b.toNat ≤ 0x9f) :
    Encoding [a, b, c] (a.toNat % 16 * 4096 + payload b * 64 + payload c)
  | four {a b c d : UInt8} (ha : 0xf0 ≤ a.toNat ∧ a.toNat < 0xf5) (hb : isContinuation b = true)
    (hc : isContinuation c = true) (hd : isContinuation d = true) (hlow : a.toNat = 0xf0 → 0x90 ≤ b.toNat)
    (hhigh : a.toNat = 0xf4 → b.toNat ≤ 0x8f) :
    Encoding [a, b, c, d] (a.toNat % 8 * 262144 + payload b * 4096 + payload c * 64 + payload d)

namespace Encoding

variable {e : Bytes} {n : Nat}

/-- The reader finds an encoding that starts a text. -/
theorem leading?_append (h : Encoding e n) (rest : Bytes) :
    leading? (e ++ rest) = some (Char.ofNat n, e.length) := by
  cases h with
  | one ha => simp [leading?, UInt8.lt_iff_toNat_lt, ha]
  | two ha hb =>
    simp only [List.cons_append, leading?, UInt8.lt_iff_toNat_lt, UInt8.reduceToNat, hb]
    rw [if_neg (by omega), if_neg (by omega), if_pos (by omega)]
    rfl
  | three ha hb hc hlow hhigh =>
    simp only [List.cons_append, leading?, UInt8.lt_iff_toNat_lt, UInt8.reduceToNat, hb, hc]
    rw [if_neg (by omega), if_neg (by omega), if_neg (by omega), if_pos (by omega), if_pos]
    · rfl
    · simp only [← UInt8.toNat_inj, UInt8.reduceToNat, Bool.true_and, Bool.and_eq_true, Bool.not_eq_true',
        Bool.and_eq_false_imp, decide_eq_true_eq, decide_eq_false_iff_not]
      omega
  | four ha hb hc hd hlow hhigh =>
    simp only [List.cons_append, leading?, UInt8.lt_iff_toNat_lt, UInt8.reduceToNat, hb, hc, hd]
    rw [if_neg (by omega), if_neg (by omega), if_neg (by omega), if_neg (by omega), if_pos (by omega), if_pos]
    · rfl
    · simp only [← UInt8.toNat_inj, UInt8.reduceToNat, Bool.true_and, Bool.and_eq_true, Bool.not_eq_true',
        Bool.and_eq_false_imp, decide_eq_true_eq, decide_eq_false_iff_not]
      omega

/-- The reader finds nothing else. -/
theorem exists_of_leading? {size : Nat} (h : leading? bs = some (c, size)) :
    ∃ e n, Encoding e n ∧ e <+: bs ∧ c = Char.ofNat n ∧ size = e.length := by
  have hfound : ∀ {e n}, Encoding e n → e <+: bs →
      ∃ e n, Encoding e n ∧ e <+: bs ∧ c = Char.ofNat n ∧ size = e.length := by
    rintro e n he ⟨rest, rfl⟩
    rw [he.leading?_append, Option.some_inj, Prod.mk.injEq] at h
    exact ⟨e, n, he, List.prefix_append e rest, h.1.symm, h.2.symm⟩
  -- in all other cases nothing is found
  revert h
  fun_cases leading? bs
  case case2 a rest ha =>
    exact fun _ => hfound (.one (UInt8.lt_iff_toNat_lt.mp ha)) (List.prefix_append [a] rest)
  case case4 a _ ha ha' b rest hb =>
    simp only [UInt8.lt_iff_toNat_lt, UInt8.reduceToNat] at ha ha'
    exact fun _ => hfound (.two (by omega) hb) (List.prefix_append [a, b] rest)
  case case7 a _ _ ha ha' b d rest hbytes =>
    simp only [UInt8.lt_iff_toNat_lt, ← UInt8.toNat_inj, UInt8.reduceToNat, Bool.and_eq_true,
      Bool.not_eq_true', Bool.and_eq_false_imp, decide_eq_true_eq, decide_eq_false_iff_not] at ha ha' hbytes
    obtain ⟨⟨⟨hb, hd⟩, hlow⟩, hhigh⟩ := hbytes
    exact fun _ => hfound (.three (by omega) hb hd (by omega) (by omega)) (List.prefix_append [a, b, d] rest)
  case case10 a _ _ _ ha ha' b d f rest hbytes =>
    simp only [UInt8.lt_iff_toNat_lt, ← UInt8.toNat_inj, UInt8.reduceToNat, Bool.and_eq_true,
      Bool.not_eq_true', Bool.and_eq_false_imp, decide_eq_true_eq, decide_eq_false_iff_not] at ha ha' hbytes
    obtain ⟨⟨⟨⟨hb, hd⟩, hf⟩, hlow⟩, hhigh⟩ := hbytes
    intro _
    exact hfound (.four (by omega) hb hd hf (by omega) (by omega)) (List.prefix_append [a, b, d, f] rest)
  all_goals exact fun h => nomatch h

/-- A byte that carries six bits of a number. -/
theorem continuation (n : Nat) : isContinuation (UInt8.ofNat (n % 64 + 128)) = true ∧
    payload (UInt8.ofNat (n % 64 + 128)) = n % 64 ∧ (UInt8.ofNat (n % 64 + 128)).toNat = n % 64 + 128 := by
  rw [isContinuation_iff, payload, UInt8.toNat_ofNat']
  omega

/-- **Characters have encodings** of their numbers. -/
theorem of_char (c : Char) : Encoding (utf8EncodeChar c) c.toNat := by
  have hvalid : c.toNat < 0xd800 ∨ 0xdfff < c.toNat ∧ c.toNat < 0x110000 := c.valid
  unfold utf8EncodeChar
  rw [Char.toNat_val]
  generalize c.toNat = v at hvalid
  obtain ⟨h0, hp0, hn0⟩ := continuation v
  obtain ⟨h1, hp1, hn1⟩ := continuation (v / 64)
  obtain ⟨h2, hp2, hn2⟩ := continuation (v / 4096)
  dsimp only
  split_ifs
  · have ha : (UInt8.ofNat v).toNat = v := by rw [UInt8.toNat_ofNat']; omega
    have he := one (a := UInt8.ofNat v) (by omega)
    rwa [ha] at he
  · have ha : (UInt8.ofNat (v / 64 % 32 + 192)).toNat = v / 64 % 32 + 192 := by rw [UInt8.toNat_ofNat']; omega
    have he := two (a := UInt8.ofNat (v / 64 % 32 + 192)) (by omega) h0
    rwa [ha, hp0, show (v / 64 % 32 + 192) % 32 * 64 + v % 64 = v by omega] at he
  · have ha : (UInt8.ofNat (v / 4096 % 16 + 224)).toNat = v / 4096 % 16 + 224 := by rw [UInt8.toNat_ofNat']; omega
    have he := three (a := UInt8.ofNat (v / 4096 % 16 + 224)) (by omega) h1 h0 (by omega) (by omega)
    rwa [ha, hp0, hp1,
      show (v / 4096 % 16 + 224) % 16 * 4096 + v / 64 % 64 * 64 + v % 64 = v by omega] at he
  · have ha : (UInt8.ofNat (v / 262144 % 8 + 240)).toNat = v / 262144 % 8 + 240 := by rw [UInt8.toNat_ofNat']; omega
    have he := four (a := UInt8.ofNat (v / 262144 % 8 + 240)) (by omega) h2 h1 h0 (by omega) (by omega)
    rwa [ha, hp0, hp1, hp2,
      show (v / 262144 % 8 + 240) % 8 * 262144 + v / 4096 % 64 * 4096 + v / 64 % 64 * 64 + v % 64 = v by
        omega] at he

theorem utf8EncodeChar_ofNat {n : Nat} (h : n.isValidChar) :
    utf8EncodeChar (Char.ofNat n) =
      if n ≤ 127 then [UInt8.ofNat n]
      else if n ≤ 2047 then [UInt8.ofNat (n / 64 % 32 + 192), UInt8.ofNat (n % 64 + 128)]
      else if n ≤ 65535 then
        [UInt8.ofNat (n / 4096 % 16 + 224), UInt8.ofNat (n / 64 % 64 + 128), UInt8.ofNat (n % 64 + 128)]
      else
        [UInt8.ofNat (n / 262144 % 8 + 240), UInt8.ofNat (n / 4096 % 64 + 128),
          UInt8.ofNat (n / 64 % 64 + 128), UInt8.ofNat (n % 64 + 128)] := by
  have hn : (Char.ofNat n).val.toNat = n := by
    rw [Char.ofNat, dif_pos h]
    rfl
  unfold utf8EncodeChar
  rw [hn]

/-- **Encodings encode characters**: the one with their number. -/
theorem eq_utf8EncodeChar (h : Encoding e n) : e = utf8EncodeChar (Char.ofNat n) := by
  cases h with
  | @one a ha =>
    rw [utf8EncodeChar_ofNat (.inl (by omega)), if_pos (by omega), UInt8.ofNat_toNat]
  | @two a b ha hb =>
    rw [isContinuation_iff] at hb
    rw [payload, utf8EncodeChar_ofNat (.inl (by omega)), if_neg (by omega), if_pos (by omega)]
    rw [(UInt8.ofNat_eq_iff_mod_eq_toNat _ a).mpr (by omega), (UInt8.ofNat_eq_iff_mod_eq_toNat _ b).mpr (by omega)]
  | @three a b c ha hb hc hlow hhigh =>
    rw [isContinuation_iff] at hb hc
    rw [payload, payload, utf8EncodeChar_ofNat (by unfold Nat.isValidChar; omega), if_neg (by omega),
      if_neg (by omega), if_pos (by omega)]
    rw [(UInt8.ofNat_eq_iff_mod_eq_toNat _ a).mpr (by omega), (UInt8.ofNat_eq_iff_mod_eq_toNat _ b).mpr (by omega),
      (UInt8.ofNat_eq_iff_mod_eq_toNat _ c).mpr (by omega)]
  | @four a b c d ha hb hc hd hlow hhigh =>
    rw [isContinuation_iff] at hb hc hd
    rw [payload, payload, payload, utf8EncodeChar_ofNat (by unfold Nat.isValidChar; omega), if_neg (by omega),
      if_neg (by omega), if_neg (by omega)]
    rw [(UInt8.ofNat_eq_iff_mod_eq_toNat _ a).mpr (by omega), (UInt8.ofNat_eq_iff_mod_eq_toNat _ b).mpr (by omega),
      (UInt8.ofNat_eq_iff_mod_eq_toNat _ c).mpr (by omega), (UInt8.ofNat_eq_iff_mod_eq_toNat _ d).mpr (by omega)]

/-- An encoding of a character behind the ASCII characters has no byte of an ASCII character. -/
theorem all_high (h : Encoding e n) (hn : 0x80 ≤ n) : e.all (0x80 ≤ ·) = true := by
  simp only [List.all_eq_true, decide_eq_true_eq, UInt8.le_iff_toNat_le, UInt8.reduceToNat]
  have hhigh : ∀ {b : UInt8}, isContinuation b = true → 0x80 ≤ b.toNat := fun hb =>
    (isContinuation_iff.mp hb).1
  cases h with
  | one ha => omega
  | two ha hb =>
    have ha : 0x80 ≤ _ := Nat.le_trans (by omega) ha.1
    simp [ha, hhigh hb]
  | three ha hb hc =>
    have ha : 0x80 ≤ _ := Nat.le_trans (by omega) ha.1
    simp [ha, hhigh hb, hhigh hc]
  | four ha hb hc hd =>
    have ha : 0x80 ≤ _ := Nat.le_trans (by omega) ha.1
    simp [ha, hhigh hb, hhigh hc, hhigh hd]

end Encoding

/-- **The reader of characters** finds a character at the front of a text exactly if the text starts with its
encoding. -/
theorem leading?_eq_some_iff {size : Nat} :
    leading? bs = some (c, size) ↔ utf8EncodeChar c <+: bs ∧ size = (utf8EncodeChar c).length := by
  constructor
  · intro h
    obtain ⟨e, n, he, hstarts, rfl, rfl⟩ := Encoding.exists_of_leading? h
    rw [he.eq_utf8EncodeChar] at hstarts ⊢
    exact ⟨hstarts, rfl⟩
  · rintro ⟨⟨rest, rfl⟩, rfl⟩
    rw [(Encoding.of_char c).leading?_append, Char.ofNat_toNat]

theorem utf8EncodeChar_ne_nil (c : Char) : utf8EncodeChar c ≠ [] := by
  intro h
  have he := Encoding.of_char c
  rw [h] at he
  nomatch he

/-- An ASCII character is its own encoding, and no byte of another one is an ASCII character. -/
theorem utf8EncodeChar_cases (c : Char) :
    c.toNat < 0x80 ∧ utf8EncodeChar c = [UInt8.ofNat c.toNat] ∨
      0x80 ≤ c.toNat ∧ (utf8EncodeChar c).all (0x80 ≤ ·) = true := by
  by_cases hc : c.toNat < 0x80
  · refine .inl ⟨hc, ?_⟩
    unfold utf8EncodeChar
    exact if_pos (Nat.le_of_lt_succ hc)
  · exact .inr ⟨Nat.not_lt.mp hc, (Encoding.of_char c).all_high (Nat.not_lt.mp hc)⟩

/-! ### The pieces of a text -/

theorem piecesGo_eq (skip : Nat) (bs : Bytes) (done : List Piece) :
    piecesGo skip bs done = done.reverse ++ pieces (bs.drop skip) := by
  induction bs generalizing skip done with
  | nil => simp [piecesGo, pieces]
  | cons b rest ih =>
    cases skip with
    | succ skip => rw [piecesGo, ih, List.drop_succ_cons]
    | zero =>
      rw [pieces, List.drop_zero, piecesGo, piecesGo]
      split <;> rw [ih, ih] <;> simp

theorem pieces_nil : pieces [] = [] := rfl

/-- A character at the front of a text is its first piece. -/
theorem pieces_char_append (c : Char) (rest : Bytes) :
    pieces (utf8EncodeChar c ++ rest) = .char c :: pieces rest := by
  obtain ⟨b, tail, he⟩ := List.exists_cons_of_ne_nil (utf8EncodeChar_ne_nil c)
  have hleading : leading? (utf8EncodeChar c ++ rest) = some (c, (utf8EncodeChar c).length) :=
    leading?_eq_some_iff.mpr ⟨List.prefix_append _ rest, rfl⟩
  rw [he, List.cons_append] at hleading ⊢
  rw [pieces, piecesGo, hleading]
  simp [piecesGo_eq]

/-- Where no character starts, the first byte is stray. -/
theorem pieces_stray_cons {b : UInt8} (h : leading? (b :: rest) = none) :
    pieces (b :: rest) = .stray b :: pieces rest := by
  rw [pieces, piecesGo, h]
  simp [piecesGo_eq]

/-- A text starts with a character, or its first byte is stray, or it is empty. -/
theorem exists_piece (bs : Bytes) : bs = [] ∨
    (∃ c rest, bs = utf8EncodeChar c ++ rest ∧ pieces bs = .char c :: pieces rest) ∨
    ∃ b rest, bs = b :: rest ∧ pieces bs = .stray b :: pieces rest := by
  cases bs with
  | nil => exact .inl rfl
  | cons b rest =>
    cases h : leading? (b :: rest) with
    | none => exact .inr (.inr ⟨b, rest, rfl, pieces_stray_cons h⟩)
    | some found =>
      obtain ⟨c, size⟩ := found
      obtain ⟨⟨rest', hrest⟩, -⟩ := leading?_eq_some_iff.mp h
      rw [← hrest]
      exact .inr (.inl ⟨c, rest', rfl, pieces_char_append c rest'⟩)

/-- **No byte is lost**: the pieces put together are the text. -/
theorem flatMap_bytes_pieces (bs : Bytes) : (pieces bs).flatMap Piece.bytes = bs := by
  induction hn : bs.length using Nat.strongRecOn generalizing bs with
  | _ n ih =>
    obtain rfl | ⟨c, rest, rfl, hpieces⟩ | ⟨b, rest, rfl, hpieces⟩ := exists_piece bs
    · rfl
    · have hpos := List.length_pos_iff.mpr (utf8EncodeChar_ne_nil c)
      rw [List.length_append] at hn
      rw [hpieces, List.flatMap_cons, ih rest.length (by omega) rest rfl, Piece.bytes]
    · rw [List.length_cons] at hn
      rw [hpieces, List.flatMap_cons, ih rest.length (by omega) rest rfl, Piece.bytes]
      rfl

/-- The encodings of characters are read as these characters. -/
theorem pieces_encode_append (cs : List Char) (rest : Bytes) :
    pieces (cs.flatMap utf8EncodeChar ++ rest) = cs.map .char ++ pieces rest := by
  induction cs with
  | nil => rfl
  | cons c cs ih => rw [List.flatMap_cons, List.append_assoc, pieces_char_append, ih]; rfl

theorem pieces_encode (cs : List Char) : pieces (cs.flatMap utf8EncodeChar) = cs.map .char := by
  have h := pieces_encode_append cs []
  rwa [List.append_nil, pieces_nil, List.append_nil] at h

/-- Literals are their characters. -/
theorem lit_inj {s t : String} : Bytes.lit s = Bytes.lit t ↔ s = t := by
  constructor
  · intro h
    have hpieces := congrArg pieces h
    rw [Bytes.lit, Bytes.lit, pieces_encode, pieces_encode] at hpieces
    have hinj : Function.Injective Piece.char := fun _ _ => Piece.char.inj
    exact String.toList_inj.mp (hinj.list_map hpieces)
  · rintro rfl
    rfl

/-! ### Well-formed texts -/

/-- **Texts without stray bytes** are the encodings of lists of characters. -/
theorem isValid_iff : isValid bs = true ↔ ∃ cs : List Char, bs = cs.flatMap utf8EncodeChar := by
  constructor
  · intro h
    obtain ⟨cs, hcs⟩ : ∃ cs : List Char, pieces bs = cs.map .char := by
      rw [isValid] at h
      generalize pieces bs = ps at h
      induction ps with
      | nil => exact ⟨[], rfl⟩
      | cons p ps ih =>
        rw [List.all_cons, Bool.and_eq_true] at h
        obtain ⟨cs, rfl⟩ := ih h.2
        cases p with
        | char c => exact ⟨c :: cs, rfl⟩
        | stray b => exact absurd h.1 Bool.false_ne_true
    refine ⟨cs, ?_⟩
    rw [← flatMap_bytes_pieces bs, hcs, List.flatMap_map]
    rfl
  · rintro ⟨cs, rfl⟩
    rw [isValid, pieces_encode, List.all_map]
    exact List.all_eq_true.mpr (fun _ _ => rfl)

/-- Behind a well-formed text, everything is read as it is on its own. -/
theorem isValid_append_left {s : Bytes} (hs : isValid s = true) (t : Bytes) :
    isValid (s ++ t) = isValid t := by
  obtain ⟨cs, rfl⟩ := isValid_iff.mp hs
  rw [isValid, isValid, pieces_encode_append, List.all_append, List.all_map]
  exact Bool.and_eq_right_iff_imp.mpr fun _ => List.all_eq_true.mpr fun _ _ => rfl

theorem isValid_append {s t : Bytes} (hs : isValid s = true) (ht : isValid t = true) :
    isValid (s ++ t) = true :=
  (isValid_append_left hs t).trans ht

theorem isValid_flatMap {α : Type} {l : List α} {f : α → Bytes} (h : ∀ a ∈ l, isValid (f a) = true) :
    isValid (l.flatMap f) = true := by
  induction l with
  | nil => rfl
  | cons a l ih =>
    rw [List.flatMap_cons]
    exact isValid_append (h a List.mem_cons_self) (ih fun a ha => h a (List.mem_cons_of_mem _ ha))

theorem isValid_char (c : Char) : isValid (utf8EncodeChar c) = true :=
  isValid_iff.mpr ⟨[c], (List.flatMap_singleton _ c).symm⟩

theorem isValid_lit (s : String) : isValid (Bytes.lit s) = true := isValid_iff.mpr ⟨s.toList, rfl⟩

/-- ASCII texts are well-formed. -/
theorem isValid_of_ascii (h : bs.all (· < 0x80) = true) : isValid bs = true := by
  induction bs with
  | nil => rfl
  | cons b rest ih =>
    rw [List.all_cons, Bool.and_eq_true, decide_eq_true_eq, UInt8.lt_iff_toNat_lt] at h
    have hb := (Encoding.one h.1).eq_utf8EncodeChar
    rw [← List.singleton_append, hb]
    exact isValid_append (isValid_char _) (ih h.2)

theorem isValid_of_all {p : UInt8 → Bool} (hp : ∀ b, p b = true → b < 0x80) (h : bs.all p = true) :
    isValid bs = true := by
  refine isValid_of_ascii (List.all_eq_true.mpr ?_)
  intro b hb
  exact decide_eq_true (hp b (List.all_eq_true.mp h b hb))

theorem isValid_of_all_isDigit (h : bs.all Bytes.isDigit = true) : isValid bs = true := by
  refine isValid_of_all ?_ h
  intro b hb
  simp only [Bytes.isDigit, Bool.and_eq_true, decide_eq_true_eq] at hb
  exact UInt8.lt_of_le_of_lt hb.2 (by decide)

/-- **Cutting at an ASCII character** breaks no other character. -/
theorem isValid_append_cons_iff {s t : Bytes} {x : UInt8} (hx : x < 0x80) :
    isValid (s ++ x :: t) = true ↔ isValid s = true ∧ isValid t = true := by
  constructor
  · intro h
    obtain ⟨cs, hcs⟩ := isValid_iff.mp h
    induction cs generalizing s with
    | nil => simp at hcs
    | cons c cs ih =>
      have hrest : isValid (cs.flatMap utf8EncodeChar) = true := isValid_iff.mpr ⟨cs, rfl⟩
      rw [List.flatMap_cons] at hcs
      -- the cut is in front of the end of the first character, or behind it
      obtain ⟨u, hu, hxt⟩ | ⟨u, rfl, hflat⟩ := List.append_eq_append_iff.mp hcs
      · cases u with
        | nil =>
          rw [List.nil_append] at hxt
          rw [← hxt] at hrest
          rw [List.append_nil] at hu
          exact ⟨hu ▸ isValid_char c, (ih (s := []) hrest hxt).2⟩
        | cons y u =>
          -- the cut is inside the first character, so that character is `x`
          obtain ⟨rfl, rfl⟩ := List.cons.inj hxt
          obtain ⟨-, hone⟩ | ⟨-, hall⟩ := utf8EncodeChar_cases c
          · rw [hone, eq_comm, List.append_eq_singleton_iff] at hu
            obtain ⟨rfl, hu⟩ | ⟨-, hu⟩ := hu
            · rw [(List.cons.inj hu).2]
              exact ⟨rfl, hrest⟩
            · exact absurd hu (List.cons_ne_nil x u)
          · rw [hu, List.all_append, List.all_cons, Bool.and_eq_true, Bool.and_eq_true, decide_eq_true_eq]
              at hall
            exact absurd hx (UInt8.not_lt.mpr hall.2.1)
      · rw [hflat] at hrest
        obtain ⟨hu, ht⟩ := ih hrest hflat.symm
        exact ⟨isValid_append (isValid_char c) hu, ht⟩
  · rintro ⟨hs, ht⟩
    rw [← List.singleton_append]
    exact isValid_append hs (isValid_append (isValid_of_ascii (by simpa using hx)) ht)

/-! ### Repair -/

/-- A piece with the replacement character in place of a stray byte. -/
def Piece.repair : Piece → Bytes
  | .char c => utf8EncodeChar c
  | .stray _ => utf8EncodeChar '\ufffd'

/-- The text with the replacement character in place of every stray byte. -/
def repair (bs : Bytes) : Bytes := (pieces bs).flatMap Piece.repair

/-- Nothing is to be repaired in a well-formed text. -/
theorem repair_eq_self (h : isValid bs = true) : repair bs = bs := by
  obtain ⟨cs, rfl⟩ := isValid_iff.mp h
  rw [repair, pieces_encode, List.flatMap_map]
  rfl

end CrateAudit.Utf8
