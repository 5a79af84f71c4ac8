import CrateAudit.Number.Reading
import CrateAudit.Proofs.Bytes.Decimal
import CrateAudit.Proofs.Bytes.Space
import CrateAudit.Proofs.Number.Binary64
import Mathlib.Data.List.TakeWhile

/-!
# Numbers with a fraction

A number that is written as digits, a point and digits (`Numeral`) is read as the double-precision number
nearest to it, if that number is in range (`Numeral.read?_text`).
-/

namespace CrateAudit.Binary64

open Bytes

variable {b : UInt8} {whole fraction digits rest : Bytes}

/-! ### Decimal digits -/

theorem isDigit_iff : isDigit b = true ↔ 0x30 ≤ b.toNat ∧ b.toNat ≤ 0x39 := by
  simp only [isDigit, Bool.and_eq_true, decide_eq_true_eq, UInt8.le_iff_toNat_le]
  rfl

/-- The digits stand in front of the letters. -/
theorem lowerByte_of_le (h : b.toNat ≤ 0x39) : lowerByte b = b := by
  unfold lowerByte
  rw [if_neg]
  simp only [Bool.and_eq_true, decide_eq_true_eq, UInt8.le_iff_toNat_le, not_and]
  intro hle
  have hlow : 0x41 ≤ b.toNat := hle
  omega

theorem toNat_le_of_isNumeral (h : isNumeral b = true) : b.toNat ≤ 0x39 := by
  rw [isNumeral, Bool.or_eq_true, isDigit_iff, decide_eq_true_eq] at h
  obtain h | rfl := h
  · exact h.2
  · decide

theorem digitValue?_of_isDigit (h : isDigit b = true) : digitValue? 10 b = some (b.toNat - 0x30) := by
  have hlt : b.toNat - 0x30 < 10 := by
    have hrange := isDigit_iff.mp h
    omega
  simp [digitValue?, h, hlt]

theorem digitValue?_of_not_isDigit (h : isDigit b = false) : digitValue? 10 b = none := by
  simp only [digitValue?, h, Bool.false_eq_true, if_false]
  split
  · -- the letters stand for ten and more
    rename_i hletter
    have hle : 10 ≤ (lowerByte b).toNat - 0x57 := by
      simp only [Bool.and_eq_true, decide_eq_true_eq, UInt8.le_iff_toNat_le] at hletter
      have hlow : 0x61 ≤ (lowerByte b).toNat := hletter.1
      omega
    simp [hle]
  · rfl

theorem isSome_digitValue? : (fun b => (digitValue? 10 b).isSome) = isDigit := by
  funext b
  cases h : isDigit b with
  | true => rw [digitValue?_of_isDigit h, Option.isSome_some]
  | false => rw [digitValue?_of_not_isDigit h, Option.isSome_none]

theorem digitsIn_eq (hall : digits.all isDigit = true) : digitsIn 10 digits = digitsValue digits := by
  rw [digitsIn, digitsValue]
  refine List.foldl_ext _ _ _ fun n b hb => ?_
  rw [digitValue?_of_isDigit (List.all_eq_true.mp hall b hb), Option.getD_some]

/-! ### Numerals with a point -/

/-- A number that starts with a digit is decimal, unless the marker of another base follows. -/
theorem readPlain?_of_isDigit (hb : isDigit b = true) (hrest : ∀ m ∈ rest.head?, lowerByte m ≠ 0x78) :
    readPlain? (b :: rest) = readNumeral? false 10 (b :: rest) := by
  have hrange := isDigit_iff.mp hb
  have hne : ∀ c : UInt8, isDigit c = false → b ≠ c := by
    rintro c hc rfl
    rw [hb] at hc
    contradiction
  -- a digit is no letter, so the number is none of the names
  have hname : ∀ c : UInt8, ∀ name, isDigit c = false → (b :: rest).map lowerByte ≠ c :: name := by
    intro c name hc heq
    rw [List.map_cons, lowerByte_of_le hrange.2] at heq
    exact hne c hc (List.cons.inj heq).1
  unfold readPlain?
  split
  rename_i signed negative body heq
  split at heq
  · rename_i hcons
    exact absurd (List.cons.inj hcons).1 (hne _ rfl)
  · rename_i hcons
    exact absurd (List.cons.inj hcons).1 (hne _ rfl)
  · obtain ⟨rfl, rfl, rfl⟩ : false = signed ∧ false = negative ∧ b :: rest = body := by
      simpa using heq
    have hinf : (b :: rest).map lowerByte ≠ lit "inf" := hname _ _ rfl
    have hinfinity : (b :: rest).map lowerByte ≠ lit "infinity" := hname _ _ rfl
    have hnan : (b :: rest).map lowerByte ≠ lit "nan" := hname _ _ rfl
    simp only [hinf, hinfinity, hnan, decide_false, Bool.or_false, Bool.false_eq_true, if_false]
    split
    · rename_i m rest' hcons
      obtain ⟨-, rfl⟩ := List.cons.inj hcons
      rw [if_neg (hrest m rfl), hcons]
    · rfl

/-- A number in units of a negative power of ten is rounded once. -/
theorem scaled?_neg (negative : Bool) (digits : ℕ) {places : ℕ} (hplaces : 0 < places) :
    scaled? negative digits 10 (-(places : ℤ)) =
      if digits < overflow * 10 ^ places then some (ofRatio negative digits (10 ^ places)) else none := by
  have hden : 0 < 10 ^ places := Nat.pow_pos (by omega)
  have hround : (if digits = 0 then .finite negative 0
      else if (0 : ℤ) ≤ -(places : ℤ) then ofRatio negative (digits * Nat.pow 10 (-(places : ℤ)).toNat) 1
      else ofRatio negative digits (Nat.pow 10 (-(-(places : ℤ))).toNat)) =
      ofRatio negative digits (10 ^ places) := by
    rw [if_neg (by omega : ¬ (0 : ℤ) ≤ -(places : ℤ)), Int.neg_neg, Int.toNat_natCast, Nat.pow_eq]
    split
    · rename_i hzero
      rw [hzero, ofRatio_zero hden]
    · rfl
  simp only [scaled?, hround]
  rw [ofRatio_eq hden]
  split_ifs <;> rfl

/-- Digits, a point and digits: a number printed with a fraction. -/
structure Numeral where
  whole : Bytes
  fraction : Bytes
  whole_ne_nil : whole ≠ []
  fraction_ne_nil : fraction ≠ []
  all_whole : whole.all isDigit = true
  all_fraction : fraction.all isDigit = true

namespace Numeral

/-- The number as it is written. -/
def text (e : Numeral) : Bytes := e.whole ++ 0x2e :: e.fraction

/-- The number times `10 ^ places`. -/
def scaledValue (e : Numeral) : ℕ := digitsValue (e.whole ++ e.fraction)

/-- The number of digits behind the point. -/
def places (e : Numeral) : ℕ := e.fraction.length

/-- Whether the number is not rounded out of range. -/
def InRange (e : Numeral) : Prop := e.scaledValue < overflow * 10 ^ e.places

instance (e : Numeral) : Decidable e.InRange := inferInstanceAs (Decidable (_ < _))

/-- The number nearest to it. -/
def value (e : Numeral) : Binary64 := ofRatio false e.scaledValue (10 ^ e.places)

theorem all_text (e : Numeral) : e.text.all isNumeral = true := by
  rw [text, List.all_append, List.all_cons, all_isNumeral_of_all_isDigit e.all_whole,
    all_isNumeral_of_all_isDigit e.all_fraction]
  rfl

theorem text_ne_nil (e : Numeral) : e.text ≠ [] := List.append_ne_nil_of_left_ne_nil e.whole_ne_nil _

/-- The digits in front of the point and behind it are found. -/
theorem readNumeral?_text (e : Numeral) :
    readNumeral? false 10 e.text = scaled? false e.scaledValue 10 (-(e.places : ℤ)) := by
  have hwhole : ∀ b ∈ e.whole, isDigit b = true := List.all_eq_true.mp e.all_whole
  have hfraction : ∀ b ∈ e.fraction, isDigit b = true := List.all_eq_true.mp e.all_fraction
  have hpoint : isDigit 0x2e = false := rfl
  have hall : (e.whole ++ e.fraction).all isDigit = true := by
    rw [List.all_append, e.all_whole, e.all_fraction]
    rfl
  have htake : e.fraction.takeWhile isDigit = e.fraction := List.takeWhile_eq_self_iff.mpr hfraction
  have hdrop : e.fraction.dropWhile isDigit = [] := List.dropWhile_eq_nil_iff.mpr hfraction
  unfold readNumeral?
  simp only [isSome_digitValue?, text, List.takeWhile_append_of_pos hwhole, List.dropWhile_append_of_pos hwhole]
  rw [List.takeWhile_cons_of_neg (by rw [hpoint]; exact Bool.false_ne_true), List.append_nil,
    List.dropWhile_cons_of_neg (by rw [hpoint]; exact Bool.false_ne_true)]
  simp only [htake, hdrop, digitsIn_eq hall, List.isEmpty_eq_false_iff.mpr e.whole_ne_nil, Bool.false_and,
    Bool.false_eq_true, if_false]
  rfl

/-- **Reading a number with a fraction** gives the nearest number, if that is in range. -/
theorem read?_text (e : Numeral) : read? e.text = if e.InRange then some e.value else none := by
  -- no byte is above the digits, so there are no separators and no marker of a base
  have hle : ∀ c ∈ e.text, c.toNat ≤ 0x39 := fun c hc =>
    toNat_le_of_isNumeral (List.all_eq_true.mp e.all_text c hc)
  have hunderscore : ∀ c ∈ e.text, c ≠ 0x5f := by
    rintro c hc rfl
    exact absurd (hle _ hc) (by decide)
  obtain ⟨b, rest, hwhole⟩ := List.exists_cons_of_ne_nil e.whole_ne_nil
  have htext : e.text = b :: (rest ++ 0x2e :: e.fraction) := by
    rw [text, hwhole, List.cons_append]
  have hb : isDigit b = true := List.all_eq_true.mp e.all_whole b (hwhole ▸ List.mem_cons_self)
  have hmarker : ∀ m ∈ (rest ++ 0x2e :: e.fraction).head?, lowerByte m ≠ 0x78 := by
    intro m hm
    have hmem : m ∈ e.text := htext ▸ List.mem_cons_of_mem b (List.mem_of_mem_head? hm)
    rw [lowerByte_of_le (hle m hmem)]
    rintro rfl
    exact absurd (hle _ hmem) (by decide)
  calc read? e.text = readPlain? e.text := by
        have hcontains : e.text.contains 0x5f = false := by
          rw [List.contains_eq_mem, decide_eq_false_iff_not]
          exact fun hmem => hunderscore _ hmem rfl
        have hfilter : e.text.filter (· ≠ 0x5f) = e.text :=
          List.filter_eq_self.mpr fun c hc => decide_eq_true (hunderscore c hc)
        rw [read?, hcontains, hfilter]
        rfl
    _ = readNumeral? false 10 e.text := by rw [htext, readPlain?_of_isDigit hb hmarker]
    _ = scaled? false e.scaledValue 10 (-(e.places : ℤ)) := e.readNumeral?_text
    _ = if e.InRange then some e.value else none :=
        scaled?_neg false e.scaledValue (List.length_pos_iff.mpr e.fraction_ne_nil)

end Numeral

end CrateAudit.Binary64
