import CrateAudit.Bytes.Basic
import Mathlib.Algebra.Order.Ring.Nat
import Mathlib.Data.List.Induction
import Mathlib.Tactic.Ring
import Mathlib.Tactic.SplitIfs

/-!
# Decimal numbers

Whole numbers are written digit by digit from the right (`decimal_eq`), so the digits have the number as
their value (`digitsValue_decimal`). A 64-bit number that is written reads back as itself
(`toInt64?_integer`), and a number that stands behind a text and a separator can be told from the text
(`append_decimal_inj`). Without a separator the number is read as itself only behind zeros and a sign
(`toInt64?_append_decimal_iff`).
-/

namespace CrateAudit.Bytes

variable {n fuel : Nat} {digits done : Bytes}

/-! ### The digits of a number -/

/-- The last digit of a number. -/
def lastDigit (n : Nat) : UInt8 := (0x30 + n % 10).toUInt8

theorem toNat_lastDigit (n : Nat) : (lastDigit n).toNat = 0x30 + n % 10 := by
  have hlt : 0x30 + n % 10 < 256 := by omega
  simpa [lastDigit] using hlt

theorem isDigit_lastDigit (n : Nat) : isDigit (lastDigit n) = true := by
  simp only [isDigit, Bool.and_eq_true, decide_eq_true_eq, UInt8.le_iff_toNat_le, toNat_lastDigit]
  constructor
  · exact Nat.le_add_right ..
  · show 0x30 + n % 10 ≤ 0x39
    omega

/-- The digits in front of the last one are put in front of whatever is there, if there is fuel. -/
theorem decimalGo_eq (h : n < fuel) : decimalGo fuel n done = decimal n ++ done := by
  induction n using Nat.strongRecOn generalizing fuel done with
  | _ n ih =>
    obtain ⟨fuel, rfl⟩ : ∃ fuel', fuel = fuel' + 1 := ⟨fuel - 1, by omega⟩
    rw [decimalGo, decimal, decimalGo]
    split_ifs with hn
    · rfl
    · rw [ih (n / 10) (by omega) (by omega), ih (n / 10) (by omega) (by omega), List.append_assoc]
      rfl

/-- **Decimal digits** from the right. -/
theorem decimal_eq (n : Nat) :
    decimal n = (if n < 10 then [] else decimal (n / 10)) ++ [lastDigit n] := by
  rw [decimal, decimalGo]
  split_ifs with hn
  · rfl
  · rw [decimalGo_eq (by omega)]
    rfl

theorem decimal_ne_nil (n : Nat) : decimal n ≠ [] := by
  rw [decimal_eq]
  simp

theorem all_isDigit_decimal (n : Nat) : (decimal n).all isDigit = true := by
  induction n using Nat.strongRecOn with
  | _ n ih =>
    rw [decimal_eq]
    split_ifs with hn
    · simp [isDigit_lastDigit]
    · simpa [isDigit_lastDigit] using ih (n / 10) (by omega)

theorem digitsValue_concat (digits : Bytes) (b : UInt8) :
    digitsValue (digits ++ [b]) = digitsValue digits * 10 + (b.toNat - 0x30) := by
  simp [digitsValue]

/-- The digits of a number have it as their value. -/
theorem digitsValue_decimal (n : Nat) : digitsValue (decimal n) = n := by
  induction n using Nat.strongRecOn with
  | _ n ih =>
    rw [decimal_eq, digitsValue_concat, toNat_lastDigit]
    split_ifs with hn
    · simp only [digitsValue, List.foldl_nil]
      omega
    · rw [ih (n / 10) (by omega)]
      omega

/-- Digits in front of others count for a power of ten more. -/
theorem digitsValue_append (digits rest : Bytes) :
    digitsValue (digits ++ rest) = digitsValue digits * 10 ^ rest.length + digitsValue rest := by
  induction rest using List.reverseRecOn with
  | nil => simp [digitsValue]
  | append_singleton rest b ih =>
    rw [← List.append_assoc, digitsValue_concat, digitsValue_concat, ih, List.length_append,
      List.length_singleton, Nat.pow_succ]
    ring

/-- Digits have a value below the power of ten of their number. -/
theorem digitsValue_lt (hall : digits.all isDigit = true) : digitsValue digits < 10 ^ digits.length := by
  induction digits using List.reverseRecOn with
  | nil => decide
  | append_singleton digits b ih =>
    rw [List.all_append, Bool.and_eq_true] at hall
    have hb : b.toNat ≤ 0x39 := by
      have hdigit := hall.2
      simp only [List.all_cons, List.all_nil, Bool.and_true, isDigit, Bool.and_eq_true, decide_eq_true_eq,
        UInt8.le_iff_toNat_le] at hdigit
      exact hdigit.2
    have hlt := ih hall.1
    rw [digitsValue_concat, List.length_append, List.length_singleton, Nat.pow_succ]
    omega

theorem digitsValue_eq_zero_iff (hall : digits.all isDigit = true) :
    digitsValue digits = 0 ↔ digits = List.replicate digits.length 0x30 := by
  induction digits using List.reverseRecOn with
  | nil => simp [digitsValue]
  | append_singleton digits b ih =>
    rw [List.all_append, Bool.and_eq_true] at hall
    have hb : 0x30 ≤ b.toNat := by
      have hdigit := hall.2
      simp only [List.all_cons, List.all_nil, Bool.and_true, isDigit, Bool.and_eq_true, decide_eq_true_eq,
        UInt8.le_iff_toNat_le] at hdigit
      exact hdigit.1
    have hzero : b.toNat - 0x30 = 0 ↔ b = 0x30 := by
      rw [← UInt8.toNat_inj]
      show _ ↔ b.toNat = 48
      omega
    rw [digitsValue_concat, Nat.add_eq_zero_iff, hzero, Nat.mul_eq_zero, or_iff_left (by omega), ih hall.1,
      List.length_append, List.length_singleton, List.replicate_succ', List.append_singleton_inj]

theorem decimal_injective : Function.Injective decimal := by
  intro n n' h
  rw [← digitsValue_decimal n, h, digitsValue_decimal]

theorem not_mem_decimal {b : UInt8} (hb : isDigit b = false) (n : Nat) : b ∉ decimal n := by
  intro hmem
  have hdigit := List.all_eq_true.mp (all_isDigit_decimal n) b hmem
  rw [hb] at hdigit
  contradiction

/-- Digits can be told from what follows, if that is not a digit. -/
theorem takeWhile_digits_append (hall : digits.all isDigit = true) {tail : Bytes}
    (h : tail.head?.any isDigit = false) :
    (digits ++ tail).takeWhile isDigit = digits ∧ (digits ++ tail).dropWhile isDigit = tail := by
  have hdigits : ∀ b ∈ digits, isDigit b = true := List.all_eq_true.mp hall
  rw [List.takeWhile_append_of_pos hdigits, List.dropWhile_append_of_pos hdigits]
  cases tail with
  | nil => exact ⟨List.append_nil _, rfl⟩
  | cons b tail =>
    have hb : ¬ isDigit b = true := Bool.eq_false_iff.mp h
    rw [List.takeWhile_cons_of_neg hb, List.dropWhile_cons_of_neg hb, List.append_nil]
    exact ⟨rfl, rfl⟩

theorem takeWhile_decimal_append (k : Nat) {tail : Bytes} (h : tail.head?.any isDigit = false) :
    (decimal k ++ tail).takeWhile isDigit = decimal k ∧ (decimal k ++ tail).dropWhile isDigit = tail :=
  takeWhile_digits_append (all_isDigit_decimal k) h

/-- There are no leading zeros. -/
theorem head?_decimal_ne (hn : 0 < n) : (decimal n).head? ≠ some 0x30 := by
  induction n using Nat.strongRecOn with
  | _ n ih =>
    rw [decimal_eq]
    split_ifs with hlt
    · intro hhead
      have hzero : (lastDigit n).toNat = 0x30 := congrArg UInt8.toNat (Option.some.inj hhead)
      rw [toNat_lastDigit] at hzero
      omega
    · obtain ⟨b, digits, hdigits⟩ := List.exists_cons_of_ne_nil (decimal_ne_nil (n / 10))
      have hhead := ih (n / 10) (by omega) (by omega)
      rw [hdigits] at hhead ⊢
      exact hhead

/-- A text is cut at a separator in one way only, if the separator does not occur behind the cut. -/
theorem append_cons_inj_of_not_mem {sep : UInt8} {x y a b : Bytes} (ha : sep ∉ a) (hb : sep ∉ b) :
    x ++ sep :: a = y ++ sep :: b ↔ x = y ∧ a = b := by
  constructor
  · intro h
    -- one of the two fronts continues the other, and what it has more starts with the separator
    obtain ⟨t, rfl, ht⟩ | ⟨t, rfl, ht⟩ := List.append_eq_append_iff.mp h
    · cases t with
      | nil => exact ⟨(List.append_nil x).symm, (List.cons.inj ht).2⟩
      | cons c t =>
        refine absurd ?_ ha
        rw [(List.cons.inj ht).2]
        exact List.mem_append_right t List.mem_cons_self
    · cases t with
      | nil => exact ⟨List.append_nil y, (List.cons.inj ht).2.symm⟩
      | cons c t =>
        refine absurd ?_ hb
        rw [(List.cons.inj ht).2]
        exact List.mem_append_right t List.mem_cons_self
  · rintro ⟨rfl, rfl⟩
    rfl

/-- The same for a separator that does not occur in front of the cut. -/
theorem append_cons_inj_of_not_mem_front {sep : UInt8} {x y a b : Bytes} (hx : sep ∉ x) (hy : sep ∉ y) :
    x ++ sep :: a = y ++ sep :: b ↔ x = y ∧ a = b := by
  rw [← List.reverse_inj, List.reverse_append, List.reverse_append, List.reverse_cons, List.reverse_cons,
    List.append_assoc, List.append_assoc, List.singleton_append, List.singleton_append,
    append_cons_inj_of_not_mem (List.mem_reverse.not.mpr hx) (List.mem_reverse.not.mpr hy), List.reverse_inj,
    List.reverse_inj, and_comm]

/-- A text and a number, with a separator between them, can be told from the whole. -/
theorem append_decimal_inj {sep : UInt8} (hsep : isDigit sep = false) {x y : Bytes} {n n' : Nat} :
    x ++ sep :: decimal n = y ++ sep :: decimal n' ↔ x = y ∧ n = n' := by
  rw [append_cons_inj_of_not_mem (not_mem_decimal hsep n) (not_mem_decimal hsep n'), decimal_injective.eq_iff]

theorem not_mem_integer {b : UInt8} (hb : isDigit b = false) (hminus : b ≠ 0x2d) (i : Int) : b ∉ integer i := by
  unfold integer
  split
  · exact fun hmem => (List.mem_cons.mp hmem).elim hminus (not_mem_decimal hb _)
  · exact not_mem_decimal hb _

theorem integer_injective : Function.Injective integer := by
  have hsign : (n n' : Nat) → lit "-" ++ decimal n ≠ decimal n' := fun n n' h =>
    not_mem_decimal (b := 0x2d) (by decide) n' (h ▸ List.mem_cons_self)
  intro i j h
  unfold integer at h
  split at h <;> split at h
  · have := decimal_injective (List.append_cancel_left h)
    omega
  · exact absurd h (hsign _ _)
  · exact absurd h.symm (hsign _ _)
  · have := decimal_injective h
    omega

/-! ### Reading numbers -/

/-- Digits without a sign are read as their value, if it is in range. -/
theorem toInt64?_of_digits (hne : digits ≠ []) (hall : digits.all isDigit = true)
    (hlt : digitsValue digits < 2 ^ 63) : toInt64? digits = some (Int64.ofInt (digitsValue digits)) := by
  obtain ⟨b, rest, rfl⟩ := List.exists_cons_of_ne_nil hne
  have hb : isDigit b = true := by
    rw [List.all_cons, Bool.and_eq_true] at hall
    exact hall.1
  -- neither sign is a digit
  have hplus : b ≠ 0x2b := by
    rintro rfl
    simp [isDigit] at hb
  have hminus : b ≠ 0x2d := by
    rintro rfl
    simp [isDigit] at hb
  unfold toInt64?
  split
  rename_i negative digits heq
  split at heq
  · rename_i hcons
    exact absurd (List.cons.inj hcons).1 hplus
  · rename_i hcons
    exact absurd (List.cons.inj hcons).1 hminus
  · obtain ⟨rfl, rfl⟩ := Prod.mk.inj heq
    rw [if_neg (by simp [hall]), if_neg Bool.false_ne_true, Nat.pow_eq, if_pos hlt]

/-- Digits with a minus sign are read as their value with the sign, if it is in range. -/
theorem toInt64?_minus (hne : digits ≠ []) (hall : digits.all isDigit = true)
    (hle : digitsValue digits ≤ 2 ^ 63) :
    toInt64? (0x2d :: digits) = some (Int64.ofInt (-digitsValue digits)) := by
  have hread : toInt64? (0x2d :: digits) =
      if digits.isEmpty || !digits.all isDigit then none
      else if digitsValue digits ≤ Nat.pow 2 63 then some (Int64.ofInt (-digitsValue digits)) else none := rfl
  rw [hread, if_neg (by simp [hne, hall]), Nat.pow_eq, if_pos hle]

/-- Digits with a plus sign are read as their value, if it is in range. -/
theorem toInt64?_plus (hne : digits ≠ []) (hall : digits.all isDigit = true)
    (hlt : digitsValue digits < 2 ^ 63) :
    toInt64? (0x2b :: digits) = some (Int64.ofInt (digitsValue digits)) := by
  have hread : toInt64? (0x2b :: digits) =
      if digits.isEmpty || !digits.all isDigit then none
      else if digitsValue digits < Nat.pow 2 63 then some (Int64.ofInt (digitsValue digits)) else none := rfl
  rw [hread, if_neg (by simp [hne, hall]), Nat.pow_eq, if_pos hlt]

/-- What is read as a number: digits with or without a sign, and the number is their value with it. -/
theorem exists_of_toInt64? {bs : Bytes} {i : Int64} (h : toInt64? bs = some i) :
    ∃ digits, digits ≠ [] ∧ digits.all isDigit = true ∧
      ((bs = digits ∨ bs = 0x2b :: digits) ∧ digitsValue digits < 2 ^ 63 ∧
          i = Int64.ofInt (digitsValue digits) ∨
        bs = 0x2d :: digits ∧ digitsValue digits ≤ 2 ^ 63 ∧ i = Int64.ofInt (-digitsValue digits)) := by
  unfold toInt64? at h
  split at h
  rename_i negative digits heq
  have hsign : (bs = digits ∨ bs = 0x2b :: digits) ∧ negative = false ∨
      bs = 0x2d :: digits ∧ negative = true := by
    split at heq
    · obtain ⟨rfl, rfl⟩ := Prod.mk.inj heq
      exact .inl ⟨.inr rfl, rfl⟩
    · obtain ⟨rfl, rfl⟩ := Prod.mk.inj heq
      exact .inr ⟨rfl, rfl⟩
    · obtain ⟨rfl, rfl⟩ := Prod.mk.inj heq
      exact .inl ⟨.inl rfl, rfl⟩
  obtain ⟨hbad, h⟩ := Option.ite_none_left_eq_some.mp h
  rw [Bool.or_eq_true, not_or, List.isEmpty_iff, Bool.not_eq_true', Bool.not_eq_false] at hbad
  refine ⟨digits, hbad.1, hbad.2, ?_⟩
  obtain ⟨hbs, rfl⟩ | ⟨hbs, rfl⟩ := hsign
  · obtain ⟨hlt, hi⟩ := Option.ite_none_right_eq_some.mp h
    exact .inl ⟨hbs, hlt, (Option.some.inj hi).symm⟩
  · obtain ⟨hle, hi⟩ := Option.ite_none_right_eq_some.mp h
    exact .inr ⟨hbs, hle, (Option.some.inj hi).symm⟩

/-- **Round trip**: a 64-bit number that is written reads back as itself. -/
theorem toInt64?_integer (i : Int64) : toInt64? (integer i.toInt) = some i := by
  have hlow := i.le_toInt
  have hhigh := i.toInt_lt
  unfold integer
  split_ifs with hi
  · have hread := toInt64?_minus (decimal_ne_nil i.toInt.natAbs) (all_isDigit_decimal _)
      (by rw [digitsValue_decimal]; omega)
    rw [digitsValue_decimal, ← Int.eq_neg_natAbs_of_nonpos (Int.le_of_lt hi), Int64.ofInt_toInt] at hread
    exact hread
  · have hread := toInt64?_of_digits (decimal_ne_nil i.toInt.natAbs) (all_isDigit_decimal _)
      (by rw [digitsValue_decimal]; omega)
    rw [digitsValue_decimal, Int.natAbs_of_nonneg (Int.not_lt.mp hi), Int64.ofInt_toInt] at hread
    exact hread

/-! ### Numbers behind a word -/

/-- The words that end in the digits of a number and are read as that number: zeros in front of it, with or
without a sign. -/
def IsPadding (word : Bytes) (n : Nat) : Prop :=
  ∃ k, word = List.replicate k 0x30 ∨ word = 0x2b :: List.replicate k 0x30 ∨
    n = 0 ∧ word = 0x2d :: List.replicate k 0x30

/-- Digits in front of a number leave it as it is exactly if they are zeros. -/
theorem digitsValue_append_decimal_eq_iff (hall : digits.all isDigit = true) (n : Nat) :
    digitsValue (digits ++ decimal n) = n ↔ digits = List.replicate digits.length 0x30 := by
  have hpos : 0 < 10 ^ (decimal n).length := Nat.pow_pos (by omega)
  rw [digitsValue_append, digitsValue_decimal, ← digitsValue_eq_zero_iff hall, Nat.add_eq_right,
    Nat.mul_eq_zero, or_iff_left hpos.ne']

theorem digitsValue_zeros_append (k n : Nat) :
    (List.replicate k 0x30 ++ decimal n).all isDigit = true ∧
      digitsValue (List.replicate k 0x30 ++ decimal n) = n := by
  have hzeros : (List.replicate k (0x30 : UInt8)).all isDigit = true := by
    rw [List.all_replicate]
    split <;> rfl
  constructor
  · rw [List.all_append, hzeros, all_isDigit_decimal]
    rfl
  · rw [digitsValue_append_decimal_eq_iff hzeros, List.length_replicate]

/-- A sign in front of a number that ends a text is part of what stands in front of the number. -/
theorem exists_of_append_decimal_eq_cons {sign : UInt8} {word : Bytes} (hsign : isDigit sign = false)
    (h : word ++ decimal n = sign :: digits) : ∃ rest, word = sign :: rest ∧ digits = rest ++ decimal n := by
  cases word with
  | nil =>
    refine absurd ?_ (not_mem_decimal hsign n)
    rw [← List.nil_append (decimal n), h]
    exact List.mem_cons_self
  | cons b rest =>
    obtain ⟨rfl, hrest⟩ := List.cons.inj h
    exact ⟨rest, rfl, hrest.symm⟩

/-- **Numbers behind a word** are read as themselves exactly if the word is a padding. -/
theorem toInt64?_append_decimal_iff (hn : n < 2 ^ 63) (word : Bytes) :
    toInt64? (word ++ decimal n) = some (Int64.ofNat n) ↔ IsPadding word n := by
  have hvalue : (Int64.ofNat n).toInt = n := Int64.toInt_ofNat_of_lt hn
  constructor
  · intro h
    obtain ⟨digits, hne, hall, ⟨hbs, hlt, hi⟩ | ⟨hbs, hle, hi⟩⟩ := exists_of_toInt64? h
    · rw [hi, Int64.toInt_ofInt_of_le (by omega) (by omega), Int.natCast_inj] at hvalue
      obtain rfl | hplus := hbs
      · rw [List.all_append, Bool.and_eq_true] at hall
        exact ⟨word.length, .inl ((digitsValue_append_decimal_eq_iff hall.1 n).mp hvalue)⟩
      · obtain ⟨rest, rfl, rfl⟩ := exists_of_append_decimal_eq_cons rfl hplus
        rw [List.all_append, Bool.and_eq_true] at hall
        rw [digitsValue_append_decimal_eq_iff hall.1 n] at hvalue
        exact ⟨rest.length, .inr (.inl (congrArg _ hvalue))⟩
    · -- a number that is not below zero is read behind a minus sign only if it is zero
      rw [hi, Int64.toInt_ofInt_of_le (by omega) (by omega)] at hvalue
      obtain ⟨rest, rfl, rfl⟩ := exists_of_append_decimal_eq_cons rfl hbs
      obtain rfl : n = 0 := by omega
      have hzero : digitsValue (rest ++ decimal 0) = 0 := by omega
      rw [List.all_append, Bool.and_eq_true] at hall
      rw [digitsValue_append_decimal_eq_iff hall.1 0] at hzero
      exact ⟨rest.length, .inr (.inr ⟨rfl, congrArg _ hzero⟩)⟩
  · have hne : ∀ k, List.replicate k 0x30 ++ decimal n ≠ [] := by
      intro k
      exact List.append_ne_nil_of_right_ne_nil _ (decimal_ne_nil n)
    rintro ⟨k, rfl | rfl | ⟨rfl, rfl⟩⟩
    · obtain ⟨hall, hdigits⟩ := digitsValue_zeros_append k n
      rw [toInt64?_of_digits (hne k) hall (by rwa [hdigits]), hdigits]
      rfl
    · obtain ⟨hall, hdigits⟩ := digitsValue_zeros_append k n
      rw [List.cons_append, toInt64?_plus (hne k) hall (by rwa [hdigits]), hdigits]
      rfl
    · obtain ⟨hall, hdigits⟩ := digitsValue_zeros_append k 0
      rw [List.cons_append, toInt64?_minus (hne k) hall (by rw [hdigits]; omega), hdigits]
      rfl

end CrateAudit.Bytes
