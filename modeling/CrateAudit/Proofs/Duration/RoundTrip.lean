import CrateAudit.Proofs.Duration
import CrateAudit.Proofs.Number.Exact
import Mathlib.Data.List.DropRight

/-!
# Durations read back

The text of a duration consists of parts, each a decimal with a unit (`exists_partsText_eq`). Parts are read one by one
and added up (`readParts_partsText`). Reading a decimal involves a double-precision product, but no part of a written
duration has more decimal places than its unit has powers of ten, so nothing is rounded (`fractionLength_eq`). Hence a
duration that is not negative reads back as itself, up to the longest one (`read_text`), and setting a duration from its
own text sets it to what was written (`assign_text`).
-/

namespace CrateAudit.Duration

open Bytes

variable {v places n : ℕ} {digits fraction rest : Bytes}

/-! ### Digits behind the point -/

theorem fractionDigits_succ (v places : ℕ) :
    fractionDigits v (places + 1) = lastDigit (v / 10 ^ places) :: fractionDigits v places := by
  rw [fractionDigits, List.range_succ_eq_map, List.map_cons, List.map_map, fractionDigits]
  congr 1
  refine List.map_congr_left fun i hi => ?_
  rw [Function.comp_apply, show places + 1 - 1 - i.succ = places - 1 - i by omega]

theorem length_fractionDigits (v places : ℕ) : (fractionDigits v places).length = places := by
  simp [fractionDigits]

theorem all_isDigit_fractionDigits (v places : ℕ) : (fractionDigits v places).all isDigit = true := by
  simp [fractionDigits, isDigit_lastDigit]

/-- The digits behind the point have the rest as their value. -/
theorem digitsValue_fractionDigits (v places : ℕ) : digitsValue (fractionDigits v places) = v % 10 ^ places := by
  induction places with
  | zero => simp [fractionDigits, digitsValue, Nat.mod_one]
  | succ places ih =>
    have hdigit : digitsValue [lastDigit (v / 10 ^ places)] = v / 10 ^ places % 10 := by
      rw [← List.nil_append [_], digitsValue_concat, toNat_lastDigit]
      simp [digitsValue]
    rw [fractionDigits_succ, ← List.singleton_append, digitsValue_append, hdigit, ih, length_fractionDigits,
      Nat.mod_pow_succ, Nat.mul_comm, Nat.add_comm]

/-- The digits behind the point that are written. -/
def keptDigits (v places : ℕ) : Bytes := ((fractionDigits v places).reverse.dropWhile (· = 0x30)).reverse

/-- Only zeros are left out. -/
theorem exists_fractionDigits_eq (v places : ℕ) :
    ∃ zeros, fractionDigits v places = keptDigits v places ++ List.replicate zeros 0x30 := by
  have hsplit := congrArg List.reverse
    (List.takeWhile_append_dropWhile (p := fun b => decide (b = 0x30)) (l := (fractionDigits v places).reverse))
  rw [List.reverse_append, List.reverse_reverse] at hsplit
  refine ⟨_, hsplit.symm.trans (congrArg _ (List.eq_replicate_of_mem fun b hb => ?_))⟩
  simpa using List.mem_takeWhile_imp (List.mem_reverse.mp hb)

/-- What there is to know about the digits that are written. -/
theorem keptDigits_spec (v places : ℕ) :
    (keptDigits v places).all isDigit = true ∧ (keptDigits v places).length ≤ places ∧
      digitsValue (keptDigits v places) * 10 ^ (places - (keptDigits v places).length) = v % 10 ^ places := by
  obtain ⟨zeros, hdigits⟩ := exists_fractionDigits_eq v places
  have hall := all_isDigit_fractionDigits v places
  have hlength := length_fractionDigits v places
  have hvalue := digitsValue_fractionDigits v places
  have hzeros : digitsValue (List.replicate zeros 0x30) = 0 := by
    have hreplicate : (List.replicate zeros (0x30 : UInt8)).all isDigit = true :=
      List.all_eq_true.mpr fun b hb => by rw [List.eq_of_mem_replicate hb]; rfl
    rw [digitsValue_eq_zero_iff hreplicate, List.length_replicate]
  rw [hdigits, List.all_append, Bool.and_eq_true] at hall
  rw [hdigits, List.length_append, List.length_replicate] at hlength
  rw [hdigits, digitsValue_append, List.length_replicate, hzeros, Nat.add_zero] at hvalue
  refine ⟨hall.1, by omega, ?_⟩
  rw [← hvalue, show places - (keptDigits v places).length = zeros by omega]

/-! ### Parts -/

/-- A number with a unit in the text of a duration: digits, perhaps digits behind a point, and the unit. -/
structure Part where
  whole : Bytes
  fraction : Bytes
  unit : Bytes × ℕ
  whole_ne_nil : whole ≠ []
  all_whole : whole.all isDigit = true
  all_fraction : fraction.all isDigit = true
  unit_mem : unit ∈ units

/-- What there is to know about the units. -/
theorem units_spec : ∀ unit ∈ units,
    unit.1.head?.any isDigit = false ∧ unit.1.head? ≠ some 0x2e ∧ 0x24 ∉ unit.1 ∧ unit.1 ≠ [] ∧
      unit.1.all (fun b => b ≠ 0x2e && !isDigit b) = true ∧ units.find? (·.1 = unit.1) = some unit ∧ 0 < unit.2 := by
  decide

namespace Part

variable (p : Part)

/-- The text of a part. -/
def text : Bytes := p.whole ++ (if p.fraction.isEmpty then [] else 0x2e :: p.fraction) ++ p.unit.1

/-- The length of what stands behind the point, as it is computed. -/
def fractionAmount : ℕ :=
  let grown := p.fraction.foldl growFraction (0, 0, false)
  if 0 < grown.1 then fractionLength grown.1 grown.2.1 p.unit.2 else 0

/-- The length of a part. -/
def amount : ℕ := digitsValue p.whole * p.unit.2 + p.fractionAmount

/-- The digits, what stands behind the point and the unit are told apart. -/
theorem fields_text (hrest : rest.head?.all isDigit = true) :
    (p.text ++ rest).takeWhile isDigit = p.whole ∧
      (p.text ++ rest).dropWhile isDigit =
        (if p.fraction.isEmpty then [] else 0x2e :: p.fraction) ++ (p.unit.1 ++ rest) ∧
      (p.fraction ++ (p.unit.1 ++ rest)).takeWhile isDigit = p.fraction ∧
      (p.fraction ++ (p.unit.1 ++ rest)).dropWhile isDigit = p.unit.1 ++ rest ∧
      (p.unit.1 ++ rest).takeWhile (fun b => b ≠ 0x2e && !isDigit b) = p.unit.1 ∧
      (p.unit.1 ++ rest).dropWhile (fun b => b ≠ 0x2e && !isDigit b) = rest := by
  obtain ⟨hhead, -, -, hne, hall, -⟩ := units_spec p.unit p.unit_mem
  -- each field ends in front of a byte that cannot belong to it
  have hunit : (p.unit.1 ++ rest).head?.any isDigit = false := by
    rwa [List.head?_append_of_ne_nil _ hne]
  have htail : ((if p.fraction.isEmpty then [] else 0x2e :: p.fraction) ++ (p.unit.1 ++ rest)).head?.any isDigit
      = false := by
    split_ifs
    · exact hunit
    · rfl
  have hname : (p.unit.1 ++ rest).takeWhile (fun b => b ≠ 0x2e && !isDigit b) = p.unit.1 := by
    refine Environment.takeWhile_append_of_stop (List.all_eq_true.mp hall) fun b hb => ?_
    rw [Option.mem_def.mp hb, Option.all_some] at hrest
    simp [hrest]
  have hbehind := List.takeWhile_append_dropWhile (p := fun b => b ≠ 0x2e && !isDigit b) (l := p.unit.1 ++ rest)
  rw [hname, List.append_cancel_left_eq] at hbehind
  have htext : p.text ++ rest =
      p.whole ++ ((if p.fraction.isEmpty then [] else 0x2e :: p.fraction) ++ (p.unit.1 ++ rest)) := by
    simp only [text, List.append_assoc]
  obtain ⟨htake, hdrop⟩ := takeWhile_digits_append p.all_whole htail
  obtain ⟨htake', hdrop'⟩ := takeWhile_digits_append p.all_fraction hunit
  rw [htext]
  exact ⟨htake, hdrop, htake', hdrop', hname, hbehind⟩

/-- A part is read, if what follows it cannot be taken for a piece of its unit. -/
theorem readPart_text (hamount : p.amount ≤ 2 ^ 63) (message : Bytes) (hrest : rest.head?.all isDigit = true) :
    readPart message (p.text ++ rest) = .ok (p.amount, rest) := by
  obtain ⟨-, hdot, -, hne, -, hfind, hpos⟩ := units_spec p.unit p.unit_mem
  obtain ⟨htake, hdrop, htake', hdrop', hname, hbehind⟩ := p.fields_text hrest
  have hempty : p.whole.isEmpty = false := List.isEmpty_eq_false_iff.mpr p.whole_ne_nil
  have hempty' : p.unit.1.isEmpty = false := List.isEmpty_eq_false_iff.mpr hne
  have hpoint : ∀ more, p.unit.1 ++ rest ≠ 0x2e :: more := by
    intro more heq
    have hhead := congrArg List.head? heq
    rw [List.head?_append_of_ne_nil _ hne] at hhead
    exact hdot hhead
  -- none of the tests for numbers out of range strikes
  have hproduct : digitsValue p.whole * p.unit.2 ≤ 2 ^ 63 := le_trans (Nat.le_add_right _ _) hamount
  have hvalue : ¬ 2 ^ 63 < digitsValue p.whole :=
    Nat.not_lt.mpr (le_trans (Nat.le_mul_of_pos_right _ hpos) hproduct)
  have hquotient : ¬ 2 ^ 63 / p.unit.2 < digitsValue p.whole := by
    rw [Nat.div_lt_iff_lt_mul hpos]
    exact Nat.not_lt.mpr hproduct
  unfold readPart
  by_cases hfraction : p.fraction = []
  · simp only [htake, hdrop, hfraction, List.isEmpty_nil, if_true, List.nil_append, Nat.pow_eq, if_neg hvalue,
      hempty, Bool.false_and, Bool.false_eq_true, if_false, hname, hempty', hfind, if_neg hquotient, hbehind]
    rw [← hfraction]
    exact if_neg (Nat.not_lt.mpr hamount)
  · simp only [htake, hdrop, List.isEmpty_eq_false_iff.mpr hfraction, Bool.false_eq_true, if_false, List.cons_append,
      Nat.pow_eq, if_neg hvalue, htake', hdrop', hempty, Bool.false_and, hname, hempty', hfind, if_neg hquotient,
      hbehind]
    exact if_neg (Nat.not_lt.mpr hamount)

theorem head?_text : p.text.head?.any isDigit = true := by
  obtain ⟨b, digits, hwhole⟩ := List.exists_cons_of_ne_nil p.whole_ne_nil
  have hall := p.all_whole
  rw [hwhole, List.all_cons, Bool.and_eq_true] at hall
  rw [text, hwhole]
  exact hall.1

theorem two_le_length_text : 2 ≤ p.text.length := by
  obtain ⟨-, -, -, hne, -⟩ := units_spec p.unit p.unit_mem
  have hwhole := List.length_pos_iff.mpr p.whole_ne_nil
  have hunit := List.length_pos_iff.mpr hne
  simp only [text, List.length_append]
  omega

theorem dollar_not_mem_text : 0x24 ∉ p.text := by
  obtain ⟨-, -, hunit, -⟩ := units_spec p.unit p.unit_mem
  have hdigits : ∀ digits : Bytes, digits.all isDigit = true → 0x24 ∉ digits := by
    intro digits hall hmem
    exact absurd (List.all_eq_true.mp hall _ hmem) (by decide)
  have hfraction : 0x24 ∉ (if p.fraction.isEmpty then [] else 0x2e :: p.fraction) := by
    split_ifs
    · exact List.not_mem_nil
    · simpa using hdigits _ p.all_fraction
  simp only [text, List.mem_append, not_or]
  exact ⟨⟨hdigits _ p.all_whole, hfraction⟩, hunit⟩

end Part

/-! ### Texts of several parts -/

/-- The text of some parts. -/
def partsText (parts : List Part) : Bytes := parts.flatMap Part.text

/-- The length of some parts together. -/
def partsAmount (parts : List Part) : ℕ := (parts.map Part.amount).sum

theorem partsAmount_nil : partsAmount [] = 0 := rfl

theorem partsAmount_cons (p : Part) (parts : List Part) : partsAmount (p :: parts) = p.amount + partsAmount parts := by
  rw [partsAmount, List.map_cons, List.sum_cons, partsAmount]

theorem partsText_cons (p : Part) (parts : List Part) : partsText (p :: parts) = p.text ++ partsText parts :=
  List.flatMap_cons

theorem head?_partsText (parts : List Part) : (partsText parts).head?.all isDigit = true := by
  cases parts with
  | nil => rfl
  | cons p parts =>
    have hhead := p.head?_text
    rw [partsText_cons]
    cases htext : p.text with
    | nil => exact absurd p.two_le_length_text (by rw [htext]; decide)
    | cons b bs =>
      rw [htext] at hhead
      exact hhead

theorem length_partsText (parts : List Part) : 2 * parts.length ≤ (partsText parts).length := by
  induction parts with
  | nil => exact Nat.zero_le _
  | cons p parts ih =>
    have htext := p.two_le_length_text
    rw [partsText_cons, List.length_append, List.length_cons]
    omega

/-- **Parts are added up**, if they are in range together. -/
theorem readParts_partsText (message : Bytes) {parts : List Part} {fuel sum : ℕ} (hfuel : parts.length ≤ fuel)
    (hsum : sum + partsAmount parts ≤ 2 ^ 63) :
    readParts message fuel sum (partsText parts) = .ok (sum + partsAmount parts) := by
  induction parts generalizing fuel sum with
  | nil => exact readParts_nil message fuel sum
  | cons p parts ih =>
    obtain ⟨fuel, rfl⟩ : ∃ fuel', fuel = fuel' + 1 := ⟨fuel - 1, by rw [List.length_cons] at hfuel; omega⟩
    rw [partsAmount_cons] at hsum ⊢
    have hpart := p.readPart_text (by omega) message (head?_partsText parts)
    have hne : p.text ++ partsText parts ≠ [] := by
      refine List.append_ne_nil_of_left_ne_nil (List.ne_nil_of_length_pos ?_) _
      have htext := p.two_le_length_text
      omega
    rw [partsText_cons, readParts_succ hne hpart (by omega),
      ih (Nat.le_of_succ_le_succ hfuel) (by omega), Nat.add_assoc]

/-- A text that starts with a digit has no sign, and if it is longer than that, it is not a lone zero. -/
theorem readSigned_of_readParts {bs : Bytes} (hhead : bs.head?.any isDigit = true) (hlength : 2 ≤ bs.length)
    (hread : readParts bs bs.length 0 bs = .ok n) (hn : n < 2 ^ 63) : readSigned bs = .ok ⟨Int64.ofNat n⟩ := by
  have hsign : ∀ sign rest, isDigit sign = false → bs ≠ sign :: rest := by
    rintro sign rest hsign rfl
    exact Bool.false_ne_true (hsign.symm.trans hhead)
  have hplus : ∀ rest, bs ≠ 0x2b :: rest := fun rest => hsign _ rest rfl
  have hminus : ∀ rest, bs ≠ 0x2d :: rest := fun rest => hsign _ rest rfl
  have hzero : bs ≠ lit "0" := by
    rintro rfl
    exact absurd hlength (by decide)
  have hne : bs.isEmpty = false := by
    cases bs with
    | nil => exact absurd hlength (by decide)
    | cons b bs => rfl
  unfold readSigned
  simp only [hzero, hne, if_false, Bool.false_eq_true, hread]
  show (if Nat.pow 2 63 - 1 < n then _ else _) = _
  rw [if_neg (by rw [Nat.pow_eq]; omega)]
  rfl

/-- **Texts of parts** are read as their lengths together, if they are in range. -/
theorem read_partsText {parts : List Part} (hne : parts ≠ []) (hamount : partsAmount parts < 2 ^ 63)
    (env : Environment) : read env (partsText parts) = .ok ⟨Int64.ofNat (partsAmount parts)⟩ := by
  have hlength := length_partsText parts
  have hpos := List.length_pos_iff.mpr hne
  have hhead : (partsText parts).head?.any isDigit = true := by
    obtain ⟨b, bs, htext⟩ := List.exists_cons_of_length_pos (show 0 < (partsText parts).length by omega)
    have hall := head?_partsText parts
    rw [htext] at hall ⊢
    exact hall
  have hdollar : 0x24 ∉ partsText parts := by
    rw [partsText, List.mem_flatMap]
    rintro ⟨p, -, hmem⟩
    exact p.dollar_not_mem_text hmem
  have hempty : (partsText parts).isEmpty = false := by
    rw [List.isEmpty_eq_false_iff, ← List.length_pos_iff]
    omega
  have hparts := readParts_partsText (partsText parts) (show parts.length ≤ (partsText parts).length by omega)
    (show 0 + partsAmount parts ≤ 2 ^ 63 by omega)
  rw [Nat.zero_add] at hparts
  have hnonneg : ¬ Int64.ofNat (partsAmount parts) < 0 := by
    rw [Int64.lt_iff_toInt_lt, Int64.toInt_ofNat_of_lt hamount]
    exact Int.not_lt.mpr (Int.natCast_nonneg _)
  rw [read_eq, hempty, Environment.expand_eq_self hdollar,
    readSigned_of_readParts hhead (by omega) hparts hamount]
  show (if Int64.ofNat (partsAmount parts) < 0 then _ else _) = _
  rw [if_neg hnonneg]
  rfl

/-! ### Exact fractions -/

/-- Few digits behind the point are taken over as they are. -/
theorem foldl_growFraction (hall : fraction.all isDigit = true) (hlength : fraction.length ≤ 18) :
    fraction.foldl growFraction (0, 0, false) = (digitsValue fraction, fraction.length, false) := by
  induction fraction using List.reverseRecOn with
  | nil => rfl
  | append_singleton fraction b ih =>
    rw [List.length_append, List.length_singleton] at hlength
    have hvalue := digitsValue_lt hall
    rw [List.length_append, List.length_singleton, digitsValue_concat] at hvalue
    rw [List.all_append, Bool.and_eq_true] at hall
    have hpow : 10 ^ (fraction.length + 1) ≤ 10 ^ 18 := Nat.pow_le_pow_right (by omega) hlength
    rw [List.foldl_append, ih hall.1 (by omega), List.foldl_cons, List.foldl_nil, growFraction, digitsValue_concat,
      List.length_append, List.length_singleton]
    simp only [Nat.pow_eq, Bool.false_or, decide_eq_true_eq]
    rw [if_neg (by omega), if_neg (by omega)]

/-- **Fractions** of a unit that is a power of ten are exact, if they are whole nanoseconds. -/
theorem fractionLength_eq {f k : ℕ} (hf : f < 10 ^ places) (hplaces : places ≤ k) (hk : k ≤ 15) :
    fractionLength f places (10 ^ k) = f * 10 ^ (k - places) := by
  have hpow : 10 ^ (k - places) * 10 ^ places = 10 ^ k := by rw [← Nat.pow_add, Nat.sub_add_cancel hplaces]
  have hlimit : 10 ^ k < 2 ^ 53 := (Nat.pow_le_pow_right (by omega) hk).trans_lt (by decide)
  have hscale : 10 ^ (k - places) < 2 ^ 53 := (Nat.pow_le_pow_right (by omega) (Nat.sub_le _ _)).trans_lt hlimit
  have hproduct : f * 10 ^ (k - places) < 2 ^ 53 := by
    refine lt_of_le_of_lt ?_ hlimit
    rw [← hpow, Nat.mul_comm]
    exact Nat.mul_le_mul_left _ hf.le
  have hf' : f < 2 ^ 53 := (hf.le.trans (Nat.pow_le_pow_right (by omega) hplaces)).trans_lt hlimit
  rw [fractionLength, Binary64.ofInt_natCast hf', Binary64.ofInt_natCast hlimit, Nat.pow_eq, ← hpow,
    Binary64.divNat_whole (Nat.pow_pos (by omega)) hscale, Binary64.mul_whole hproduct, Binary64.toNat_whole]

namespace Part

/-- The length of a part whose unit is a power of ten. -/
theorem amount_eq (p : Part) {k : ℕ} (hunit : p.unit.2 = 10 ^ k) (hfraction : p.fraction.length ≤ k) (hk : k ≤ 15) :
    p.amount = digitsValue p.whole * 10 ^ k + digitsValue p.fraction * 10 ^ (k - p.fraction.length) := by
  have hlt := digitsValue_lt p.all_fraction
  rw [amount, fractionAmount, foldl_growFraction p.all_fraction (by omega), hunit]
  dsimp only
  rw [fractionLength_eq hlt hfraction hk]
  split_ifs with hpos
  · rfl
  · rw [Nat.eq_zero_of_not_pos hpos, Nat.zero_mul]

/-- A whole number with a unit is a part. -/
theorem exists_whole (n : ℕ) {name : Bytes} {length : ℕ} (hunit : (name, length) ∈ units) :
    ∃ p : Part, p.text = decimal n ++ name ∧ p.amount = n * length := by
  refine ⟨⟨decimal n, [], (name, length), decimal_ne_nil n, all_isDigit_decimal n, rfl, hunit⟩, ?_, ?_⟩
  · simp [text]
  · rw [amount, digitsValue_decimal]
    rfl

/-- A decimal with all places that a unit has is a part, and its length is exact. -/
theorem exists_decimal (v : ℕ) {name : Bytes} {places : ℕ} (hplaces : places ≤ 15)
    (hunit : (name, 10 ^ places) ∈ units) :
    ∃ p : Part, p.text = trimmedDecimal v places ++ name ∧ p.amount = v := by
  obtain ⟨hall, hlength, hvalue⟩ := keptDigits_spec v places
  refine ⟨⟨decimal (v / 10 ^ places), keptDigits v places, (name, 10 ^ places), decimal_ne_nil _,
    all_isDigit_decimal _, hall, hunit⟩, rfl, ?_⟩
  rw [amount_eq _ rfl hlength hplaces]
  dsimp only
  rw [digitsValue_decimal, hvalue, Nat.div_add_mod']

end Part

/-! ### Round trip -/

/-- From a minute on there are two or three numbers. -/
theorem exists_partsText_of_minutes (h : 60 * 10 ^ 9 ≤ n) :
    ∃ parts : List Part, parts ≠ [] ∧ magnitudeText n = partsText parts ∧ partsAmount parts = n := by
  have hminutes : 0 < n / 1000000000 / 60 := by omega
  obtain ⟨hour, hourText, hourAmount⟩ :=
    Part.exists_whole (n / 1000000000 / 60 / 60) (show (lit "h", 3600000000000) ∈ units by decide)
  obtain ⟨minute, minuteText, minuteAmount⟩ :=
    Part.exists_whole (n / 1000000000 / 60 % 60) (show (lit "m", 60000000000) ∈ units by decide)
  obtain ⟨second, secondText, secondAmount⟩ :=
    Part.exists_decimal (n / 1000000000 % 60 * 1000000000 + n % 1000000000) (show 9 ≤ 15 by omega)
      (show (lit "s", 10 ^ 9) ∈ units by decide)
  have htext : magnitudeText n =
      (if 0 < n / 1000000000 / 60 / 60 then hour.text else []) ++ (minute.text ++ second.text) := by
    rw [hourText, minuteText, secondText, magnitudeText, if_neg (by omega), if_neg (by omega), if_neg (by omega),
      if_neg (by omega)]
    simp only [if_pos hminutes, List.append_assoc]
  by_cases hhours : 0 < n / 1000000000 / 60 / 60
  · refine ⟨[hour, minute, second], List.cons_ne_nil _ _, ?_, ?_⟩
    · rw [htext, if_pos hhours]
      simp [partsText]
    · simp only [partsAmount_cons, partsAmount_nil, hourAmount, minuteAmount, secondAmount]
      omega
  · refine ⟨[minute, second], List.cons_ne_nil _ _, ?_, ?_⟩
    · rw [htext, if_neg hhours]
      simp [partsText]
    · simp only [partsAmount_cons, partsAmount_nil, minuteAmount, secondAmount]
      omega

/-- **Durations in parts**: a number of nanoseconds is written as parts that have this length together. -/
theorem exists_partsText_eq (n : ℕ) :
    ∃ parts : List Part, parts ≠ [] ∧ magnitudeText n = partsText parts ∧ partsAmount parts = n := by
  have hpart : ∀ p : Part, magnitudeText n = p.text → p.amount = n →
      ∃ parts : List Part, parts ≠ [] ∧ magnitudeText n = partsText parts ∧ partsAmount parts = n :=
    fun p htext hamount => ⟨[p], List.cons_ne_nil _ _, by simp [htext, partsText], by simp [partsAmount, hamount]⟩
  obtain rfl | hpos := Nat.eq_zero_or_pos n
  · obtain ⟨p, htext, hamount⟩ := Part.exists_whole 0 (show (lit "s", 1000000000) ∈ units by decide)
    exact hpart p htext.symm (hamount.trans (Nat.zero_mul _))
  by_cases hnano : n < 1000
  · obtain ⟨p, htext, hamount⟩ := Part.exists_whole n (show (lit "ns", 1) ∈ units by decide)
    exact hpart p (by rw [magnitudeText_nanoseconds hpos hnano, htext]) (hamount.trans (Nat.mul_one n))
  by_cases hmicro : n < 10 ^ 6
  · obtain ⟨p, htext, hamount⟩ :=
      Part.exists_decimal n (show 3 ≤ 15 by omega) (show (lit "µs", 10 ^ 3) ∈ units by decide)
    exact hpart p (by rw [magnitudeText_microseconds (by omega) hmicro, htext]) hamount
  by_cases hmilli : n < 10 ^ 9
  · obtain ⟨p, htext, hamount⟩ :=
      Part.exists_decimal n (show 6 ≤ 15 by omega) (show (lit "ms", 10 ^ 6) ∈ units by decide)
    exact hpart p (by rw [magnitudeText_milliseconds (by omega) hmilli, htext]) hamount
  by_cases hsecond : n < 60 * 10 ^ 9
  · obtain ⟨p, htext, hamount⟩ :=
      Part.exists_decimal n (show 9 ≤ 15 by omega) (show (lit "s", 10 ^ 9) ∈ units by decide)
    exact hpart p (by rw [magnitudeText_seconds (by omega) hsecond, htext]) hamount
  · exact exists_partsText_of_minutes (Nat.not_lt.mp hsecond)

/-- **Written durations** read back, whatever the environment. -/
theorem read_text {d : Duration} (hnonneg : 0 ≤ d.nanoseconds.toInt) (env : Environment) : read env d.text = .ok d := by
  obtain ⟨parts, hne, htext, hamount⟩ := exists_partsText_eq d.nanoseconds.toInt.toNat
  have hlt : partsAmount parts < 2 ^ 63 := by
    have hrange := d.nanoseconds.toInt_lt
    omega
  have hvalue : Int64.ofNat (partsAmount parts) = d.nanoseconds := by
    calc Int64.ofNat (partsAmount parts) = Int64.ofInt (d.nanoseconds.toInt.toNat : ℕ) := by rw [hamount]; rfl
      _ = d.nanoseconds := by rw [Int.toNat_of_nonneg hnonneg, Int64.ofInt_toInt]
  rw [text_of_nonneg hnonneg, htext, read_partsText hne hlt, hvalue]

/-- **Durations as text**: the text of a duration that is not negative sets every duration to this one, in whatever
environment. Whatever a text is, if it sets a duration then to one that is not negative, and if it is refused then the
duration stays as it was. -/
theorem assign_text (env : Environment) :
    (∀ d previous : Duration, 0 ≤ d.nanoseconds.toInt → (assign env d.text).run.run previous = (.ok (), d)) ∧
      ∀ (bs : Bytes) (previous stored : Duration),
        ((assign env bs).run.run previous = (.ok (), stored) → 0 ≤ stored.nanoseconds.toInt) ∧
          ∀ e, (assign env bs).run.run previous = (.error e, stored) → stored = previous := by
  refine ⟨fun d previous hd => ?_, fun bs previous stored => ?_⟩
  · obtain ⟨d', hread, hrun⟩ | ⟨e, hread, -⟩ := assign_cases env d.text previous
    · rw [read_text hd] at hread
      rw [hrun, Except.ok.inj hread]
    · exact nomatch (read_text hd env).symm.trans hread
  · obtain ⟨d', hread, hrun⟩ | ⟨e, -, hrun⟩ := assign_cases env bs previous
    · rw [hrun]
      refine ⟨fun h => ?_, nofun⟩
      rw [← (Prod.mk.inj h).2]
      exact nonneg_of_read hread
    · rw [hrun]
      exact ⟨nofun, fun e h => (Prod.mk.inj h).2.symm⟩

/-- The longest duration, and a text that is too long by a nanosecond. -/
theorem assign_text_longest :
    text ⟨Int64.maxValue⟩ = lit "2562047h47m16.854775807s" ∧
      (assign ⟨[]⟩ (lit "2562047h47m16.854775807s")).run.run ⟨5⟩ = (.ok (), ⟨Int64.maxValue⟩) ∧
      ∃ e, (assign ⟨[]⟩ (lit "2562047h47m16.854775808s")).run.run ⟨5⟩ = (.error e, ⟨5⟩) := by
  have htext : text ⟨Int64.maxValue⟩ = lit "2562047h47m16.854775807s" := by decide +kernel
  have hrefused : ((assign ⟨[]⟩ (lit "2562047h47m16.854775808s")).run.run ⟨5⟩).1.isOk = false := by decide +kernel
  refine ⟨htext, htext ▸ (assign_text ⟨[]⟩).1 ⟨Int64.maxValue⟩ ⟨5⟩ (by decide), ?_⟩
  generalize hrun : (assign ⟨[]⟩ (lit "2562047h47m16.854775808s")).run.run ⟨5⟩ = answer at hrefused ⊢
  obtain ⟨e | _, stored⟩ := answer
  · exact ⟨e, by rw [((assign_text ⟨[]⟩).2 _ _ _).2 e hrun]⟩
  · exact nomatch hrefused

end CrateAudit.Duration
