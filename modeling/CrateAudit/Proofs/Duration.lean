import CrateAudit.Duration
import CrateAudit.Proofs.Bytes.Decimal
import CrateAudit.Proofs.Environment
import Mathlib.Data.List.TakeWhile

/-!
# Written durations

A duration is written as a whole number with one unit only if it is less than a thousand nanoseconds, or
whole milliseconds below a second, or whole seconds below a minute (`SingleUnit`). Such a text reads back as
the same duration (`read_text_of_singleUnit`); any other has a point, a second number or the sign for
microseconds in it (`compound_magnitudeText`).
-/

namespace CrateAudit.Duration

open Bytes

variable {n v places : ℕ}

theorem isLetter_of_isDigit {b : UInt8} (h : isDigit b = true) : isLetter b = false := by
  simp only [isDigit, Bool.and_eq_true, decide_eq_true_eq, UInt8.le_iff_toNat_le] at h
  have hle : b.toNat ≤ 0x39 := h.2
  have hupper : ¬ (0x41 : UInt8) ≤ b := by
    rw [UInt8.le_iff_toNat_le]
    show ¬ 0x41 ≤ b.toNat
    omega
  have hlower : ¬ (0x61 : UInt8) ≤ b := by
    rw [UInt8.le_iff_toNat_le]
    show ¬ 0x61 ≤ b.toNat
    omega
  simp [isLetter, hupper, hlower]

/-! ### Decimals without trailing zeros -/

/-- A number has only zeros at its lowest places exactly if it is a multiple of a power of ten. -/
theorem forall_digit_eq_zero_iff (v places : ℕ) :
    (∀ i < places, v / 10 ^ i % 10 = 0) ↔ 10 ^ places ∣ v := by
  induction places with
  | zero => simp
  | succ places ih =>
    rw [Nat.forall_lt_succ_right, ih, Nat.pow_succ]
    constructor
    · rintro ⟨⟨q, rfl⟩, hdigit⟩
      rw [Nat.mul_div_cancel_left q (Nat.pow_pos (by omega))] at hdigit
      exact Nat.mul_dvd_mul_left _ (Nat.dvd_of_mod_eq_zero hdigit)
    · rintro ⟨q, rfl⟩
      refine ⟨⟨10 * q, Nat.mul_assoc _ _ _⟩, ?_⟩
      rw [Nat.mul_assoc, Nat.mul_div_cancel_left _ (Nat.pow_pos (by omega))]
      exact Nat.mul_mod_right 10 q

/-- The digits behind the point. -/
def fractionDigits (v places : ℕ) : Bytes :=
  (List.range places).map fun i => lastDigit (v / 10 ^ (places - 1 - i))

theorem lastDigit_eq_zero_iff (n : ℕ) : lastDigit n = 0x30 ↔ n % 10 = 0 := by
  rw [← UInt8.toNat_inj, toNat_lastDigit]
  show 0x30 + n % 10 = 0x30 ↔ _
  omega

theorem forall_fractionDigits_iff (v places : ℕ) :
    (∀ b ∈ fractionDigits v places, b = 0x30) ↔ 10 ^ places ∣ v := by
  rw [← forall_digit_eq_zero_iff, fractionDigits, List.forall_mem_map]
  constructor
  · intro h i hi
    have hdigit := h (places - 1 - i) (List.mem_range.mpr (by omega))
    rwa [lastDigit_eq_zero_iff, show places - 1 - (places - 1 - i) = i by omega] at hdigit
  · intro h i hi
    have hi' := List.mem_range.mp hi
    rw [lastDigit_eq_zero_iff]
    exact h (places - 1 - i) (by omega)

theorem trimmedDecimal_eq (v places : ℕ) :
    trimmedDecimal v places = decimal (v / 10 ^ places) ++
      if (((fractionDigits v places).reverse.dropWhile (· = 0x30)).reverse).isEmpty then []
      else lit "." ++ ((fractionDigits v places).reverse.dropWhile (· = 0x30)).reverse := rfl

theorem isEmpty_dropWhile_iff (v places : ℕ) :
    (((fractionDigits v places).reverse.dropWhile (· = 0x30)).reverse).isEmpty = true ↔ 10 ^ places ∣ v := by
  rw [List.isEmpty_iff, List.reverse_eq_nil_iff, List.dropWhile_eq_nil_iff, ← forall_fractionDigits_iff]
  simp only [List.mem_reverse, decide_eq_true_eq]

theorem trimmedDecimal_of_dvd (h : 10 ^ places ∣ v) : trimmedDecimal v places = decimal (v / 10 ^ places) := by
  rw [trimmedDecimal_eq, if_pos ((isEmpty_dropWhile_iff v places).mpr h), List.append_nil]

theorem trimmedDecimal_of_not_dvd (h : ¬ 10 ^ places ∣ v) :
    ∃ kept, trimmedDecimal v places = decimal (v / 10 ^ places) ++ 0x2e :: kept := by
  rw [trimmedDecimal_eq, if_neg (mt (isEmpty_dropWhile_iff v places).mp h)]
  exact ⟨_, rfl⟩

/-! ### The ranges of the text -/

theorem magnitudeText_nanoseconds (hpos : 0 < n) (h : n < 1000) : magnitudeText n = decimal n ++ lit "ns" := by
  rw [magnitudeText, if_neg (by omega), if_pos h]

theorem magnitudeText_microseconds (hle : 1000 ≤ n) (h : n < 10 ^ 6) :
    magnitudeText n = trimmedDecimal n 3 ++ lit "µs" := by
  rw [magnitudeText, if_neg (by omega), if_neg (by omega), if_pos (by omega)]

theorem magnitudeText_milliseconds (hle : 10 ^ 6 ≤ n) (h : n < 10 ^ 9) :
    magnitudeText n = trimmedDecimal n 6 ++ lit "ms" := by
  rw [magnitudeText, if_neg (by omega), if_neg (by omega), if_neg (by omega), if_pos (by omega)]

theorem magnitudeText_seconds (hle : 10 ^ 9 ≤ n) (h : n < 60 * 10 ^ 9) :
    magnitudeText n = trimmedDecimal n 9 ++ lit "s" := by
  have hminutes : ¬ 0 < n / 1000000000 / 60 := by omega
  have hhours : ¬ 0 < n / 1000000000 / 60 / 60 := by omega
  have hvalue : n / 1000000000 % 60 * 1000000000 + n % 1000000000 = n := by omega
  rw [magnitudeText, if_neg (by omega), if_neg (by omega), if_neg (by omega), if_neg (by omega)]
  simp only [if_neg hminutes, if_neg hhours, hvalue, List.nil_append]

/-- From a minute on there are two numbers at least. -/
theorem exists_magnitudeText_of_minutes (hle : 60 * 10 ^ 9 ≤ n) :
    ∃ k unit m rest, magnitudeText n = decimal k ++ unit :: (decimal m ++ rest) ∧ isDigit unit = false := by
  have hminutes : 0 < n / 1000000000 / 60 := by omega
  rw [magnitudeText, if_neg (by omega), if_neg (by omega), if_neg (by omega), if_neg (by omega)]
  simp only [if_pos hminutes]
  generalize n / 1000000000 % 60 * 1000000000 + n % 1000000000 = rest
  by_cases hhours : 0 < n / 1000000000 / 60 / 60
  · refine ⟨n / 1000000000 / 60 / 60, 0x68, n / 1000000000 / 60 % 60,
      lit "m" ++ (trimmedDecimal rest 9 ++ lit "s"), ?_, rfl⟩
    simp only [if_pos hhours, List.append_assoc]
    rfl
  · obtain ⟨tail, htail⟩ : ∃ tail, trimmedDecimal rest 9 = decimal (rest / 10 ^ 9) ++ tail :=
      ⟨_, trimmedDecimal_eq rest 9⟩
    refine ⟨n / 1000000000 / 60 % 60, 0x6d, rest / 10 ^ 9, tail ++ lit "s", ?_, rfl⟩
    simp only [if_neg hhours, htail, List.nil_append, List.append_assoc]
    rfl

/-! ### Texts with one unit -/

/-- A number of nanoseconds that is written as a whole number with one unit. -/
def SingleUnit (n : ℕ) : Prop := n < 1000 ∨ n < 10 ^ 9 ∧ 10 ^ 6 ∣ n ∨ n < 60 * 10 ^ 9 ∧ 10 ^ 9 ∣ n

instance : DecidablePred SingleUnit := fun n =>
  inferInstanceAs (Decidable (n < 1000 ∨ n < 10 ^ 9 ∧ 10 ^ 6 ∣ n ∨ n < 60 * 10 ^ 9 ∧ 10 ^ 9 ∣ n))

/-- The units of these texts. -/
def wholeUnits : List (Bytes × ℕ) := [(lit "ns", 1), (lit "ms", 10 ^ 6), (lit "s", 10 ^ 9)]

/-- With one unit: a whole number of it is written. -/
theorem exists_magnitudeText_of_singleUnit (h : SingleUnit n) :
    ∃ unit ∈ wholeUnits, ∃ k, n = k * unit.2 ∧ magnitudeText n = decimal k ++ unit.1 := by
  obtain rfl | hpos := Nat.eq_zero_or_pos n
  · exact ⟨(lit "s", 10 ^ 9), by decide, 0, rfl, rfl⟩
  obtain hns | ⟨hlt, k, rfl⟩ | ⟨hlt, k, rfl⟩ := h
  · exact ⟨(lit "ns", 1), by decide, n, (Nat.mul_one n).symm, magnitudeText_nanoseconds hpos hns⟩
  · refine ⟨(lit "ms", 10 ^ 6), by decide, k, Nat.mul_comm _ _, ?_⟩
    rw [magnitudeText_milliseconds (by omega) hlt, trimmedDecimal_of_dvd (Nat.dvd_mul_right _ _),
      Nat.mul_div_cancel_left k (by omega)]
  · refine ⟨(lit "s", 10 ^ 9), by decide, k, Nat.mul_comm _ _, ?_⟩
    rw [magnitudeText_seconds (by omega) hlt, trimmedDecimal_of_dvd (Nat.dvd_mul_right _ _),
      Nat.mul_div_cancel_left k (by omega)]

/-- A text with a number in front and more than a unit of letters behind it. -/
def Compound (text : Bytes) : Prop :=
  ∃ k tail, text = decimal k ++ tail ∧ tail.head?.any isDigit = false ∧ tail.all isLetter = false

theorem compound_trimmedDecimal (h : ¬ 10 ^ places ∣ v) (unit : Bytes) :
    Compound (trimmedDecimal v places ++ unit) := by
  obtain ⟨kept, hkept⟩ := trimmedDecimal_of_not_dvd h
  refine ⟨v / 10 ^ places, 0x2e :: (kept ++ unit), ?_, rfl, rfl⟩
  rw [hkept, List.append_assoc, List.cons_append]

/-- Otherwise there is a point, a second number or the sign for microseconds behind the first number. -/
theorem compound_magnitudeText (h : ¬ SingleUnit n) : Compound (magnitudeText n) := by
  simp only [SingleUnit, not_or, not_and, Nat.not_lt] at h
  obtain ⟨hns, hms, hs⟩ := h
  by_cases hmicro : n < 10 ^ 6
  · rw [magnitudeText_microseconds hns hmicro]
    by_cases hdvd : 10 ^ 3 ∣ n
    · refine ⟨n / 10 ^ 3, lit "µs", ?_, rfl, rfl⟩
      rw [trimmedDecimal_of_dvd hdvd]
    · exact compound_trimmedDecimal hdvd _
  by_cases hmilli : n < 10 ^ 9
  · rw [magnitudeText_milliseconds (by omega) hmilli]
    exact compound_trimmedDecimal (hms hmilli) _
  by_cases hsecond : n < 60 * 10 ^ 9
  · rw [magnitudeText_seconds (by omega) hsecond]
    exact compound_trimmedDecimal (hs hsecond) _
  · obtain ⟨k, unit, m, rest, htext, hunit⟩ := exists_magnitudeText_of_minutes (Nat.not_lt.mp hsecond)
    obtain ⟨b, digits, hdecimal⟩ := List.exists_cons_of_ne_nil (decimal_ne_nil m)
    have hdigit : isDigit b = true :=
      List.all_eq_true.mp (all_isDigit_decimal m) b (hdecimal ▸ List.mem_cons_self)
    refine ⟨k, unit :: (decimal m ++ rest), htext, hunit, List.all_eq_false.mpr ⟨b, ?_, ?_⟩⟩
    · rw [hdecimal]
      exact List.mem_cons_of_mem unit List.mem_cons_self
    · exact Bool.eq_false_iff.mp (isLetter_of_isDigit hdigit)

/-! ### Setting and reading -/

section Assign

variable {env : Environment} {bs : Bytes} {d' : Duration}

theorem run_assign_of_readSigned (hne : bs.isEmpty = false) (hread : readSigned (env.expand bs) = .ok d')
    (d : Duration) :
    (assign env bs).run.run d = if d'.nanoseconds < 0 then (.error .negative, d) else (.ok (), d') := by
  rw [assign, hne, hread]
  show (if d'.nanoseconds < 0 then _ else _ : ExceptT ReadError (StateM Duration) Unit) d = _
  split_ifs <;> rfl

/-- Reading is what setting does, without a duration to set. -/
theorem read_eq (env : Environment) (bs : Bytes) :
    read env bs = (do
      if bs.isEmpty then throw .empty
      let d ← readSigned (env.expand bs)
      if d.nanoseconds < 0 then throw .negative
      return d) := by
  cases hempty : bs.isEmpty with
  | true =>
    rw [read, assign, hempty]
    rfl
  | false =>
    cases hread : readSigned (env.expand bs) with
    | error e =>
      rw [read, assign, hempty, hread]
      rfl
    | ok d =>
      rw [read, run_assign_of_readSigned hempty hread]
      show _ = (if d.nanoseconds < 0 then _ else _)
      split_ifs <;> rfl

/-- **Setting a duration**: what is read takes the place of the duration before, and if nothing is read, that one
stays. -/
theorem assign_cases (env : Environment) (bs : Bytes) (d : Duration) :
    (∃ d', read env bs = .ok d' ∧ (assign env bs).run.run d = (.ok (), d')) ∨
      ∃ e, read env bs = .error e ∧ (assign env bs).run.run d = (.error e, d) := by
  cases hempty : bs.isEmpty with
  | true =>
    rw [read, assign, hempty]
    exact .inr ⟨_, rfl, rfl⟩
  | false =>
    cases hread : readSigned (env.expand bs) with
    | error e =>
      rw [read, assign, hempty, hread]
      exact .inr ⟨_, rfl, rfl⟩
    | ok d' =>
      rw [read, run_assign_of_readSigned hempty hread, run_assign_of_readSigned hempty hread]
      split_ifs
      · exact .inr ⟨_, rfl, rfl⟩
      · exact .inl ⟨_, rfl, rfl⟩

end Assign

/-! ### Reading one number with one unit -/

/-- The units that a whole number may have, with their lengths in nanoseconds. -/
def plainUnits : List (Bytes × ℕ) :=
  [(lit "ns", 1), (lit "us", 10 ^ 3), (lit "ms", 10 ^ 6), (lit "s", 10 ^ 9), (lit "m", 60 * 10 ^ 9),
   (lit "h", 3600 * 10 ^ 9)]

theorem mem_plainUnits_of_mem_wholeUnits : ∀ unit ∈ wholeUnits, unit ∈ plainUnits := by
  decide

/-- What there is to know about the units. -/
theorem plainUnits_spec : ∀ unit ∈ plainUnits,
    unit.1.head?.any isDigit = false ∧ unit.1.head? ≠ some 0x2e ∧ 0x24 ∉ unit.1 ∧
      unit.1.isEmpty = false ∧ unit.1.takeWhile (fun b => b ≠ 0x2e && !isDigit b) = unit.1 ∧
      unit.1.dropWhile (fun b => b ≠ 0x2e && !isDigit b) = [] ∧
      units.find? (·.1 = unit.1) = some unit ∧ 0 < unit.2 := by
  decide

section Reading

variable {unit : Bytes × ℕ} {digits : Bytes}

theorem readPart_digits_append (hunit : unit ∈ plainUnits) (hne : digits ≠ [])
    (hall : digits.all isDigit = true) (whole : Bytes) :
    readPart whole (digits ++ unit.1) =
      if digitsValue digits * unit.2 ≤ 2 ^ 63 then .ok (digitsValue digits * unit.2, [])
      else .error (.invalid whole) := by
  obtain ⟨hhead, hdot, -, hname?, hname, hrest, hfind, hpos⟩ := plainUnits_spec unit hunit
  obtain ⟨htake, hdrop⟩ := takeWhile_digits_append hall hhead
  have hdigits : digits.isEmpty = false := List.isEmpty_eq_false_iff.mpr hne
  have hpoint : ∀ more, unit.1 ≠ 0x2e :: more := fun more heq => hdot (congrArg List.head? heq)
  have hquotient : 2 ^ 63 / unit.2 < digitsValue digits ↔ ¬ digitsValue digits * unit.2 ≤ 2 ^ 63 := by
    rw [Nat.div_lt_iff_lt_mul hpos, Nat.not_le]
  unfold readPart
  simp only [htake, hdrop, Nat.pow_eq, hdigits, Bool.false_and, Bool.false_eq_true, if_false, hname, hname?, hfind,
    List.foldl_nil, Nat.lt_irrefl, Nat.add_zero, hrest]
  by_cases hvalue : digitsValue digits * unit.2 ≤ 2 ^ 63
  · -- none of the tests for numbers out of range strikes
    have hnumber : ¬ 2 ^ 63 < digitsValue digits := by
      have hle : digitsValue digits ≤ digitsValue digits * unit.2 := Nat.le_mul_of_pos_right _ hpos
      omega
    simp only [if_pos hvalue, if_neg hnumber, if_neg (mt hquotient.mp (not_not_intro hvalue)),
      if_neg (Nat.not_lt.mpr hvalue)]
    rfl
  · simp only [if_neg hvalue, if_pos (hquotient.mpr hvalue)]
    split <;> rfl

/-- The first part of a text is added to the sum. -/
theorem readParts_succ {whole bs rest : Bytes} {sum : ℕ} (hne : bs ≠ []) (hpart : readPart whole bs = .ok (n, rest))
    (hsum : sum + n ≤ 2 ^ 63) (fuel : ℕ) :
    readParts whole (fuel + 1) sum bs = readParts whole fuel (sum + n) rest := by
  have hmod : (sum + n) % Nat.pow 2 64 = sum + n := by
    rw [Nat.pow_eq]
    exact Nat.mod_eq_of_lt (by omega)
  have hlimit : ¬ Nat.pow 2 63 < sum + n := by
    rw [Nat.pow_eq]
    omega
  rw [readParts, hpart]
  · show (if Nat.pow 2 63 < (sum + n) % Nat.pow 2 64 then _ else _) = _
    rw [hmod, if_neg hlimit]
  · exact hne

theorem readParts_nil (whole : Bytes) (fuel sum : ℕ) : readParts whole fuel sum [] = .ok sum := by
  cases fuel <;> rfl

/-- A text that is one part. -/
theorem readParts_of_readPart {whole bs : Bytes} (hne : bs ≠ []) (hpart : readPart whole bs = .ok (n, []))
    (hn : n ≤ 2 ^ 63) : readParts whole bs.length 0 bs = .ok n := by
  obtain ⟨b, rest, rfl⟩ := List.exists_cons_of_ne_nil hne
  rw [List.length_cons, readParts_succ hne hpart (by omega), readParts_nil, Nat.zero_add]

/-- A text whose first part is refused. -/
theorem readParts_of_readPart_error {whole bs : Bytes} {e : ReadError} (hne : bs ≠ [])
    (hpart : readPart whole bs = .error e) : readParts whole bs.length 0 bs = .error e := by
  obtain ⟨b, rest, rfl⟩ := List.exists_cons_of_ne_nil hne
  rw [List.length_cons, readParts, hpart]
  · rfl
  · exact hne

theorem readSigned_digits_append (hunit : unit ∈ plainUnits) (hne : digits ≠ [])
    (hall : digits.all isDigit = true) :
    readSigned (digits ++ unit.1) =
      if digitsValue digits * unit.2 < 2 ^ 63 then .ok ⟨Int64.ofNat (digitsValue digits * unit.2)⟩
      else .error (.invalid (digits ++ unit.1)) := by
  have hne' : digits ++ unit.1 ≠ [] := List.append_ne_nil_of_left_ne_nil hne _
  -- the text starts with a digit and has a unit, so there is no sign, and it is not a lone zero
  have hsign : ∀ sign rest, isDigit sign = false → digits ++ unit.1 ≠ sign :: rest := by
    intro sign rest hsign heq
    obtain ⟨b, digits, rfl⟩ := List.exists_cons_of_ne_nil hne
    have hdigit : isDigit b = true := List.all_eq_true.mp hall b List.mem_cons_self
    rw [(List.cons.inj heq).1, hsign] at hdigit
    contradiction
  have hplus : ∀ rest, digits ++ unit.1 ≠ 0x2b :: rest := fun rest => hsign _ rest rfl
  have hminus : ∀ rest, digits ++ unit.1 ≠ 0x2d :: rest := fun rest => hsign _ rest rfl
  have hzero : digits ++ unit.1 ≠ lit "0" := by
    intro heq
    obtain ⟨-, -, -, hempty, -⟩ := plainUnits_spec unit hunit
    have hlength := congrArg List.length heq
    have hdigits := List.length_pos_iff.mpr hne
    have hunit' := List.length_pos_iff.mpr (List.isEmpty_eq_false_iff.mp hempty)
    rw [List.length_append] at hlength
    have hone : (lit "0").length = 1 := rfl
    omega
  unfold readSigned
  simp only [hzero, List.isEmpty_eq_false_iff.mpr hne', if_false, Bool.false_eq_true]
  have hpart := readPart_digits_append hunit hne hall (digits ++ unit.1)
  by_cases hvalue : digitsValue digits * unit.2 ≤ 2 ^ 63
  · rw [if_pos hvalue] at hpart
    rw [readParts_of_readPart hne' hpart hvalue]
    show (if Nat.pow 2 63 - 1 < digitsValue digits * unit.2 then _ else _) = _
    by_cases hlt : digitsValue digits * unit.2 < 2 ^ 63
    · rw [if_pos hlt, if_neg (by rw [Nat.pow_eq]; omega)]
      rfl
    · rw [if_neg hlt, if_pos (by rw [Nat.pow_eq]; omega)]
      rfl
  · rw [if_neg hvalue] at hpart
    rw [readParts_of_readPart_error hne' hpart, if_neg (by omega)]
    rfl

/-- **Reading a number with a unit** gives that many units, if they are in range. -/
theorem read_digits_append (hunit : unit ∈ plainUnits) (hne : digits ≠ []) (hall : digits.all isDigit = true)
    (env : Environment) :
    read env (digits ++ unit.1) =
      if digitsValue digits * unit.2 < 2 ^ 63 then .ok ⟨Int64.ofNat (digitsValue digits * unit.2)⟩
      else .error (.invalid (digits ++ unit.1)) := by
  have hdollar : 0x24 ∉ digits ++ unit.1 := by
    obtain ⟨-, -, hunit', -⟩ := plainUnits_spec unit hunit
    rw [List.mem_append, not_or]
    exact ⟨fun hmem => absurd (List.all_eq_true.mp hall _ hmem) (by decide), hunit'⟩
  have hempty : (digits ++ unit.1).isEmpty = false :=
    List.isEmpty_eq_false_iff.mpr (List.append_ne_nil_of_left_ne_nil hne _)
  rw [read_eq, hempty, Environment.expand_eq_self hdollar, readSigned_digits_append hunit hne hall]
  by_cases hvalue : digitsValue digits * unit.2 < 2 ^ 63
  · have hnonneg : ¬ Int64.ofNat (digitsValue digits * unit.2) < 0 := by
      rw [Int64.lt_iff_toInt_lt, Int64.toInt_ofNat_of_lt hvalue]
      exact Int.not_lt.mpr (Int.natCast_nonneg _)
    rw [if_pos hvalue]
    show (if Int64.ofNat (digitsValue digits * unit.2) < 0 then _ else _) = _
    rw [if_neg hnonneg]
    rfl
  · rw [if_neg hvalue]
    rfl

end Reading

/-- What is read is not negative. -/
theorem nonneg_of_read {env : Environment} {bs : Bytes} {d : Duration} (h : read env bs = .ok d) :
    0 ≤ d.nanoseconds.toInt := by
  rw [read_eq] at h
  split at h
  · contradiction
  cases hsigned : readSigned (env.expand bs) with
  | error e =>
    rw [hsigned] at h
    contradiction
  | ok d' =>
    rw [hsigned] at h
    change (if d'.nanoseconds < 0 then _ else _) = _ at h
    split at h
    · contradiction
    · rename_i hneg
      obtain rfl := Except.ok.inj h
      rw [Int64.lt_iff_toInt_lt] at hneg
      exact Int.not_lt.mp hneg

theorem text_of_nonneg {d : Duration} (h : 0 ≤ d.nanoseconds.toInt) :
    d.text = magnitudeText d.nanoseconds.toInt.toNat := by
  rw [text, if_neg (Int.not_lt.mpr h), List.nil_append, ← Int.toNat_of_nonneg h, Int.natAbs_natCast,
    Int.toNat_natCast]

/-- **Round trip** of the durations that are written with one unit. -/
theorem read_text_of_singleUnit {d : Duration} (hnonneg : 0 ≤ d.nanoseconds.toInt)
    (h : SingleUnit d.nanoseconds.toInt.toNat) (env : Environment) : read env d.text = .ok d := by
  obtain ⟨unit, hunit, k, hk, htext⟩ := exists_magnitudeText_of_singleUnit h
  have hlt : k * unit.2 < 2 ^ 63 := by
    have hrange := d.nanoseconds.toInt_lt
    omega
  have hvalue : Int64.ofNat (k * unit.2) = d.nanoseconds := by
    calc Int64.ofNat (k * unit.2) = Int64.ofInt (d.nanoseconds.toInt.toNat : ℕ) := by rw [← hk]; rfl
      _ = d.nanoseconds := by rw [Int.toNat_of_nonneg hnonneg, Int64.ofInt_toInt]
  have hread := read_digits_append (mem_plainUnits_of_mem_wholeUnits unit hunit) (decimal_ne_nil k)
    (all_isDigit_decimal k) env
  rw [digitsValue_decimal, if_pos hlt, hvalue] at hread
  rw [text_of_nonneg hnonneg, htext, hread]

end CrateAudit.Duration
