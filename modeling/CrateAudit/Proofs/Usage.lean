import CrateAudit.Proofs.Number.Reading
import CrateAudit.Usage

/-!
# The measurement behind other output

The wrapper prints its measurement on the stream to which the measured command writes, right behind what
the command wrote (`printed`). The reader takes the last two words of the stream. The elapsed time is always
a word of its own, but the peak is joined to what stands behind the last white space in front of it: it is
read as it was printed exactly if nothing stands there, or zeros with or without a sign
(`read_printed_iff`).
-/

namespace CrateAudit.Usage

open Bytes Binary64

variable {memory time word : Bytes} {peak : ℕ}

/-- What the wrapper prints: the peak and the elapsed time, each on a line of its own. -/
def printed (peak : ℕ) (elapsed : Numeral) : Bytes := decimal peak ++ [newline] ++ (elapsed.text ++ [newline])

/-- The last two words are the measurement. -/
theorem read_eq_ok_iff {text : Bytes} {front : List Bytes} {usage : Usage}
    (h : fields text = front ++ [memory, time]) :
    read text = .ok usage ↔ (toInt64? memory).filter (0 ≤ ·) = some usage.peakKB ∧
      (Binary64.read? time).filter (!·.isNegative) = some usage.elapsed := by
  have hreverse : (fields text).reverse = time :: memory :: front.reverse := by
    rw [h, List.reverse_append]
    rfl
  obtain ⟨peak, elapsed⟩ := usage
  simp only [read, hreverse]
  cases hpeak : (toInt64? memory).filter (0 ≤ ·) with
  | none => simp [throw, throwThe, MonadExceptOf.throw]
  | some peak' =>
    cases helapsed : (Binary64.read? time).filter (!·.isNegative) with
    | none => simp [throw, throwThe, MonadExceptOf.throw]
    | some elapsed' => simp [pure, Except.pure]

/-- **Words of a stream that ends in a measurement**: the elapsed time, and the peak with what it is joined
to. -/
theorem fields_append_printed {output : Bytes} (hword : LastWord output word) (peak : ℕ) (elapsed : Numeral) :
    ∃ front, fields (output ++ printed peak elapsed) = front ++ [word ++ decimal peak, elapsed.text] := by
  obtain ⟨hspaceless, front, hfront, rfl⟩ := hword
  have hnewline : [newline] ∈ spaces := by decide
  have hpeak : Spaceless (word ++ decimal peak) :=
    hspaceless.append_numeral (all_isNumeral_of_all_isDigit (all_isDigit_decimal peak))
  have helapsed : Spaceless elapsed.text := spaceless_nil.append_numeral elapsed.all_text
  have hne : word ++ decimal peak ≠ [] := List.append_ne_nil_of_right_ne_nil _ (decimal_ne_nil peak)
  have hclosed : Closed (word ++ decimal peak ++ [newline]) :=
    .inr ⟨[newline], hnewline, List.suffix_append _ _⟩
  refine ⟨fields front, ?_⟩
  calc fields (front ++ word ++ printed peak elapsed)
      = fields (front ++ ((word ++ decimal peak ++ [newline]) ++ (elapsed.text ++ [newline]))) := by
        simp only [printed, List.append_assoc]
    _ = fields front ++ (fields (word ++ decimal peak ++ [newline]) ++ fields (elapsed.text ++ [newline])) := by
        rw [fields_append hfront, fields_append hclosed]
    _ = fields front ++ [word ++ decimal peak, elapsed.text] := by
        rw [fields_spaceless_append hpeak hne hnewline,
          fields_spaceless_append helapsed elapsed.text_ne_nil hnewline]
        rfl

/-- The peak is read as it was printed exactly if it is joined to a padding. -/
theorem filter_toInt64?_eq_iff (hpeak : peak < 2 ^ 63) :
    (toInt64? (word ++ decimal peak)).filter (0 ≤ ·) = some (Int64.ofNat peak) ↔ IsPadding word peak := by
  have hvalue : (Int64.ofNat peak).toInt = peak := Int64.toInt_ofNat_of_lt hpeak
  have hnonneg : (0 : Int64) ≤ Int64.ofNat peak := by
    rw [Int64.le_iff_toInt_le, hvalue]
    exact Int.natCast_nonneg peak
  rw [Option.filter_eq_some_iff, toInt64?_append_decimal_iff hpeak, decide_eq_true_eq, and_iff_left hnonneg]

/-- The elapsed time is read as it was printed exactly if it is in range. -/
theorem filter_read?_text_eq_iff (elapsed : Numeral) :
    (Binary64.read? elapsed.text).filter (!·.isNegative) = some elapsed.value ↔ elapsed.InRange := by
  have hnonneg : (!elapsed.value.isNegative) = true := by
    rw [Numeral.value, isNegative_ofRatio]
    rfl
  rw [Option.filter_eq_some_iff, elapsed.read?_text, Option.ite_none_right_eq_some, and_iff_left hnonneg]
  exact and_iff_left rfl

/-- **The measurement** behind any output is read as it was printed exactly if the elapsed time is in range and
the peak is joined to nothing but a padding. -/
theorem read_printed_iff (output : Bytes) :
    (∃ word, LastWord output word) ∧ ∀ word, LastWord output word → ∀ peak < 2 ^ 63, ∀ elapsed : Numeral,
      (read (output ++ printed peak elapsed) = .ok ⟨Int64.ofNat peak, elapsed.value⟩ ↔
        IsPadding word peak ∧ elapsed.InRange) := by
  refine ⟨exists_lastWord output, ?_⟩
  intro word hword peak hpeak elapsed
  obtain ⟨front, hfields⟩ := fields_append_printed hword peak elapsed
  rw [read_eq_ok_iff hfields, filter_toInt64?_eq_iff hpeak, filter_read?_text_eq_iff]

/-- One and a half seconds. -/
def shortTime : Numeral := ⟨lit "1", lit "50", by decide, by decide, by decide, by decide⟩

/-- Output that ends in a line break leaves the measurement alone. -/
theorem read_printed_closed :
    LastWord (lit "error: 1\n") [] ∧
      read (lit "error: 1\n" ++ printed 2048 shortTime) = .ok ⟨2048, shortTime.value⟩ := by
  have hword : LastWord (lit "error: 1\n") [] :=
    ⟨spaceless_nil, lit "error: 1\n", .inr ⟨[newline], by decide, by decide⟩, rfl⟩
  refine ⟨hword, ((read_printed_iff _).2 [] hword 2048 (by omega) shortTime).mpr ⟨⟨0, .inl rfl⟩, ?_⟩⟩
  decide +kernel

/-- Output that ends in a digit changes the peak that is read. -/
theorem read_printed_joined :
    read (lit "error: 1" ++ printed 2048 shortTime) = .ok ⟨12048, shortTime.value⟩ ∧
      (⟨12048, shortTime.value⟩ : Usage) ≠ ⟨2048, shortTime.value⟩ := by
  have hfields :
      fields (lit "error: 1" ++ printed 2048 shortTime) = [lit "error:"] ++ [lit "12048", shortTime.text] := by
    decide +kernel
  have hrange : shortTime.InRange := by decide +kernel
  constructor
  · rw [read_eq_ok_iff hfields]
    dsimp only
    rw [filter_read?_text_eq_iff]
    exact ⟨by decide +kernel, hrange⟩
  · intro h
    have hpeak : (12048 : Int64) = 2048 := congrArg peakKB h
    exact absurd hpeak (by decide)

end CrateAudit.Usage
