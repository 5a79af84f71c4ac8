import CrateAudit.Proofs.Number.Names
import CrateAudit.Proofs.Report.Summary
import CrateAudit.Proofs.Usage

/-!
# Measurements that are numbers

A usage that is read has a peak that is not negative, and an elapsed time that is not below zero. The test for the
latter lets the names of the infinity and of what is not a number pass, because no comparison holds of these: the
elapsed time is a finite number exactly if the text does not end in such a name (`isFiniteAmount_elapsed_iff`). As
long as it is one for all measured jobs, the mean and the maximum are finite too, unless the sum is out of range
(`read_finite`).
-/

namespace CrateAudit.Usage

open Bytes Binary64 Summary

variable {text memory time : Bytes} {usage : Usage} {results : List Result}

/-- A text whose last word is a name of the infinity or of what is not a number. -/
def EndsInName (text : Bytes) : Prop :=
  ∃ front word, fields text = front ++ [word] ∧ (NamesNan word ∨ NamesInfinity false word)

/-- A usage is read from the last two words, and neither figure is below zero. -/
theorem exists_words_of_read (h : read text = .ok usage) :
    ∃ front memory time, fields text = front ++ [memory, time] ∧ 0 ≤ usage.peakKB ∧
      read? time = some usage.elapsed ∧ usage.elapsed.isNegative = false := by
  obtain ⟨front, memory, time, hfields⟩ : ∃ front memory time, fields text = front ++ [memory, time] := by
    unfold read at h
    dsimp only at h
    split at h
    · rename_i time memory rest hreverse
      refine ⟨rest.reverse, memory, time, ?_⟩
      rw [← List.reverse_reverse (fields text), hreverse]
      simp
    · cases h
  obtain ⟨hpeak, helapsed⟩ := (read_eq_ok_iff hfields).mp h
  obtain ⟨-, hnonneg⟩ := Option.filter_eq_some_iff.mp hpeak
  obtain ⟨hread, hneg⟩ := Option.filter_eq_some_iff.mp helapsed
  exact ⟨front, memory, time, hfields, of_decide_eq_true hnonneg, hread, by simpa using hneg⟩

theorem endsInName_iff {front : List Bytes} (h : fields text = front ++ [memory, time]) :
    EndsInName text ↔ NamesNan time ∨ NamesInfinity false time := by
  constructor
  · rintro ⟨front', word, hword, hname⟩
    have hlast := congrArg List.getLast? (h.symm.trans hword)
    simp only [List.getLast?_append, List.getLast?_cons_cons, List.getLast?_singleton, Option.some_or,
      Option.some.injEq] at hlast
    rwa [hlast]
  · intro hname
    exact ⟨front ++ [memory], time, by rw [h, List.append_assoc]; rfl, hname⟩

/-- An elapsed time that is read is an amount, if it is a number. -/
theorem isAmount_elapsed (h : read text = .ok usage) (hnan : usage.elapsed ≠ .nan) : IsAmount usage.elapsed := by
  obtain ⟨-, -, time, -, -, hread, hneg⟩ := exists_words_of_read h
  rcases helapsed : usage.elapsed with _ | negative | ⟨negative, units⟩
  · exact absurd helapsed hnan
  · cases negative with
    | false => exact .infinite
    | true =>
      rw [helapsed] at hneg
      cases hneg
  · rw [helapsed] at hread hneg
    refine .finite (representable_of_read? hread) ?_
    rintro rfl
    simpa [isNegative, lt, zero] using hneg

/-- **The elapsed time** that is read is finite exactly if it was not read from a name. -/
theorem isFiniteAmount_elapsed_iff (h : read text = .ok usage) : usage.elapsed.IsFiniteAmount ↔ ¬ EndsInName text := by
  obtain ⟨front, memory, time, hfields, -, hread, -⟩ := exists_words_of_read h
  rw [endsInName_iff hfields, ← read?_eq_nan_iff, ← read?_eq_infinite_iff, hread, Option.some.injEq,
    Option.some.injEq]
  constructor
  · rintro hfinite (heq | heq) <;> rw [heq] at hfinite
    · exact not_isFiniteAmount_nan hfinite
    · exact not_isFiniteAmount_infinite false hfinite
  · intro hnone
    exact (isAmount_elapsed h fun heq => hnone (.inl heq)).isFiniteAmount fun heq => hnone (.inr heq)

/-- The peak that is read is not negative. -/
theorem nonneg_peakKB (h : read text = .ok usage) : 0 ≤ usage.peakKB.toInt := by
  obtain ⟨-, -, -, -, hnonneg, -⟩ := exists_words_of_read h
  exact Int64.le_iff_toInt_le.mp hnonneg

/-! ### Summaries of finite measurements -/

/-- The elapsed time of a job was read, and not from a name. -/
def IsRead (elapsed : Binary64) : Prop :=
  ∃ text usage, read text = .ok usage ∧ ¬ EndsInName text ∧ elapsed = usage.elapsed

theorem IsRead.isAmount {elapsed : Binary64} (h : IsRead elapsed) : IsAmount elapsed ∧ elapsed ≠ .infinite false := by
  obtain ⟨text, usage, hread, hname, rfl⟩ := h
  have hfinite := (isFiniteAmount_elapsed_iff hread).mpr hname
  refine ⟨isAmount_elapsed hread fun heq => ?_, fun heq => ?_⟩
  · exact not_isFiniteAmount_nan (heq ▸ hfinite)
  · exact not_isFiniteAmount_infinite false (heq ▸ hfinite)

theorem isFiniteAmount_figures (h : ∀ r ∈ results, isMeasured r = true → IsRead r.elapsed)
    (hsum : sum ((times results).mergeSort sortLe) ≠ .infinite false) :
    (ofResults results).mean.IsFiniteAmount ∧ (ofResults results).longest.IsFiniteAmount := by
  by_cases hnil : results.filter isMeasured = []
  · obtain ⟨hmean, -, hlongest, -⟩ := figures_of_nil hnil
    rw [hmean, hlongest]
    exact ⟨isFiniteAmount_zero, isFiniteAmount_zero⟩
  have htimes : ∀ x ∈ times results, IsAmount x ∧ x ≠ .infinite false := by
    intro x hx
    obtain ⟨r, hr, rfl⟩ := List.mem_map.mp hx
    rw [List.mem_filter] at hr
    exact (h r hr.1 hr.2).isAmount
  constructor
  · rw [mean_ofResults hnil]
    refine (isAmount_sum fun x hx => ?_).isFiniteAmount_divNat hsum (List.length_pos_iff.mpr (sorted_ne_nil hnil))
    exact (htimes x (List.mem_mergeSort.mp hx)).1
  · have hnan : ∀ r ∈ results, isMeasured r = true → r.elapsed ≠ .nan := by
      intro r hr hmeasured heq
      have hamount := (h r hr hmeasured).isAmount.1
      rw [heq] at hamount
      cases hamount
    obtain ⟨hamount, hne⟩ := htimes _ (longest_mem hnan hnil)
    exact hamount.isFiniteAmount hne

/-- **Measurements are numbers, names apart**. A usage that is read has a peak from zero to `2 ^ 63 - 1`, and its
elapsed time is a finite number that is not negative exactly if the text does not end in a name of the infinity or of
what is not a number. If the elapsed times of all measured jobs were read from other texts, the mean and the largest
elapsed time of the summary are finite and not negative, unless the sum is out of range. -/
theorem read_finite (text : Bytes) (results : List Result) :
    (∀ usage, read text = .ok usage →
      0 ≤ usage.peakKB.toInt ∧ usage.peakKB.toInt ≤ 2 ^ 63 - 1 ∧
      (usage.elapsed.IsFiniteAmount ↔ ¬ EndsInName text)) ∧
    ((∀ r ∈ results, isMeasured r = true → IsRead r.elapsed) →
      sum ((times results).mergeSort sortLe) ≠ .infinite false →
      (ofResults results).mean.IsFiniteAmount ∧ (ofResults results).longest.IsFiniteAmount) := by
  refine ⟨fun usage h => ⟨nonneg_peakKB h, ?_, isFiniteAmount_elapsed_iff h⟩, isFiniteAmount_figures⟩
  exact Int.le_sub_one_of_lt (Int64.toInt_lt usage.peakKB)

/-- What a wrapper prints for a second and a half, behind a line of the command. -/
def shortOutput : Bytes := lit "warning: NaN\n" ++ printed 2048 shortTime

theorem times_singleton (elapsed : Binary64) : times [{ elapsed := elapsed }] = [elapsed] := rfl

theorem read_finite_shortOutput :
    read shortOutput = .ok ⟨2048, shortTime.value⟩ ∧ ¬ EndsInName shortOutput ∧
      IsFiniteAmount shortTime.value ∧
      sum ((times [{ elapsed := shortTime.value }]).mergeSort sortLe) ≠ .infinite false ∧
      (ofResults [{ elapsed := shortTime.value }]).mean.IsFiniteAmount := by
  have hfields : fields shortOutput = [lit "warning:", lit "NaN"] ++ [lit "2048", shortTime.text] := by decide +kernel
  have hrange : shortTime.InRange := by decide +kernel
  have hread : read shortOutput = .ok ⟨2048, shortTime.value⟩ := by
    rw [read_eq_ok_iff hfields]
    dsimp only
    rw [filter_read?_text_eq_iff]
    exact ⟨by decide +kernel, hrange⟩
  have hname : ¬ EndsInName shortOutput := by
    rw [endsInName_iff hfields]
    decide
  have hsum : sum ((times [{ elapsed := shortTime.value }]).mergeSort sortLe) ≠ .infinite false := by
    rw [times_singleton, List.mergeSort_singleton]
    decide +kernel
  obtain ⟨hfigures, hsummary⟩ := read_finite shortOutput [{ elapsed := shortTime.value }]
  have hfinite := (hfigures _ hread).2.2.mpr hname
  dsimp only at hfinite
  refine ⟨hread, hname, hfinite, hsum, (hsummary ?_ hsum).1⟩
  intro r hr _
  rw [List.mem_singleton.mp hr]
  exact ⟨shortOutput, _, hread, hname, rfl⟩

/-- A name passes for a measurement, and then the mean of the run is no number. -/
theorem read_names :
    read (lit "2048\nNaN\n") = .ok ⟨2048, .nan⟩ ∧ ¬ IsFiniteAmount .nan ∧
      read (lit "2048\n+Inf\n") = .ok ⟨2048, .infinite false⟩ ∧ ¬ IsFiniteAmount (.infinite false) ∧
      (ofResults [{ elapsed := .nan }]).mean = .nan := by
  have hnan : fields (lit "2048\nNaN\n") = [] ++ [lit "2048", lit "NaN"] := by decide +kernel
  have hinfinite : fields (lit "2048\n+Inf\n") = [] ++ [lit "2048", lit "+Inf"] := by decide +kernel
  have hpeak : (toInt64? (lit "2048")).filter (0 ≤ ·) = some 2048 := by decide +kernel
  have hreadNan : read? (lit "NaN") = some .nan := read?_eq_nan_iff.mpr (by decide)
  have hreadInfinite : read? (lit "+Inf") = some (.infinite false) := read?_eq_infinite_iff.mpr (by decide)
  refine ⟨(read_eq_ok_iff hnan).mpr ⟨hpeak, ?_⟩, not_isFiniteAmount_nan,
    (read_eq_ok_iff hinfinite).mpr ⟨hpeak, ?_⟩, not_isFiniteAmount_infinite false, ?_⟩
  · rw [hreadNan]
    rfl
  · rw [hreadInfinite]
    rfl
  · rw [mean_ofResults (by decide), times_singleton, List.mergeSort_singleton]
    decide +kernel

end CrateAudit.Usage
