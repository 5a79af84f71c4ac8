import CrateAudit.Proofs.Number.Value
import CrateAudit.Proofs.Report.Agreement
import CrateAudit.Report.Summary

/-!
# The summary and the order of the results

The figures of a summary are order statistics of the measured jobs: the middle, the largest elapsed time and the
largest memory are found by sorting and comparing values (`value?_median`, `value?_longest`, `value?_peakMB`). They do
not depend on the order in which the results come. Neither does the mean, although rounding makes the order of
additions visible, because the times are sorted before they are added up; equal times can then only differ in
the sign of a zero, which no sum shows (`Binary64.value?_sum_congr`).

Main result: `ofResults_orderStatistics`.
-/

namespace CrateAudit.Summary

open Binary64

variable {results others : List Result}

/-- The elapsed times of the measured jobs. -/
def times (results : List Result) : List Binary64 := (results.filter isMeasured).map (·.elapsed)

/-- The memory of the measured jobs. -/
def memory (results : List Result) : List Binary64 := (results.filter isMeasured).map (·.peakMB)

theorem length_times (results : List Result) : (times results).length = (results.filter isMeasured).length :=
  List.length_map _

theorem perm_times (h : others.Perm results) : (times others).Perm (times results) := (h.filter _).map _

theorem perm_memory (h : others.Perm results) : (memory others).Perm (memory results) := (h.filter _).map _

/-- The memory of a job is a number. -/
theorem peakMB_ne_nan (o : Outcome) : o.peakMB ≠ .nan := by
  unfold Outcome.peakMB ofInt ofRatio ofUnits
  dsimp only
  split_ifs <;> simp [divNat, ofUnits]
  split_ifs <;> simp

theorem memory_ne_nan : ∀ x ∈ memory results, x ≠ .nan := by
  intro x hx
  obtain ⟨r, -, rfl⟩ := List.mem_map.mp hx
  exact peakMB_ne_nan r.toOutcome

theorem times_ne_nan (h : ∀ r ∈ results, isMeasured r = true → r.elapsed ≠ .nan) :
    ∀ x ∈ times results, x ≠ .nan := by
  intro x hx
  obtain ⟨r, hr, rfl⟩ := List.mem_map.mp hx
  rw [List.mem_filter] at hr
  exact h r hr.1 hr.2

/-! ### Counts -/

theorem jobs_ofResults (results : List Result) : (ofResults results).jobs = results.length := by
  simp only [ofResults]
  split <;> rfl

theorem byStatus_ofResults (results : List Result) : (ofResults results).byStatus = countByStatus results := by
  simp only [ofResults]
  split <;> rfl

theorem measured_ofResults (results : List Result) :
    (ofResults results).measured = (results.filter isMeasured).length := by
  simp only [ofResults]
  split <;> rfl

theorem isMeasured_iff (r : Result) : isMeasured r = true ↔ r.timedOut = false ∧ r.fault = none := by
  simp [isMeasured]

/-- A status is counted as often as it occurs, if it occurs. -/
theorem mem_countByStatus_iff {status : Status} {n : ℕ} :
    (status, n) ∈ countByStatus results ↔ n = results.countP (·.status = status) ∧ 0 < n := by
  have hall : status ∈ Status.all := by cases status <;> decide
  rw [countByStatus, List.mem_filter, List.mem_map]
  constructor
  · rintro ⟨⟨s, -, heq⟩, hpos⟩
    obtain ⟨rfl, rfl⟩ := Prod.mk.inj heq
    exact ⟨rfl, by simpa using hpos⟩
  · rintro ⟨rfl, hpos⟩
    exact ⟨⟨status, hall, rfl⟩, by simpa using hpos⟩

/-- Leaving out what counts nothing changes no sum. -/
theorem sum_filter_pos (counts : List (Status × ℕ)) :
    ((counts.filter (0 < ·.2)).map Prod.snd).sum = (counts.map Prod.snd).sum := by
  induction counts with
  | nil => rfl
  | cons c counts ih =>
    by_cases hc : 0 < c.2
    · rw [List.filter_cons_of_pos (by simpa using hc), List.map_cons, List.map_cons, List.sum_cons, List.sum_cons, ih]
    · rw [List.filter_cons_of_neg (by simpa using hc), List.map_cons, List.sum_cons, ih]
      omega

/-- Every result has exactly one status. -/
theorem sum_countByStatus (results : List Result) :
    ((countByStatus results).map Prod.snd).sum = results.length := by
  rw [countByStatus, sum_filter_pos, List.map_map]
  show (Status.all.map fun s => results.countP (·.status = s)).sum = results.length
  induction results with
  | nil => rfl
  | cons r results ih =>
    simp only [Status.all, List.map_cons, List.map_nil, List.sum_cons, List.sum_nil, List.countP_cons,
      List.length_cons] at ih ⊢
    cases r.status <;> simp <;> omega

theorem countByStatus_eq_of_perm (h : others.Perm results) : countByStatus others = countByStatus results := by
  simp only [countByStatus, h.countP_eq]

theorem findings_eq_of_perm (h : others.Perm results) :
    (ofResults others).findings = (ofResults results).findings := by
  rw [findings_ofResults, findings_ofResults]
  refine h.foldl_eq' (fun r _ r' _ c => ?_) _
  simp only [SeverityCounts.add, Int64.add_assoc, Int64.add_comm r.counts.high, Int64.add_comm r.counts.medium,
    Int64.add_comm r.counts.low]

/-! ### Figures -/

theorem figures_of_nil (h : results.filter isMeasured = []) :
    (ofResults results).mean = zero ∧ (ofResults results).median = zero ∧ (ofResults results).longest = zero ∧
      (ofResults results).peakMB = zero := by
  simp [ofResults, h]

section Measured

variable (hne : results.filter isMeasured ≠ [])

include hne

theorem mean_ofResults : (ofResults results).mean =
    (sum ((times results).mergeSort sortLe)).divNat ((times results).mergeSort sortLe).length := by
  simp [ofResults, hne, times]

theorem median_ofResults : (ofResults results).median = middle ((times results).mergeSort sortLe) := by
  simp [ofResults, hne, times]

theorem longest_ofResults : (ofResults results).longest = maximum ((times results).mergeSort sortLe) := by
  simp [ofResults, hne, times]

theorem peakMB_ofResults : (ofResults results).peakMB = maximum (memory results) := by
  simp [ofResults, hne, memory]

theorem times_ne_nil : times results ≠ [] := by rwa [times, Ne, List.map_eq_nil_iff]

theorem sorted_ne_nil : (times results).mergeSort sortLe ≠ [] := by
  rw [← List.length_pos_iff, List.length_mergeSort, List.length_pos_iff]
  exact times_ne_nil hne

theorem memory_ne_nil : memory results ≠ [] := by rwa [memory, Ne, List.map_eq_nil_iff]

end Measured

/-- The middle of sorted numbers is the one at its position. -/
theorem exists_getElem?_middle {sorted : List Binary64} (h : ∀ x ∈ sorted, x ≠ .nan) (hne : sorted ≠ []) :
    sorted[(sorted.length + 1) / 2 - 1]? = some (middle sorted) := by
  have hlt : (sorted.length + 1) / 2 - 1 < sorted.length := by
    have hpos := List.length_pos_iff.mpr hne
    omega
  have hnan : sorted.contains .nan = false := by
    rw [List.contains_eq_mem, decide_eq_false_iff_not]
    exact fun hmem => h _ hmem rfl
  rw [middle, hnan, List.getElem?_eq_getElem hlt]
  rfl

/-- The largest value does not depend on the order. -/
theorem max?_eq_of_perm {as bs : List Value} (h : as.Perm bs) : as.max? = bs.max? := by
  refine Option.ext fun a => ?_
  rw [List.max?_eq_some_iff, List.max?_eq_some_iff, h.mem_iff]
  simp only [h.mem_iff]

section Numbers

variable (h : ∀ r ∈ results, isMeasured r = true → r.elapsed ≠ .nan)

include h

theorem sorted_ne_nan : ∀ x ∈ (times results).mergeSort sortLe, x ≠ .nan :=
  fun x hx => times_ne_nan h x (List.mem_mergeSort.mp hx)

/-- The sorted times of results in another order have the same values. -/
theorem map_value?_sorted (hperm : others.Perm results) :
    ((times others).mergeSort sortLe).map value? = ((times results).mergeSort sortLe).map value? := by
  have hothers : ∀ r ∈ others, isMeasured r = true → r.elapsed ≠ .nan := fun r hr => h r (hperm.mem_iff.mp hr)
  have hvalues : (values (times others)).Perm (values (times results)) := (perm_times hperm).filterMap value?
  rw [map_value?_eq (sorted_ne_nan hothers), map_value?_eq (sorted_ne_nan h), values_mergeSort, values_mergeSort]
  refine congrArg (List.map some) (List.Perm.eq_of_pairwise (fun a b _ _ => le_antisymm)
    (List.pairwise_mergeSort' (· ≤ ·) _) (List.pairwise_mergeSort' (· ≤ ·) _) ?_)
  exact ((List.mergeSort_perm _ _).trans hvalues).trans (List.mergeSort_perm _ _).symm

variable (hne : results.filter isMeasured ≠ [])

include hne

/-- The median is the element in the middle of the sorted times. -/
theorem getElem?_median : ((times results).mergeSort sortLe)[((times results).length + 1) / 2 - 1]? =
    some (ofResults results).median := by
  rw [median_ofResults hne, ← exists_getElem?_middle (sorted_ne_nan h) (sorted_ne_nil hne), List.length_mergeSort]

theorem median_mem : (ofResults results).median ∈ times results :=
  List.mem_mergeSort.mp (List.mem_of_getElem? (getElem?_median h hne))

theorem value?_median : (ofResults results).median.value? =
    ((values (times results)).mergeSort (· ≤ ·))[((times results).length + 1) / 2 - 1]? := by
  rw [← values_mergeSort, getElem?_values (sorted_ne_nan h) (getElem?_median h hne)]

theorem longest_mem : (ofResults results).longest ∈ times results := by
  rw [longest_ofResults hne, ← List.mem_mergeSort]
  exact maximum_mem (sorted_ne_nan h) (sorted_ne_nil hne)

end Numbers

theorem value?_longest (hne : results.filter isMeasured ≠ []) :
    (ofResults results).longest.value? = (values (times results)).max? := by
  rw [longest_ofResults hne, value?_maximum]
  exact max?_eq_of_perm ((List.mergeSort_perm _ _).filterMap value?)

theorem value?_peakMB (hne : results.filter isMeasured ≠ []) :
    (ofResults results).peakMB.value? = (values (memory results)).max? := by
  rw [peakMB_ofResults hne, value?_maximum]

/-! ### The order of the results -/

/-- The same summary, but for the signs of zeros. -/
structure Same (s s' : Summary) : Prop where
  jobs_eq : s.jobs = s'.jobs
  byStatus_eq : s.byStatus = s'.byStatus
  findings_eq : s.findings = s'.findings
  measured_eq : s.measured = s'.measured
  mean_eq : s.mean.value? = s'.mean.value?
  median_eq : s.median.value? = s'.median.value?
  longest_eq : s.longest.value? = s'.longest.value?
  peakMB_eq : s.peakMB.value? = s'.peakMB.value?

/-- The order of the results does not matter. -/
theorem same_of_perm (h : ∀ r ∈ results, isMeasured r = true → r.elapsed ≠ .nan) (hperm : others.Perm results) :
    (ofResults others).Same (ofResults results) := by
  have hothers : ∀ r ∈ others, isMeasured r = true → r.elapsed ≠ .nan := fun r hr => h r (hperm.mem_iff.mp hr)
  have hfilter := hperm.filter isMeasured
  have hcounts : (ofResults others).jobs = (ofResults results).jobs ∧
      (ofResults others).byStatus = (ofResults results).byStatus ∧
      (ofResults others).measured = (ofResults results).measured := by
    simp only [jobs_ofResults, byStatus_ofResults, measured_ofResults]
    exact ⟨hperm.length_eq, countByStatus_eq_of_perm hperm, hfilter.length_eq⟩
  by_cases hnil : results.filter isMeasured = []
  · obtain ⟨hmean, hmedian, hlongest, hpeak⟩ := figures_of_nil hnil
    obtain ⟨hmean', hmedian', hlongest', hpeak'⟩ := figures_of_nil (hnil ▸ hfilter).eq_nil
    exact ⟨hcounts.1, hcounts.2.1, findings_eq_of_perm hperm, hcounts.2.2, by rw [hmean, hmean'],
      by rw [hmedian, hmedian'], by rw [hlongest, hlongest'], by rw [hpeak, hpeak']⟩
  · have hnil' : others.filter isMeasured ≠ [] := fun heq => hnil (heq ▸ hfilter).symm.eq_nil
    -- sorted times have equal values, though zeros may differ in sign
    have hsorted := map_value?_sorted h hperm
    have hlength : ((times others).mergeSort sortLe).length = ((times results).mergeSort sortLe).length := by
      simpa using congrArg List.length hsorted
    refine ⟨hcounts.1, hcounts.2.1, findings_eq_of_perm hperm, hcounts.2.2, ?_, ?_, ?_, ?_⟩
    · rw [mean_ofResults hnil', mean_ofResults hnil, hlength]
      exact value?_divNat_congr (value?_sum_congr hsorted) _
    · have hmedian := getElem?_median hothers hnil'
      have hmedian' := getElem?_median h hnil
      rw [(perm_times hperm).length_eq] at hmedian
      have hindex := congrArg (·[((times results).length + 1) / 2 - 1]?) hsorted
      simpa only [List.getElem?_map, hmedian, hmedian', Option.map_some, Option.some.injEq] using hindex
    · rw [value?_longest hnil', value?_longest hnil]
      exact max?_eq_of_perm ((perm_times hperm).filterMap value?)
    · rw [value?_peakMB hnil', value?_peakMB hnil]
      exact max?_eq_of_perm ((perm_memory hperm).filterMap value?)

/-- **The summary** does not depend on the order of the results, and its figures are order statistics. Each status
that occurs is counted as often as it occurs, so the counts add up to the number of jobs. Measured are the jobs that
neither timed out nor had a fault. If there are any, the median is the element of their elapsed times at position
`⌈n / 2⌉` when they are sorted, and the other two figures are their largest elapsed time and their largest
memory. If there are none, all figures are zero. -/
theorem ofResults_orderStatistics (results : List Result)
    (h : ∀ r ∈ results, isMeasured r = true → r.elapsed ≠ .nan) :
    (∀ others, others.Perm results → (ofResults others).Same (ofResults results)) ∧
    (ofResults results).jobs = results.length ∧
    (∀ status n, (status, n) ∈ (ofResults results).byStatus ↔
      n = results.countP (·.status = status) ∧ 0 < n) ∧
    ((ofResults results).byStatus.map Prod.snd).sum = (ofResults results).jobs ∧
    (ofResults results).measured = results.countP (fun r => r.timedOut = false ∧ r.fault = none) ∧
    (0 < (ofResults results).measured →
      ((ofResults results).median ∈ times results ∧ (ofResults results).median.value? =
        ((values (times results)).mergeSort (· ≤ ·))[((ofResults results).measured + 1) / 2 - 1]?) ∧
      ((ofResults results).longest ∈ times results ∧
        (ofResults results).longest.value? = (values (times results)).max?) ∧
      ((ofResults results).peakMB ∈ memory results ∧
        (ofResults results).peakMB.value? = (values (memory results)).max?)) ∧
    ((ofResults results).measured = 0 →
      (ofResults results).mean = zero ∧ (ofResults results).median = zero ∧
        (ofResults results).longest = zero ∧ (ofResults results).peakMB = zero) := by
  refine ⟨fun others => same_of_perm h, jobs_ofResults results, fun status n => ?_, ?_, ?_, fun hpos => ?_,
    fun hzero => ?_⟩
  · rw [byStatus_ofResults, mem_countByStatus_iff]
  · rw [byStatus_ofResults, sum_countByStatus, jobs_ofResults]
  · rw [measured_ofResults, ← List.countP_eq_length_filter]
    exact List.countP_congr fun r _ => by simp [isMeasured_iff]
  · rw [measured_ofResults, List.length_pos_iff] at hpos
    have hlength : (ofResults results).measured = (times results).length := by
      rw [measured_ofResults, length_times]
    refine ⟨⟨median_mem h hpos, ?_⟩, ⟨longest_mem h hpos, value?_longest hpos⟩, ?_, value?_peakMB hpos⟩
    · rw [hlength, value?_median h hpos]
    · rw [peakMB_ofResults hpos]
      exact maximum_mem memory_ne_nan (memory_ne_nil hpos)
  · rw [measured_ofResults, List.length_eq_zero_iff] at hzero
    exact figures_of_nil hzero

/-- A job that took no time, with either sign. -/
def quick (negative : Bool) : Result := { elapsed := .finite negative 0, succeeded := true }

/-- Three measured jobs, of which two took no time; one that timed out; and one without a usage. -/
def mixedCrates (negative : Bool) : List Result :=
  [quick negative, quick !negative, { elapsed := .nan, timedOut := true },
   { elapsed := .nan, fault := some (.malformedUsage none) }, { elapsed := .finite false 7 }]

theorem median_mixedCrates (negative : Bool) :
    (ofResults (mixedCrates negative)).median = .finite (!negative) 0 := by
  have htimes : times (mixedCrates negative) = [.finite negative 0, .finite (!negative) 0, .finite false 7] := rfl
  have hsorted : (times (mixedCrates negative)).Pairwise fun x y => sortLe x y = true := by
    rw [htimes]
    cases negative <;> decide
  rw [median_ofResults (by cases negative <;> decide), List.mergeSort_of_pairwise hsorted]
  cases negative <;> rfl

/-- The other way round the median is the other zero, and the summary is the same. -/
theorem ofResults_orderStatistics_mixedCrates :
    (∀ r ∈ mixedCrates true, isMeasured r = true → r.elapsed ≠ .nan) ∧
      (ofResults (mixedCrates true)).median = .finite false 0 ∧
      (ofResults (mixedCrates false)).median = .finite true 0 ∧
      (ofResults (mixedCrates false)).Same (ofResults (mixedCrates true)) ∧
      ((ofResults (mixedCrates true)).byStatus.map Prod.snd).sum = 5 ∧
      (ofResults (mixedCrates true)).measured = 3 ∧
      (ofResults (mixedCrates true)).longest.value? = (values (times (mixedCrates true))).max? := by
  have hnan : ∀ r ∈ mixedCrates true, isMeasured r = true → r.elapsed ≠ .nan := by decide
  obtain ⟨hsame, hjobs, -, hsum, hmeasured, hfigures, -⟩ := ofResults_orderStatistics (mixedCrates true) hnan
  have hperm : (mixedCrates false).Perm (mixedCrates true) := .swap _ _ _
  refine ⟨hnan, median_mixedCrates true, median_mixedCrates false, hsame _ hperm, hsum.trans hjobs, hmeasured, ?_⟩
  exact (hfigures (hmeasured ▸ by decide)).2.1.2

end CrateAudit.Summary
