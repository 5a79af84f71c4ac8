import CrateAudit.Outcome
import CrateAudit.Proofs.Bytes.Lines
import Mathlib.Algebra.Group.Nat.Defs
import Mathlib.Data.List.Basic
import Mathlib.Tactic.SplitIfs

/-!
# Counting diagnoses

Both modes count the diagnoses of a text by the severities that the lenient mode gives them: the strict
mode recognises fewer lines, but none of them differently (`severity_lenient_of_severity?`). So whatever
a text is classified to, its counts are the numbers of its lines of each severity (`of_counts_classify`).
Diagnoses carry the numbers of the lines that they stand in (`mem_numbered_iff`).
Where the strict mode accepts a text, nothing is left to warn of; where it refuses one, the lenient mode
counts it all the same (`strict_refines_lenient`).

Counts are 64-bit numbers, and as such they are right even where they wrap around.
-/

namespace CrateAudit

open Bytes

/-! ### Counts by severity -/

/-- The count of a severity. -/
def SeverityCounts.of (c : SeverityCounts) : Severity → Int64
  | .high => c.high
  | .medium => c.medium
  | .low => c.low

namespace SeverityCounts

theorem of_empty (s : Severity) : ({} : SeverityCounts).of s = 0 := by
  cases s <;> rfl

theorem of_count (c : SeverityCounts) (s t : Severity) :
    (c.count t).of s = c.of s + if t = s then 1 else 0 := by
  cases s <;> cases t <;> simp [count, of]

theorem of_add (c d : SeverityCounts) (s : Severity) : (c.add d).of s = c.of s + d.of s := by
  cases s <;> rfl

theorem total_eq (c : SeverityCounts) : c.total = c.of .high + c.of .medium + c.of .low := rfl

/-- Counting one by one gives the number of what is counted. -/
theorem of_foldl_count {α : Type} (rate : α → Severity) (l : List α) (c : SeverityCounts) (s : Severity) :
    (l.foldl (fun c a => c.count (rate a)) c).of s = c.of s + Int64.ofNat (l.countP (rate · = s)) := by
  induction l generalizing c with
  | nil => simp
  | cons a l ih =>
    rw [List.foldl_cons, ih, of_count, List.countP_cons, Int64.ofNat_add]
    by_cases h : rate a = s
    · simp only [h, decide_true, if_true]
      rw [Int64.add_assoc, Int64.add_comm (Int64.ofNat _)]
      rfl
    · simp [h]

end SeverityCounts

namespace Diagnosis

variable {mode : Mode} {line text : Bytes} {s : Severity}

/-! ### The two modes -/

/-- The names in full begin with the letters that the lenient mode looks at. -/
theorem ofWord?_lenient_of_strict {w : Bytes} (h : ofWord? .strict w = some s) :
    ofWord? .lenient w = some s := by
  simp only [ofWord?] at h
  split_ifs at h with hlow hmedium hhigh <;> obtain rfl := Option.some.inj h
  · rw [hlow]
    decide
  · rw [hmedium]
    decide
  · rw [hhigh]
    decide

/-- Where a mode recognises a severity, the lenient mode gives it too. -/
theorem severity_lenient_of_severity? (h : severity? mode line = some s) : severity .lenient line = s := by
  obtain ⟨w, hw, hs⟩ := Option.bind_eq_some_iff.mp h
  have hlenient : ofWord? .lenient w = some s := by
    cases mode with
    | lenient => exact hs
    | strict => exact ofWord?_lenient_of_strict hs
  rw [severity, severity?, hw, Option.bind_eq_bind, Option.bind_some, hlenient, Option.getD_some]

theorem severity_of_severity? (h : severity? mode line = some s) : severity mode line = s := by
  rw [severity, h, Option.getD_some]

/-! ### The diagnoses of a text -/

/-- How many diagnoses of a text have a severity. -/
def tally (s : Severity) (text : Bytes) : Nat :=
  (numbered text).countP fun d => severity .lenient d.2 = s

theorem tally_nil (s : Severity) : tally s [] = 0 := rfl

/-- Every diagnosis has one of the three severities. -/
theorem tally_add_tally_add_tally (text : Bytes) :
    tally .high text + tally .medium text + tally .low text = (numbered text).length := by
  unfold tally
  induction numbered text with
  | nil => rfl
  | cons d l ih =>
    simp only [List.countP_cons, List.length_cons]
    cases severity .lenient d.2 <;> simp <;> omega

/-- The diagnoses are the lines that are not empty. -/
theorem map_snd_numbered (text : Bytes) :
    (numbered text).map Prod.snd = (lines text).filter fun line => line ≠ [] := by
  have hfst := List.zipIdx_map_fst 1 (lines text)
  conv_rhs => rw [← hfst, List.filter_map, ← List.filterMap_eq_filter, List.map_filterMap]
  rw [numbered, List.map_filterMap]
  refine List.filterMap_congr fun ⟨line, n⟩ _ => ?_
  cases line <;> simp [Option.guard]

/-- Diagnoses stand in the order of their lines. -/
theorem pairwise_numbered (text : Bytes) : (numbered text).Pairwise fun d d' => d.1 < d'.1 := by
  have hnumbers : ((lines text).zipIdx 1).Pairwise fun d d' => d.2 < d'.2 := by
    refine List.pairwise_map.mp ?_
    rw [List.zipIdx_map_snd]
    exact List.pairwise_lt_range'
  refine hnumbers.filterMap _ ?_
  rintro ⟨l, i⟩ ⟨l', i'⟩ hlt d hd d' hd'
  obtain ⟨-, hd⟩ := Option.ite_none_left_eq_some.mp hd
  obtain ⟨-, hd'⟩ := Option.ite_none_left_eq_some.mp hd'
  rw [← Option.some.inj hd, ← Option.some.inj hd']
  exact hlt

/-- No line is numbered twice. -/
theorem nodup_fst_numbered (text : Bytes) : ((numbered text).map Prod.fst).Nodup :=
  List.pairwise_map.mpr ((pairwise_numbered text).imp Nat.ne_of_lt)

/-- The diagnoses of a text are its lines that are not empty, with the numbers of these lines. -/
theorem mem_numbered_iff {n : Nat} : (n, line) ∈ numbered text ↔ LineAt text n line ∧ line ≠ [] := by
  have hmem : (n, line) ∈ numbered text ↔ line ≠ [] ∧ 1 ≤ n ∧ (lines text)[n - 1]? = some line := by
    rw [numbered, List.mem_filterMap]
    constructor
    · rintro ⟨⟨l, i⟩, hl, hkept⟩
      obtain ⟨hne, heq⟩ := Option.ite_none_left_eq_some.mp hkept
      obtain ⟨rfl, rfl⟩ := Prod.mk.inj (Option.some.inj heq)
      exact ⟨mt List.isEmpty_iff.mpr hne, List.mem_zipIdx_iff_le_and_getElem?_sub.mp hl⟩
    · rintro ⟨hne, hl⟩
      refine ⟨(line, n), List.mem_zipIdx_iff_le_and_getElem?_sub.mpr hl, ?_⟩
      exact if_neg (mt List.isEmpty_iff.mp hne)
  rw [hmem]
  constructor
  · rintro ⟨hne, hpos, hget⟩
    rw [getElem?_lines_eq_some_iff hne, Nat.sub_add_cancel hpos] at hget
    exact ⟨hget, hne⟩
  · rintro ⟨hline, hne⟩
    have hpos : 1 ≤ n := by
      obtain ⟨-, front, -, -, hcount, -⟩ := hline
      omega
    rw [getElem?_lines_eq_some_iff hne, Nat.sub_add_cancel hpos]
    exact ⟨hne, hpos, hline⟩

/-! ### Classification -/

theorem counts_foldl_count (l : List (Nat × Bytes)) (f : Findings) :
    (l.foldl Findings.count f).counts =
      l.foldl (fun c d => c.count (severity .lenient d.2)) f.counts := by
  induction l generalizing f with
  | nil => rfl
  | cons d l ih => rw [List.foldl_cons, List.foldl_cons, ih, Findings.count]

/-- **Counts**: whatever the mode, the counts of a text are the numbers of its diagnoses of each
severity. -/
theorem of_counts_classify {f : Findings} (h : classify mode text = .ok f) (s : Severity) :
    f.counts.of s = Int64.ofNat (tally s text) := by
  cases mode with
  | lenient =>
    obtain rfl := Except.ok.inj h
    rw [counts_foldl_count, SeverityCounts.of_foldl_count, SeverityCounts.of_empty, Int64.zero_add]
    rfl
  | strict =>
    simp only [classify] at h
    split at h
    · simp at h
    · rename_i hnone
      obtain rfl := Except.ok.inj h
      rw [SeverityCounts.of_foldl_count, SeverityCounts.of_empty, Int64.zero_add, tally]
      -- all lines are recognised, so the modes rate them alike
      congr 1
      refine List.countP_congr fun ⟨n, line⟩ hmem => ?_
      have hsome := List.find?_eq_none.mp hnone _ hmem
      obtain ⟨t, ht⟩ := Option.ne_none_iff_exists'.mp (by simpa using hsome)
      rw [severity_of_severity? ht, severity_lenient_of_severity? ht]

/-! ### The strict mode against the lenient mode -/

/-- The words that the strict mode recognises. -/
def names : List Bytes := [lit "Low", lit "Medium", lit "High"]

theorem ofWord?_strict_eq_none_iff (w : Bytes) : ofWord? .strict w = none ↔ w ∉ names := by
  simp only [ofWord?, names, List.mem_cons, List.not_mem_nil, or_false, not_or]
  split_ifs <;> simp_all

/-- The strict mode recognises nothing in a line unless one of its words stands behind the marker. -/
theorem severity?_strict_eq_none_iff (line : Bytes) :
    severity? .strict line = none ↔ ∀ w, word? line = some w → w ∉ names := by
  rw [severity?, Option.bind_eq_bind, Option.bind_eq_none_iff]
  exact forall₂_congr fun w _ => ofWord?_strict_eq_none_iff w

/-- The lenient mode rates every line with a marker. -/
theorem severity?_lenient (line : Bytes) : (severity? .lenient line).isNone = (word? line).isNone := by
  rw [severity?]
  cases word? line <;> rfl

/-- The modes rate a line differently exactly if the word behind its marker is none of the names in full
but begins like a lower one; the strict mode then takes the line for a serious one. -/
theorem severity_strict_ne_iff (line : Bytes) :
    severity .strict line ≠ severity .lenient line ↔
      severity .strict line = .high ∧ severity .lenient line ≠ .high ∧
        ∃ w, word? line = some w ∧ w ∉ names := by
  constructor
  · intro hne
    have hnone : severity? .strict line = none := by
      by_contra hsome
      obtain ⟨s, hs⟩ := Option.ne_none_iff_exists'.mp hsome
      exact hne ((severity_of_severity? hs).trans (severity_lenient_of_severity? hs).symm)
    have hhigh : severity .strict line = .high := by rw [severity, hnone, Option.getD_none]
    rw [hhigh] at hne
    refine ⟨hhigh, hne.symm, ?_⟩
    cases hw : word? line with
    | none =>
      -- a line without a marker is serious in both modes
      rw [severity, severity?, hw] at hne
      exact absurd rfl hne
    | some w => exact ⟨w, rfl, (severity?_strict_eq_none_iff line).mp hnone w hw⟩
  · rintro ⟨hhigh, hne, -⟩
    rw [hhigh]
    exact hne.symm

/-- Where the strict mode recognises every line, the lenient mode counts the same and warns of nothing. -/
theorem foldl_count_of_strict {l : List (Nat × Bytes)} (f : Findings)
    (h : ∀ d ∈ l, severity? .strict d.2 ≠ none) :
    l.foldl Findings.count f =
      ⟨l.foldl (fun c d => c.count (severity .strict d.2)) f.counts, f.unmarked⟩ := by
  induction l generalizing f with
  | nil => rfl
  | cons d l ih =>
    obtain ⟨s, hs⟩ := Option.ne_none_iff_exists'.mp (h d List.mem_cons_self)
    obtain ⟨w, hw, -⟩ := Option.bind_eq_some_iff.mp hs
    have hmarked : (severity? .lenient d.2).isNone = false := by rw [severity?_lenient, hw]; rfl
    have hcount : f.count d = ⟨f.counts.count (severity .strict d.2), f.unmarked⟩ := by
      rw [Findings.count, hmarked, severity_lenient_of_severity? hs, severity_of_severity? hs]
      rfl
    rw [List.foldl_cons, List.foldl_cons, hcount, ih _ fun d hd => h d (List.mem_cons_of_mem _ hd)]

/-- The strict mode refuses a text exactly if it does not recognise one of its lines. -/
theorem classify_strict_eq_error_iff (text : Bytes) :
    (∃ fault, classify .strict text = .error fault) ↔
      ∃ d ∈ numbered text, ∀ w, word? d.2 = some w → w ∉ names := by
  simp only [← severity?_strict_eq_none_iff, classify]
  cases hfind : (numbered text).find? fun d => (severity? .strict d.2).isNone with
  | none => simpa using hfind
  | some d =>
    refine iff_of_true ⟨_, rfl⟩ ⟨d, List.mem_of_find?_eq_some hfind, ?_⟩
    simpa using List.find?_some hfind

theorem classify_lenient_of_strict {f : Findings} (h : classify .strict text = .ok f) :
    classify .lenient text = .ok f ∧ f.warnings = [] := by
  simp only [classify] at h
  split at h
  · simp at h
  · rename_i hnone
    obtain rfl := Except.ok.inj h
    refine ⟨?_, rfl⟩
    simp only [classify]
    rw [foldl_count_of_strict {} fun d hd hd' => by simpa [hd'] using List.find?_eq_none.mp hnone d hd]
    rfl

/-- **The strict mode refines the lenient mode**. If it accepts a text, the lenient mode has the same counts
and no warnings. If it refuses a text, which it does exactly if some line has no marker or another word behind
it, then whatever has the text for its diagnostics gets no counts and no warnings, while the lenient mode
still classifies it. A line has the same severity in both modes, or it is serious in the strict mode; and the
severities differ only if the word behind the marker of the line is none of the three names in full. -/
theorem strict_refines_lenient (text : Bytes) :
    (∀ f, classify .strict text = .ok f → classify .lenient text = .ok f ∧ f.warnings = []) ∧
    ((∃ fault, classify .strict text = .error fault) ↔
      ∃ d ∈ numbered text, ∀ w, word? d.2 = some w → w ∉ [lit "Low", lit "Medium", lit "High"]) ∧
    (∀ fault, classify .strict text = .error fault →
      (∃ f, classify .lenient text = .ok f) ∧
      ∀ o : Outcome, o.diagnostics = text →
        (o.classified .strict).1.counts = {} ∧ (o.classified .strict).2 = []) ∧
    ∀ line, (severity .strict line = severity .lenient line ∨ severity .strict line = .high) ∧
      (severity .strict line ≠ severity .lenient line →
        ∃ w, word? line = some w ∧ w ∉ [lit "Low", lit "Medium", lit "High"]) := by
  refine ⟨fun f => classify_lenient_of_strict, classify_strict_eq_error_iff text, ?_, ?_⟩
  · intro fault hfault
    refine ⟨⟨_, rfl⟩, ?_⟩
    rintro o rfl
    rw [Outcome.classified, hfault]
    split_ifs <;> exact ⟨rfl, rfl⟩
  · intro line
    refine ⟨?_, fun hne => ((severity_strict_ne_iff line).mp hne).2.2⟩
    by_cases heq : severity .strict line = severity .lenient line
    · exact .inl heq
    · exact .inr ((severity_strict_ne_iff line).mp heq).1

end Diagnosis

end CrateAudit
