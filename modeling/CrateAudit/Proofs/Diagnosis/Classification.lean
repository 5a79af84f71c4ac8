import CrateAudit.Proofs.Diagnosis.Marker

/-!
# Classification line by line

What a text is classified to is told by its lines, each taken by itself. The lenient mode counts every line that
is not empty under its severity and warns of those without a marker; the strict mode refuses the text at the first
line that it does not recognise (`Unrecognised`). Numbers of lines count the empty ones too, so they are given by
where a line stands in the text (`Bytes.LineAt`).

Main result: `classify_line_by_line`. A line feed between two texts joins their lines, empty ones apart
(`tally_append_newline`), so their counts are added.
-/

namespace CrateAudit

open Bytes

/-! ### Lines of a text -/

namespace Bytes

/-- The stretch that is no line is empty. -/
theorem filter_lines (text : Bytes) :
    ((lines text).filter fun line => line ≠ []) = (pieces newline text).filter fun line => line ≠ [] := by
  simp only [lines]
  split
  · rename_i hlast
    obtain ⟨start, hstart⟩ := List.getLast?_eq_some_iff.mp hlast
    rw [hstart, List.dropLast_concat, List.filter_append]
    simp
  · rfl

theorem length_lines_le (text : Bytes) : (lines text).length ≤ text.length := by
  have hcut : Cut text (lines text) := lines_eq_iff.mp rfl
  obtain ⟨hfree, htext | ⟨front, last, hls, hlast, htext⟩⟩ := hcut
  · rw [← count_unlines hfree, ← htext]
    exact List.count_le_length
  · have hfront : (unlines front).count newline = front.length := by
      refine count_unlines fun l hl => hfree l ?_
      rw [hls]
      exact List.mem_append_left _ hl
    have hle := List.count_le_length (a := newline) (l := unlines front)
    have hpos := List.length_pos_iff.mpr hlast
    rw [hls, htext, List.length_append, List.length_append, List.length_singleton]
    omega

end Bytes

theorem SeverityCounts.eq_of_of_eq {c d : SeverityCounts} (h : ∀ s, c.of s = d.of s) : c = d := by
  obtain ⟨high, medium, low⟩ := c
  obtain ⟨high', medium', low'⟩ := d
  obtain rfl : high = high' := h .high
  obtain rfl : medium = medium' := h .medium
  obtain rfl : low = low' := h .low
  rfl

namespace Diagnosis

variable {text line : Bytes} {n : ℕ} {s : Severity} {f : Findings}

/-! ### Counts -/

theorem tally_eq_countP_filter (s : Severity) (text : Bytes) :
    tally s text = ((lines text).filter fun line => line ≠ []).countP fun line => severity .lenient line = s := by
  rw [← map_snd_numbered, List.countP_map]
  rfl

theorem tally_eq_countP (s : Severity) (text : Bytes) :
    tally s text = (lines text).countP fun line => line ≠ [] ∧ severity .lenient line = s := by
  rw [tally_eq_countP_filter, List.countP_filter]
  refine List.countP_congr fun line _ => ?_
  simp [and_comm]

/-- A line feed between two texts joins their diagnoses. -/
theorem tally_append_newline (s : Severity) (front back : Bytes) :
    tally s (front ++ newline :: back) = tally s front + tally s back := by
  simp only [tally_eq_countP_filter, filter_lines, pieces_append_cons, List.filter_append, List.countP_append]

theorem length_numbered (text : Bytes) : (numbered text).length = (lines text).countP fun line => line ≠ [] := by
  rw [List.countP_eq_length_filter, ← map_snd_numbered, List.length_map]

theorem total_classify {mode : Mode} (h : classify mode text = .ok f) :
    f.counts.total = Int64.ofNat (numbered text).length := by
  rw [SeverityCounts.total_eq, of_counts_classify h, of_counts_classify h, of_counts_classify h,
    ← Int64.ofNat_add, ← Int64.ofNat_add, tally_add_tally_add_tally]

/-- Counts do not wrap around for texts of less than `2 ^ 63` bytes. -/
theorem toInt_of_counts_classify {mode : Mode} (h : classify mode text = .ok f) (hlength : text.length < 2 ^ 63)
    (s : Severity) : (f.counts.of s).toInt = tally s text := by
  have hle : tally s text ≤ text.length := by
    calc tally s text ≤ (numbered text).length := List.countP_le_length
      _ = (lines text).countP fun line => line ≠ [] := length_numbered text
      _ ≤ (lines text).length := List.countP_le_length
      _ ≤ text.length := length_lines_le text
  rw [of_counts_classify h, Int64.toInt_ofNat_of_lt (hle.trans_lt hlength)]

/-! ### Warnings -/

theorem unmarked_foldl_count (l : List (ℕ × Bytes)) (f : Findings) :
    (l.foldl Findings.count f).unmarked =
      ((l.filter fun d => (word? d.2).isNone).map Prod.fst).reverse ++ f.unmarked := by
  induction l generalizing f with
  | nil => rfl
  | cons d l ih =>
    rw [List.foldl_cons, ih, Findings.count, severity?_lenient, List.filter_cons]
    split_ifs <;> simp

/-- The lines that are warned of, in their order. -/
theorem unmarked_classify (h : classify .lenient text = .ok f) :
    f.unmarked = ((numbered text).filter fun d => (word? d.2).isNone).map Prod.fst := by
  obtain rfl := Except.ok.inj h
  simp only [unmarked_foldl_count, List.append_nil, List.reverse_reverse]

theorem pairwise_unmarked (h : classify .lenient text = .ok f) : f.unmarked.Pairwise (· < ·) := by
  rw [unmarked_classify h, List.pairwise_map]
  exact (pairwise_numbered text).filter _

theorem mem_unmarked_iff (h : classify .lenient text = .ok f) :
    n ∈ f.unmarked ↔ ∃ line, LineAt text n line ∧ line ≠ [] ∧ ¬ lit ", seriousness: " <:+: line := by
  simp only [unmarked_classify h, List.mem_map, List.mem_filter, Option.isNone_iff_eq_none, word?_eq_none_iff]
  constructor
  · rintro ⟨⟨n, line⟩, ⟨hmem, hmarker⟩, rfl⟩
    obtain ⟨hline, hne⟩ := mem_numbered_iff.mp hmem
    exact ⟨line, hline, hne, hmarker⟩
  · rintro ⟨line, hline, hne, hmarker⟩
    exact ⟨(n, line), ⟨mem_numbered_iff.mpr ⟨hline, hne⟩, hmarker⟩, rfl⟩

/-! ### Refusals -/

/-- A line of a text that the strict mode does not recognise: it has no marker, or another word than the three names
behind its first marker. -/
def Unrecognised (text : Bytes) (n : ℕ) (line : Bytes) : Prop :=
  LineAt text n line ∧ line ≠ [] ∧ (¬ lit ", seriousness: " <:+: line ∨
    ∃ w, Marked line w ∧ w ∉ [lit "Low", lit "Medium", lit "High"])

theorem unrecognised_iff : Unrecognised text n line ↔ (n, line) ∈ numbered text ∧ severity? .strict line = none := by
  have hword : (¬ lit ", seriousness: " <:+: line ∨ ∃ w, Marked line w ∧ w ∉ names) ↔
      ∀ w, word? line = some w → w ∉ names := by
    simp only [← word?_eq_none_iff, ← word?_eq_some_iff]
    cases word? line <;> simp
  rw [severity?_strict_eq_none_iff, ← hword, mem_numbered_iff, and_assoc]
  rfl

/-- The strict mode refuses a text exactly if it does not recognise one of its lines. -/
theorem exists_classify_strict_error_iff :
    (∃ fault, classify .strict text = .error fault) ↔ ∃ n line, Unrecognised text n line := by
  simp only [classify_strict_eq_error_iff, unrecognised_iff, severity?_strict_eq_none_iff, Prod.exists]

/-- The strict mode names the first line that it does not recognise. -/
theorem first_of_classify_strict_error {fault : Fault} (h : classify .strict text = .error fault) :
    ∃ n line, fault = .unparseableDiagnosis n line ∧ Unrecognised text n line ∧
      ∀ m line', Unrecognised text m line' → n ≤ m := by
  simp only [classify] at h
  split at h
  · rename_i n line hfind
    obtain ⟨hnone, front, back, hnumbered, hfront⟩ := List.find?_eq_some_iff_append.mp hfind
    refine ⟨n, line, (Except.error.inj h).symm, unrecognised_iff.mpr ⟨?_, by simpa using hnone⟩, ?_⟩
    · exact List.mem_of_find?_eq_some hfind
    · intro m line' hm
      obtain ⟨hmem, hnone'⟩ := unrecognised_iff.mp hm
      have hordered := pairwise_numbered text
      rw [hnumbered] at hmem hordered
      obtain hmem | hmem := List.mem_append.mp hmem
      · -- the lines in front are recognised
        have hsome : (severity? .strict line').isSome = true := by simpa using hfront _ hmem
        exact absurd hnone' (Option.isSome_iff_ne_none.mp hsome)
      · obtain heq | hmem := List.mem_cons.mp hmem
        · exact (congrArg Prod.fst heq).ge
        · have hback := (List.pairwise_cons.mp (List.pairwise_append.mp hordered).2.1).1
          exact (hback _ hmem).le
  · contradiction

/-! ### Whole texts -/

/-- The counts of two texts with a line feed between them are the sums of their counts. -/
theorem counts_classify_append_newline {front back : Bytes} {g h : Findings}
    (hfront : classify .lenient front = .ok f) (hback : classify .lenient back = .ok g)
    (hboth : classify .lenient (front ++ newline :: back) = .ok h) : h.counts = f.counts.add g.counts := by
  refine SeverityCounts.eq_of_of_eq fun s => ?_
  rw [SeverityCounts.of_add, of_counts_classify hfront, of_counts_classify hback, of_counts_classify hboth,
    tally_append_newline, Int64.ofNat_add]

/-- **Classification line by line**. The lenient mode accepts every text. It counts each line that is not empty once,
under its severity, and the lines that it warns of are those of them that have no marker, in their order and with
their numbers; all of these count as serious. The strict mode refuses a text exactly if there is a line in it that it
does not recognise, and names the first one. A line feed between two texts adds their counts. -/
theorem classify_line_by_line (text : Bytes) :
    (∃ f, classify .lenient text = .ok f ∧
      (∀ s, f.counts.of s =
        Int64.ofNat ((lines text).countP fun line => line ≠ [] ∧ severity .lenient line = s)) ∧
      f.counts.total = Int64.ofNat ((lines text).countP fun line => line ≠ []) ∧
      (text.length < 2 ^ 63 → f.counts.high.toInt + f.counts.medium.toInt + f.counts.low.toInt =
        (lines text).countP fun line => line ≠ []) ∧
      ∃ ns : List ℕ,
        f.warnings = ns.map (fun n => lit "line " ++ decimal n ++ lit ": no severity marker, counted as High") ∧
        ns.Pairwise (· < ·) ∧
        ∀ n, n ∈ ns ↔ ∃ line, LineAt text n line ∧ line ≠ [] ∧ ¬ lit ", seriousness: " <:+: line) ∧
    (∀ line, ¬ lit ", seriousness: " <:+: line → severity .lenient line = .high) ∧
    ((∃ fault, classify .strict text = .error fault) ↔ ∃ n line, Unrecognised text n line) ∧
    (∀ fault, classify .strict text = .error fault →
      ∃ n line, fault = .unparseableDiagnosis n line ∧ Unrecognised text n line ∧
        ∀ m line', Unrecognised text m line' → n ≤ m) ∧
    ∀ more, ∃ f g h, classify .lenient text = .ok f ∧ classify .lenient more = .ok g ∧
      classify .lenient (text ++ newline :: more) = .ok h ∧ h.counts = f.counts.add g.counts := by
  have hlenient : ∀ text, ∃ f, classify .lenient text = .ok f := fun text => ⟨_, rfl⟩
  obtain ⟨f, hf⟩ := hlenient text
  refine ⟨⟨f, hf, ?_, ?_, ?_, f.unmarked, rfl, pairwise_unmarked hf, fun n => mem_unmarked_iff hf⟩,
    fun line hline => severity_of_not_isInfix hline .lenient, exists_classify_strict_error_iff,
    fun fault => first_of_classify_strict_error, ?_⟩
  · intro s
    rw [of_counts_classify hf, tally_eq_countP]
  · rw [total_classify hf, length_numbered]
  · intro hlength
    rw [← length_numbered, ← tally_add_tally_add_tally]
    have hcount := toInt_of_counts_classify hf hlength
    have hhigh : f.counts.high.toInt = tally .high text := hcount .high
    have hmedium : f.counts.medium.toInt = tally .medium text := hcount .medium
    have hlow : f.counts.low.toInt = tally .low text := hcount .low
    omega
  · intro more
    obtain ⟨g, hg⟩ := hlenient more
    obtain ⟨h, hh⟩ := hlenient (text ++ newline :: more)
    exact ⟨f, g, h, hf, hg, hh, counts_classify_append_newline hf hg hh⟩

end Diagnosis

end CrateAudit
