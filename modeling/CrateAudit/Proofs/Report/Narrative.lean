import CrateAudit.Proofs.Bytes.Lines
import CrateAudit.Report.Narrative

/-!
# The narrative keeps diagnostics as they are

The narrative writes diagnostics line by line. Nothing is lost by that: lines put together again are the text they
were cut from, with a line feed at its end (`Bytes.unlines_lines`), empty lines at any place included; and
lines that hold no line feeds are found again (`Bytes.lines_unlines`). So a block of the narrative has the diagnostics
of its result in it, byte for byte (`Narrative.block_eq`).

Main result: `Narrative.write_verbatim`.
-/

namespace CrateAudit

namespace Bytes

variable {text : Bytes}

/-- The text with a line feed at its end, which is added if it is missing. -/
def closed (text : Bytes) : Bytes := if text.getLast? = some newline then text else text ++ [newline]

theorem lines_unlines {ls : List Bytes} (h : ∀ l ∈ ls, newline ∉ l) : lines (unlines ls) = ls :=
  lines_eq_iff.mpr ⟨h, .inl rfl⟩

theorem unlines_lines (hne : text ≠ []) : unlines (lines text) = closed text := by
  have hcut : Cut text (lines text) := lines_eq_iff.mp rfl
  obtain ⟨hfree, htext | ⟨front, last, hls, hlast, htext⟩⟩ := hcut
  · -- every line is closed, and so is the text
    rw [← htext, closed, if_pos]
    have hend := unlines_eq_nil_or_getLast? (lines text)
    rw [← htext] at hend
    exact hend.resolve_left hne
  · -- the last line ends with the text
    have hopen : text.getLast? ≠ some newline := by
      rw [htext, List.getLast?_append_of_ne_nil _ hlast]
      intro hend
      refine hfree last ?_ (List.mem_of_getLast? hend)
      rw [hls]
      exact List.mem_concat_self
    rw [closed, if_neg hopen, hls, htext]
    simp [unlines]

end Bytes

open Bytes

namespace Narrative

variable {r : Result}

theorem block_of_eq_nil (h : r.diagnostics = []) : block r = [] := by
  rw [block, h]
  rfl

theorem block_eq (h : r.diagnostics ≠ []) :
    block r = r.id ++ lit ":\n" ++ closed r.diagnostics ++ r.elapsed.shortest ++ lit "\n" ++
      integer r.peakKB.toInt ++ lit "\n\n" := by
  have hend : unlines [r.elapsed.shortest, integer r.peakKB.toInt, []] =
      r.elapsed.shortest ++ lit "\n" ++ integer r.peakKB.toInt ++ lit "\n\n" := by
    have hfeed : lit "\n" = [newline] := by decide
    have hfeeds : lit "\n\n" = [newline, newline] := by decide
    simp [unlines, hfeed, hfeeds]
  rw [block, if_neg (by simpa using h), unlines_lines h, hend]
  simp only [List.append_assoc]

theorem block_eq_nil_iff : block r = [] ↔ r.diagnostics = [] := by
  refine ⟨fun hblock => ?_, block_of_eq_nil⟩
  by_contra hne
  rw [block_eq hne] at hblock
  have hend : lit "\n\n" = [] := (List.append_eq_nil_iff.mp hblock).2
  contradiction

/-- There is a block for each result with diagnostics. -/
theorem write_eq_flatMap_filter (results : List Result) :
    write results = (results.filter fun r => r.diagnostics ≠ []).flatMap block := by
  induction results with
  | nil => rfl
  | cons r results ih =>
    rw [write, List.flatMap_cons, ← write, ih]
    by_cases hr : r.diagnostics = []
    · rw [block_of_eq_nil hr, List.filter_cons_of_neg (by simpa using hr), List.nil_append]
    · rw [List.filter_cons_of_pos (by simpa using hr), List.flatMap_cons]

/-- **Diagnostics are kept**. Cutting into lines and closing each of them by a line feed undo each other, up to a line
feed at the end of a text; so the narrative has one block after the other for the results with diagnostics, with the
name of the result, the diagnostics as they are, the elapsed seconds, the peak memory and an empty line. It is
empty exactly if no result has diagnostics. -/
theorem write_verbatim :
    (∀ ls : List Bytes, (∀ l ∈ ls, newline ∉ l) → lines (ls.flatMap fun l => l ++ [newline]) = ls) ∧
    (∀ text : Bytes, text ≠ [] → (lines text).flatMap (fun l => l ++ [newline]) =
      if text.getLast? = some newline then text else text ++ [newline]) ∧
    ∀ results : List Result,
      write results = (results.filter fun r => r.diagnostics ≠ []).flatMap (fun r =>
        r.id ++ lit ":\n" ++
        (if r.diagnostics.getLast? = some newline then r.diagnostics else r.diagnostics ++ [newline]) ++
        r.elapsed.shortest ++ lit "\n" ++ integer r.peakKB.toInt ++ lit "\n\n") ∧
      (write results = [] ↔ ∀ r ∈ results, r.diagnostics = []) := by
  refine ⟨fun ls => lines_unlines, fun text => unlines_lines, fun results => ⟨?_, ?_⟩⟩
  · rw [write_eq_flatMap_filter]
    refine List.flatMap_congr fun r hr => ?_
    exact block_eq (by simpa using (List.mem_filter.mp hr).2)
  · simp only [write, List.flatMap_eq_nil_iff, block_eq_nil_iff]

end Narrative

end CrateAudit
