import CrateAudit.Bytes.Lines
import Mathlib.Data.List.Basic
import Mathlib.Data.List.TakeWhile

/-!
# Pieces and lines of a text

Cutting a text at a byte is `List.splitOn` (`pieces_eq_splitOn`), so the pieces put together again give the
text, and none of them holds the byte. Where a line stands in a text can be said without cutting anything:
behind as many line feeds as there are lines in front of it, and between two line feeds or ends of the text
(`LineAt`). The lines that are not empty are found where they stand (`getElem?_lines_eq_some_iff`), and a text has
one list of lines that it can be put together from (`lines_eq_iff`).
-/

namespace CrateAudit.Bytes

variable {sep : UInt8} {bs front back text line : Bytes} {n : Nat}

/-! ### Cutting at a byte -/

theorem pieces_cons (sep b : UInt8) (bs : Bytes) :
    pieces sep (b :: bs) =
      if b = sep then [] :: pieces sep bs else (pieces sep bs).modifyHead (List.cons b) := by
  simp only [pieces, List.foldr_cons]
  split <;> rfl

theorem pieces_eq_splitOn (sep : UInt8) (bs : Bytes) : pieces sep bs = bs.splitOn sep := by
  induction bs with
  | nil => rfl
  | cons b bs ih => simp only [pieces_cons, List.splitOn_cons_eq_if_modifyHead, ih, beq_iff_eq]

/-- A text is put together from its pieces. -/
theorem intercalate_pieces (sep : UInt8) (bs : Bytes) : [sep].intercalate (pieces sep bs) = bs := by
  rw [pieces_eq_splitOn, List.intercalate_splitOn]

theorem pieces_append_cons (sep : UInt8) (front back : Bytes) :
    pieces sep (front ++ sep :: back) = pieces sep front ++ pieces sep back := by
  simp only [pieces_eq_splitOn]
  exact List.splitOnP_append_cons front back (beq_self_eq_true sep)

theorem pieces_of_not_mem (h : sep ∉ bs) : pieces sep bs = [bs] := by
  rw [pieces_eq_splitOn]
  refine List.splitOnP_eq_singleton ?_
  intro b hb
  exact beq_false_of_ne (ne_of_mem_of_not_mem hb h)

theorem not_mem_of_mem_pieces {piece : Bytes} (h : piece ∈ pieces sep bs) : sep ∉ piece := by
  induction bs generalizing piece with
  | nil =>
    rw [List.mem_singleton.mp h]
    exact List.not_mem_nil
  | cons b bs ih =>
    rw [pieces_cons] at h
    split at h
    · obtain rfl | h := List.mem_cons.mp h
      · exact List.not_mem_nil
      · exact ih h
    · rename_i hb
      cases hcut : pieces sep bs with
      | nil =>
        rw [hcut] at h
        exact absurd h List.not_mem_nil
      | cons first rest =>
        rw [hcut] at ih h
        obtain rfl | h := List.mem_cons.mp h
        · rw [List.mem_cons, not_or]
          exact ⟨Ne.symm hb, ih List.mem_cons_self⟩
        · exact ih (List.mem_cons_of_mem first h)

/-- There is one piece more than there are cuts. -/
theorem length_pieces (sep : UInt8) (bs : Bytes) : (pieces sep bs).length = bs.count sep + 1 := by
  induction bs with
  | nil => rfl
  | cons b bs ih =>
    rw [pieces_cons, List.count_cons]
    split
    · rename_i hb
      simp [hb, ih]
    · rename_i hb
      simp [hb, ih]

/-- The last cut of a text. -/
theorem splitLast?_append_cons (h : sep ∉ back) (front : Bytes) :
    splitLast? sep (front ++ sep :: back) = some (front, back) := by
  have hback : ∀ b ∈ back.reverse, decide (b ≠ sep) = true := by
    intro b hb
    exact decide_eq_true (ne_of_mem_of_not_mem (List.mem_reverse.mp hb) h)
  have hreverse : (front ++ sep :: back).reverse = back.reverse ++ sep :: front.reverse := by simp
  simp only [splitLast?, hreverse]
  rw [List.dropWhile_append_of_pos hback, List.takeWhile_append_of_pos hback,
    List.dropWhile_cons_of_neg (by simp), List.takeWhile_cons_of_neg (by simp)]
  simp

/-- The two parts that a text is cut into at the last separator stand around it. -/
theorem eq_of_splitLast? (h : splitLast? sep bs = some (front, back)) : bs = front ++ sep :: back := by
  have hsep := List.head?_dropWhile_not (fun b => decide (b ≠ sep)) bs.reverse
  have hcut := List.takeWhile_append_dropWhile (p := fun b => decide (b ≠ sep)) (l := bs.reverse)
  rw [splitLast?] at h
  split at h
  · contradiction
  · rename_i b rest hdrop
    obtain ⟨rfl, rfl⟩ := Prod.mk.inj (Option.some.inj h)
    rw [hdrop] at hsep hcut
    obtain rfl : b = sep := by simpa using hsep
    simpa using (congrArg List.reverse hcut).symm

/-- A text behind another one is found. -/
theorem after?_append (start rest : Bytes) : after? start (start ++ rest) = some rest := by
  rw [after?, if_pos (List.isPrefixOf_iff_prefix.mpr (List.prefix_append start rest)), List.drop_left]

/-! ### Where lines stand -/

/-- A line of a text, with its number counted from one: what stands behind some line feeds, at the start of
the text or right behind the last of them, and reaches to the next line feed or to the end of the text. -/
def LineAt (text : Bytes) (n : Nat) (line : Bytes) : Prop :=
  newline ∉ line ∧ ∃ front back, text = front ++ line ++ back ∧ front.count newline + 1 = n ∧
    (front = [] ∨ front.getLast? = some newline) ∧ (back = [] ∨ back.head? = some newline)

/-- A text around one of its pieces: those in front of it are closed by the separator, and those behind it
are opened by it. -/
theorem intercalate_append_cons (sep : UInt8) (before : List Bytes) (piece : Bytes) (after : List Bytes) :
    [sep].intercalate (before ++ piece :: after) =
      before.flatMap (· ++ [sep]) ++ piece ++ after.flatMap (sep :: ·) := by
  induction before with
  | nil =>
    induction after generalizing piece with
    | nil => simp
    | cons next after ih => simpa [List.intercalate_cons_cons] using ih next
  | cons first before ih =>
    have hne : before ++ piece :: after ≠ [] := by simp
    obtain ⟨second, rest, hrest⟩ := List.exists_cons_of_ne_nil hne
    rw [List.cons_append, hrest, List.intercalate_cons_cons, ← hrest, ih]
    simp

theorem count_unlines {ls : List Bytes} (h : ∀ l ∈ ls, newline ∉ l) :
    (unlines ls).count newline = ls.length := by
  induction ls with
  | nil => rfl
  | cons l ls ih =>
    have hl : l.count newline = 0 := List.count_eq_zero.mpr (h l List.mem_cons_self)
    rw [unlines, List.flatMap_cons, List.count_append, List.count_append, hl, ← unlines,
      ih fun l hl => h l (List.mem_cons_of_mem _ hl)]
    simp [Nat.add_comm]

theorem unlines_eq_nil_or_getLast? (ls : List Bytes) :
    unlines ls = [] ∨ (unlines ls).getLast? = some newline := by
  obtain rfl | ⟨ls, l, rfl⟩ := List.eq_nil_or_concat ls
  · exact .inl rfl
  · refine .inr ?_
    simp [unlines]

/-- A piece between line feeds is found where it stands. -/
theorem getElem?_pieces_eq_some_iff :
    (pieces newline text)[n]? = some line ↔ LineAt text (n + 1) line := by
  constructor
  · intro h
    obtain ⟨hlt, hget⟩ := List.getElem?_eq_some_iff.mp h
    have hsplit : (pieces newline text).take n ++ line :: (pieces newline text).drop (n + 1) =
        pieces newline text := by
      rw [← hget, List.getElem_cons_drop, List.take_append_drop]
    have hfree : ∀ l ∈ (pieces newline text).take n, newline ∉ l := by
      intro l hl
      exact not_mem_of_mem_pieces (List.mem_of_mem_take hl)
    refine ⟨not_mem_of_mem_pieces (List.mem_of_getElem? h), unlines ((pieces newline text).take n),
      ((pieces newline text).drop (n + 1)).flatMap (newline :: ·), ?_, ?_, unlines_eq_nil_or_getLast? _, ?_⟩
    · conv_lhs => rw [← intercalate_pieces newline text, ← hsplit, intercalate_append_cons]
      rfl
    · rw [count_unlines hfree, List.length_take_of_le (Nat.le_of_lt hlt)]
    · cases (pieces newline text).drop (n + 1) with
      | nil => exact .inl rfl
      | cons next after => exact .inr rfl
  · rintro ⟨hline, front, back, rfl, hcount, hfront, hback⟩
    -- behind the line the text is cut again, or it ends
    have hhere : ∃ after, pieces newline (line ++ back) = line :: after := by
      obtain rfl | hhead := hback
      · exact ⟨[], by rw [List.append_nil, pieces_of_not_mem hline]⟩
      · obtain ⟨rest, rfl⟩ := List.head?_eq_some_iff.mp hhead
        exact ⟨_, by rw [pieces_append_cons, pieces_of_not_mem hline, List.singleton_append]⟩
    obtain ⟨after, hafter⟩ := hhere
    rw [List.append_assoc]
    obtain rfl | hlast := hfront
    · obtain rfl : n = 0 := by simpa using hcount.symm
      rw [List.nil_append, hafter, List.getElem?_cons_zero]
    · obtain ⟨start, rfl⟩ := List.getLast?_eq_some_iff.mp hlast
      have hn : (pieces newline start).length = n := by
        rw [length_pieces]
        simpa using hcount
      rw [List.append_assoc, List.singleton_append, pieces_append_cons, hafter,
        List.getElem?_append_right (Nat.le_of_eq hn), hn, Nat.sub_self, List.getElem?_cons_zero]

/-- **Lines** that are not empty are found where they stand. -/
theorem getElem?_lines_eq_some_iff (hne : line ≠ []) :
    (lines text)[n]? = some line ↔ LineAt text (n + 1) line := by
  rw [← getElem?_pieces_eq_some_iff]
  simp only [lines]
  split
  · rename_i hlast
    obtain ⟨start, hstart⟩ := List.getLast?_eq_some_iff.mp hlast
    rw [hstart, List.dropLast_concat]
    -- what is dropped is empty
    obtain hlt | rfl | hgt := Nat.lt_trichotomy n start.length
    · rw [List.getElem?_append_left hlt]
    · simp [Ne.symm hne]
    · have hbehind : (start ++ [([] : Bytes)]).length ≤ n := by
        rw [List.length_append]
        exact hgt
      rw [List.getElem?_eq_none (Nat.le_of_lt hgt), List.getElem?_eq_none hbehind]
  · rfl

/-! ### Lines put together again -/

/-- The lines that a text is cut into: each is closed by a line feed, but the last one may end with the text, unless
it is empty. -/
def Cut (text : Bytes) (ls : List Bytes) : Prop :=
  (∀ l ∈ ls, newline ∉ l) ∧
    (text = unlines ls ∨ ∃ front last, ls = front ++ [last] ∧ last ≠ [] ∧ text = unlines front ++ last)

theorem pieces_unlines_append {ls : List Bytes} (hls : ∀ l ∈ ls, newline ∉ l) (hline : newline ∉ line) :
    pieces newline (unlines ls ++ line) = ls ++ [line] := by
  induction ls with
  | nil => exact pieces_of_not_mem hline
  | cons l ls ih =>
    rw [List.forall_mem_cons] at hls
    have htext : unlines (l :: ls) ++ line = l ++ newline :: (unlines ls ++ line) := by simp [unlines]
    rw [htext, pieces_append_cons, pieces_of_not_mem hls.1, ih hls.2, List.singleton_append, List.cons_append]

theorem lines_unlines_append {ls : List Bytes} (hls : ∀ l ∈ ls, newline ∉ l) (hline : newline ∉ line) :
    lines (unlines ls ++ line) = if line = [] then ls else ls ++ [line] := by
  simp only [lines, pieces_unlines_append hls hline, List.getLast?_concat, Option.some.injEq, List.dropLast_concat]

/-- **Cutting into lines** is the inverse of putting lines together. -/
theorem lines_eq_iff {ls : List Bytes} : lines text = ls ↔ Cut text ls := by
  constructor
  · rintro rfl
    -- the pieces are the lines, and what stands behind the last line feed
    obtain ⟨front, last, hpieces⟩ : ∃ front last, pieces newline text = front ++ [last] := by
      have hne : pieces newline text ≠ [] := by simp [pieces]
      exact ⟨_, _, (List.dropLast_append_getLast hne).symm⟩
    have hfree : ∀ l ∈ front ++ [last], newline ∉ l := fun l hl => not_mem_of_mem_pieces (hpieces ▸ hl)
    have htext : text = unlines front ++ last := by
      rw [← intercalate_pieces newline text, hpieces, intercalate_append_cons]
      exact List.append_nil _
    rw [List.forall_mem_append] at hfree
    rw [htext, lines_unlines_append hfree.1 (hfree.2 last (List.mem_singleton.mpr rfl))]
    split
    · rename_i hlast
      refine ⟨hfree.1, .inl ?_⟩
      rw [hlast, List.append_nil]
    · rename_i hlast
      exact ⟨List.forall_mem_append.mpr hfree, .inr ⟨front, last, rfl, hlast, rfl⟩⟩
  · rintro ⟨hfree, rfl | ⟨front, last, rfl, hlast, rfl⟩⟩
    · have hlines := lines_unlines_append hfree (List.not_mem_nil (a := newline))
      rwa [List.append_nil, if_pos rfl] at hlines
    · rw [List.forall_mem_append] at hfree
      rw [lines_unlines_append hfree.1 (hfree.2 last (List.mem_singleton.mpr rfl)), if_neg hlast]

/-! ### Lines of list files -/

/-- If all lines fit into the buffer, they are delivered without their ends. -/
theorem listLines_eq_map (h : ∀ line ∈ lines bs, line.length < bufferSize) :
    listLines bs = ((lines bs).map dropCarriageReturn).map .line := by
  have hfit : (lines bs).takeWhile (·.length < bufferSize) = lines bs :=
    List.takeWhile_eq_self_iff.mpr fun line hline => decide_eq_true (h line hline)
  simp [listLines, hfit]

/-- If nothing but lines is delivered, these are all the lines. -/
theorem eq_of_listLines {texts : List Bytes} (h : listLines bs = texts.map .line) :
    texts = (lines bs).map dropCarriageReturn := by
  have hfit : ∀ line ∈ lines bs, line.length < bufferSize := by
    by_contra hlong
    -- a line that does not fit is told
    have hlt : ((lines bs).takeWhile (·.length < bufferSize)).length < (lines bs).length := by
      refine Nat.lt_of_le_of_ne (List.takeWhile_prefix _).length_le fun hlen => hlong ?_
      have heq := (List.takeWhile_prefix fun line : Bytes => decide (line.length < bufferSize)).eq_of_length hlen
      exact fun line hline => of_decide_eq_true (List.takeWhile_eq_self_iff.mp heq line hline)
    have hmem : ListLine.tooLong ∈ texts.map .line := by
      rw [← h, listLines]
      simp [hlt]
    obtain ⟨text, -, htext⟩ := List.mem_map.mp hmem
    cases htext
  rw [listLines_eq_map hfit] at h
  exact (List.map_injective_iff.mpr (fun _ _ => ListLine.line.inj) h).symm

end CrateAudit.Bytes
