import CrateAudit.Proofs.Diagnosis
import Mathlib.Data.List.Infix
import Mathlib.Data.List.TakeWhile

/-!
# The marker of a line

The severity of a line is the word behind its first marker, which is looked for from the left. Where the first marker
stands can be said without a search: there is none in what is in front of it (`Bytes.afterFirst?_eq_some_iff`). An
earlier one that reaches into it is not ruled out by that, but the marker begins with its only comma, so two
markers never overlap (`Bytes.not_isPrefix_append`).

Main result: `severity_first_marker`. The line is an arbitrary byte string.
-/

namespace CrateAudit

namespace Bytes

variable {needle bs front rest w back tail : Bytes} {c : UInt8}

/-! ### The first occurrence -/

theorem afterFirst?_cons (needle : Bytes) (b : UInt8) (bs : Bytes) :
    afterFirst? needle (b :: bs) =
      if needle <+: b :: bs then some ((b :: bs).drop needle.length) else afterFirst? needle bs := by
  simp only [afterFirst?, List.isPrefixOf_iff_prefix]

/-- Nothing is found in a text exactly if it does not hold the needle. -/
theorem afterFirst?_eq_none_iff : afterFirst? needle bs = none ↔ ¬ needle <:+: bs := by
  induction bs with
  | nil => simp [afterFirst?]
  | cons b bs ih =>
    rw [afterFirst?_cons, List.infix_cons_iff, not_or, ← ih]
    split_ifs with hhere <;> simp [hhere]

theorem exists_of_afterFirst? (hne : needle ≠ []) (h : afterFirst? needle bs = some rest) :
    ∃ front, bs = front ++ needle ++ rest ∧ ¬ needle <:+: front := by
  induction bs with
  | nil => simp [afterFirst?, hne] at h
  | cons b bs ih =>
    rw [afterFirst?_cons] at h
    split_ifs at h with hhere
    · obtain rfl := Option.some.inj h
      exact ⟨[], (List.prefix_iff_eq_append.mp hhere).symm, mt List.infix_nil.mp hne⟩
    · obtain ⟨front, rfl, hfront⟩ := ih h
      refine ⟨b :: front, by simp, ?_⟩
      rw [List.infix_cons_iff, not_or]
      refine ⟨fun hstart => hhere (hstart.trans ?_), hfront⟩
      rw [List.append_assoc, ← List.cons_append]
      exact List.prefix_append _ _

/-- A needle whose first byte does not occur in it again does not overlap itself: in front of an occurrence, another
one does not begin unless it is over there. -/
theorem not_isPrefix_append (hc : c ∉ tail) (hfront : ¬ c :: tail <:+: front) (hne : front ≠ []) (rest : Bytes) :
    ¬ c :: tail <+: front ++ c :: tail ++ rest := by
  intro hstart
  have hnext : front ++ [c] <+: front ++ c :: tail ++ rest := ⟨tail ++ rest, by simp⟩
  obtain ⟨b, front, rfl⟩ := List.exists_cons_of_ne_nil hne
  -- the earlier occurrence is over at the first byte of the later one, or that byte is a second one in it
  obtain hover | hwithin := List.prefix_or_prefix_of_prefix hstart hnext
  · obtain heq | hover := List.prefix_concat_iff.mp hover
    · have htail : tail = front ++ [c] := (List.cons.inj heq).2
      exact hc (htail ▸ List.mem_concat_self)
    · exact hfront hover.isInfix
  · have htail : front ++ [c] <+: tail := (List.cons_prefix_cons.mp hwithin).2
    exact hc (htail.subset List.mem_concat_self)

/-- **The first occurrence** of a needle that does not overlap itself has no other in front of it. -/
theorem afterFirst?_eq_some_iff (hc : c ∉ tail) :
    afterFirst? (c :: tail) bs = some rest ↔ ∃ front, bs = front ++ c :: tail ++ rest ∧ ¬ c :: tail <:+: front := by
  refine ⟨exists_of_afterFirst? (List.cons_ne_nil c tail), ?_⟩
  rintro ⟨front, rfl, hfront⟩
  induction front with
  | nil =>
    rw [List.nil_append, List.cons_append, afterFirst?_cons, ← List.cons_append, if_pos (List.prefix_append _ _),
      List.drop_left]
  | cons b front ih =>
    have hnot := not_isPrefix_append hc hfront (List.cons_ne_nil b front) rest
    rw [List.cons_append, List.cons_append] at hnot ⊢
    rw [afterFirst?_cons, if_neg hnot]
    exact ih fun hlater => hfront (List.infix_cons hlater)

/-! ### Words -/

/-- The bytes that words are made of: the letters and the digits of ASCII, and the underscore. -/
def IsWordByte (b : UInt8) : Prop := (Char.ofUInt8 b).isAlphanum = true ∨ Char.ofUInt8 b = '_'

theorem isAlphanum_ofUInt8 (b : UInt8) : (Char.ofUInt8 b).isAlphanum = (isLetter b || isDigit b) := by
  calc (Char.ofUInt8 b).isAlphanum
      = ((decide ((0x41 : UInt8).toUInt32 ≤ b.toUInt32 ∧ b.toUInt32 ≤ (0x5a : UInt8).toUInt32) ||
          (decide ((0x61 : UInt8).toUInt32 ≤ b.toUInt32) && decide (b.toUInt32 ≤ (0x7a : UInt8).toUInt32))) ||
        (decide ((0x30 : UInt8).toUInt32 ≤ b.toUInt32) && decide (b.toUInt32 ≤ (0x39 : UInt8).toUInt32))) := rfl
    _ = (isLetter b || isDigit b) := by
      simp only [UInt8.toUInt32_le, Bool.decide_and]
      rfl

theorem isWord_iff (b : UInt8) : isWord b = true ↔ IsWordByte b := by
  have hunderscore : Char.ofUInt8 b = '_' ↔ b = 0x5f := by
    rw [← Char.val_inj, ← UInt32.toNat_inj, ← UInt8.toNat_inj]
    exact Iff.rfl
  rw [isWord, IsWordByte, isAlphanum_ofUInt8, hunderscore, Bool.or_eq_true, decide_eq_true_eq]

theorem all_isWord_iff : w.all isWord = true ↔ ∀ b ∈ w, IsWordByte b := by
  simp only [List.all_eq_true, isWord_iff]

theorem takeWhile_isWord_append (hw : ∀ b ∈ w, IsWordByte b) (hback : ∀ b ∈ back.head?, ¬ IsWordByte b) :
    (w ++ back).takeWhile isWord = w := by
  have hover : back.takeWhile isWord = [] := by
    cases back with
    | nil => rfl
    | cons b back => exact List.takeWhile_cons_of_neg (mt (isWord_iff b).mp (hback b rfl))
  rw [List.takeWhile_append_of_pos fun b hb => (isWord_iff b).mpr (hw b hb), hover, List.append_nil]

end Bytes

open Bytes

namespace Diagnosis

variable {line w : Bytes} {mode : Mode}

/-! ### The word behind the first marker -/

/-- The word behind the first marker of a line, up to where the bytes of words end. -/
def Marked (line w : Bytes) : Prop :=
  ∃ front back, line = front ++ lit ", seriousness: " ++ w ++ back ∧ ¬ lit ", seriousness: " <:+: front ∧
    (∀ b ∈ w, IsWordByte b) ∧ ∀ b ∈ back.head?, ¬ IsWordByte b

theorem marker_eq : marker = 0x2c :: marker.tail := by decide

/-- There is one comma in the marker. -/
theorem comma_not_mem_tail_marker : 0x2c ∉ marker.tail := by decide

theorem word?_eq_none_iff : word? line = none ↔ ¬ lit ", seriousness: " <:+: line := by
  rw [word?, Option.map_eq_none_iff, afterFirst?_eq_none_iff]
  rfl

theorem word?_eq_some_iff : word? line = some w ↔ Marked line w := by
  have hfirst : ∀ rest, afterFirst? marker line = some rest ↔
      ∃ front, line = front ++ lit ", seriousness: " ++ rest ∧ ¬ lit ", seriousness: " <:+: front := by
    intro rest
    rw [marker_eq, afterFirst?_eq_some_iff comma_not_mem_tail_marker, ← marker_eq]
    rfl
  rw [word?, Option.map_eq_some_iff]
  constructor
  · rintro ⟨rest, hrest, rfl⟩
    obtain ⟨front, rfl, hfront⟩ := (hfirst rest).mp hrest
    refine ⟨front, rest.dropWhile isWord, ?_, hfront, ?_, ?_⟩
    · rw [List.append_assoc _ (rest.takeWhile isWord), List.takeWhile_append_dropWhile]
    · intro b hb
      exact (isWord_iff b).mp (List.mem_takeWhile_imp hb)
    · intro b hb hword
      have hends := List.head?_dropWhile_not isWord rest
      rw [Option.mem_def.mp hb] at hends
      exact Bool.false_ne_true (hends.symm.trans ((isWord_iff b).mpr hword))
  · rintro ⟨front, back, hline, hfront, hw, hback⟩
    refine ⟨w ++ back, (hfirst _).mpr ⟨front, ?_, hfront⟩, takeWhile_isWord_append hw hback⟩
    rw [hline, List.append_assoc]

theorem severity?_of_marked (h : Marked line w) (mode : Mode) : severity? mode line = ofWord? mode w := by
  rw [severity?, word?_eq_some_iff.mpr h]
  rfl

theorem severity?_of_not_isInfix (h : ¬ lit ", seriousness: " <:+: line) (mode : Mode) :
    severity? mode line = none := by
  rw [severity?, word?_eq_none_iff.mpr h]
  rfl

theorem severity_of_not_isInfix (h : ¬ lit ", seriousness: " <:+: line) (mode : Mode) :
    severity mode line = .high := by
  rw [severity, severity?_of_not_isInfix h]
  rfl

theorem getD_ofWord?_strict (w : Bytes) :
    (ofWord? .strict w).getD .high =
      if w = lit "Low" then .low else if w = lit "Medium" then .medium else .high := by
  simp only [ofWord?]
  split_ifs <;> rfl

/-- **The first marker** of a line is the only one that counts, whatever follows its word. The lenient mode looks at
the first three bytes of the word, the strict mode at all of it. A line without a marker is not recognised in either
mode and is serious in both. -/
theorem severity_first_marker :
    (∀ front w back : Bytes, ¬ lit ", seriousness: " <:+: front → (∀ b ∈ w, IsWordByte b) →
      (∀ b ∈ back.head?, ¬ IsWordByte b) →
        severity .lenient (front ++ lit ", seriousness: " ++ w ++ back) =
          (if w.take 3 = lit "Low" then .low else if w.take 3 = lit "Med" then .medium else .high) ∧
        severity .strict (front ++ lit ", seriousness: " ++ w ++ back) =
          (if w = lit "Low" then .low else if w = lit "Medium" then .medium else .high)) ∧
    ∀ line mode, ¬ lit ", seriousness: " <:+: line → severity? mode line = none ∧ severity mode line = .high := by
  constructor
  · intro front w back hfront hw hback
    have hmarked : Marked (front ++ lit ", seriousness: " ++ w ++ back) w := ⟨front, back, rfl, hfront, hw, hback⟩
    rw [severity, severity, severity?_of_marked hmarked, severity?_of_marked hmarked]
    exact ⟨rfl, getD_ofWord?_strict w⟩
  · intro line mode hline
    exact ⟨severity?_of_not_isInfix hline mode, severity_of_not_isInfix hline mode⟩

/-- Something like a marker and a byte that is no text in front of the marker, and another marker behind it. -/
theorem severity_first_marker_lookalikes :
    severity .lenient (lit "leak, seriousness:Low, serious" ++ [0xff] ++ lit ", seriousness: " ++ lit "Medi_1" ++
        lit "-um, seriousness: Low") = .medium ∧
      severity .strict (lit "leak, seriousness:Low, serious" ++ [0xff] ++ lit ", seriousness: " ++ lit "Medi_1" ++
        lit "-um, seriousness: Low") = .high := by
  have hback : ∀ b ∈ (lit "-um, seriousness: Low").head?, ¬ IsWordByte b := by
    rintro b ⟨⟩
    exact mt (isWord_iff _).mpr (by decide)
  exact severity_first_marker.1 (lit "leak, seriousness:Low, serious" ++ [0xff]) (lit "Medi_1") _ (by decide)
    (all_isWord_iff.mp (by decide)) hback

end Diagnosis

end CrateAudit
