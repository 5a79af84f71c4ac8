import CrateAudit.Json
import CrateAudit.Proofs.Bytes.Decimal
import CrateAudit.Proofs.Bytes.Lines
import CrateAudit.Proofs.Bytes.Utf8

/-!
# Reading JSON

The reader `read?` follows the grammar of the format: white space between the parts, strings with all their
escapes (surrogate pairs included), objects and arrays without trailing commas. It takes nothing but UTF-8,
and as in documents numbers are whole. It is written without regard to how documents are laid out or which
characters are escaped.

The parts of a document read back, whatever follows them (`Reads`): strings, with the replacement character in
place of stray bytes (`string?_string`), words and numbers, and sequences whose items read back
(`sequence?_following`).
-/

namespace CrateAudit.Json

open Bytes
open String (utf8EncodeChar)

/-! ### The reader -/

/-- White space between the parts of a document. -/
def isBlank (b : UInt8) : Bool := b = 0x20 || b = 0x09 || b = 0x0a || b = 0x0d

/-- What is left of a text behind the white space at its front. -/
def skip (bs : Bytes) : Bytes := bs.dropWhile isBlank

/-- The value of a hexadecimal digit. -/
def hexValue? (b : UInt8) : Option Nat :=
  if isDigit b then some (b.toNat - 0x30)
  else if 0x61 ≤ b && b ≤ 0x66 then some (b.toNat - 0x57)
  else if 0x41 ≤ b && b ≤ 0x46 then some (b.toNat - 0x37)
  else none

/-- The number of the four hexadecimal digits at the front of a text. -/
def unit? : Bytes → Option Nat
  | a :: b :: c :: d :: _ => do
    return (← hexValue? a) * 4096 + (← hexValue? b) * 256 + (← hexValue? c) * 16 + (← hexValue? d)
  | _ => none

/-- The escapes of one byte, with the byte that they stand for. -/
def shortEscapes : List (UInt8 × UInt8) :=
  [(0x22, 0x22), (0x5c, 0x5c), (0x2f, 0x2f), (0x62, 0x08), (0x66, 0x0c), (0x6e, 0x0a), (0x72, 0x0d),
    (0x74, 0x09)]

/-- What the escape behind a backslash stands for, with its length. Characters beyond four digits are
written as two surrogates, which stand for nothing on their own. -/
def escape? : Bytes → Option (Bytes × Nat)
  | [] => none
  | b :: rest =>
    if b = 0x75 then do
      let high ← unit? rest
      if high < 0xd800 || 0xdfff < high then some (utf8EncodeChar (Char.ofNat high), 5)
      else
        let low ← (after? (lit "\\u") (rest.drop 4)).bind unit?
        if high < 0xdc00 && 0xdc00 ≤ low && low ≤ 0xdfff then
          some (utf8EncodeChar (Char.ofNat (0x10000 + (high - 0xd800) * 0x400 + (low - 0xdc00))), 11)
        else none
    else (shortEscapes.lookup b).map fun byte => ([byte], 1)

/-- What is read behind some bytes of a string, with them in front. -/
def prepend (bytes : Bytes) (read : Option (Bytes × Bytes)) : Option (Bytes × Bytes) :=
  read.map fun (s, rest) => (bytes ++ s, rest)

/-- Reads a string behind its opening quote; the counter holds how many bytes of an escape are still to be
passed over. -/
def stringGo : Nat → Bytes → Option (Bytes × Bytes)
  | _, [] => none
  | n + 1, _ :: rest => stringGo n rest
  | 0, b :: rest =>
    if b = 0x22 then some ([], rest)
    else if b = 0x5c then
      (escape? rest).bind fun (bytes, size) => prepend bytes (stringGo size rest)
    else if b < 0x20 then none
    else prepend [b] (stringGo 0 rest)

/-- Reads a string. -/
def string? : Bytes → Option (Bytes × Bytes)
  | [] => none
  | b :: rest => if b = 0x22 then stringGo 0 rest else none

/-- Reads a number without a sign; it has no leading zeros. -/
def natural? (bs : Bytes) : Option (Nat × Bytes) :=
  let digits := bs.takeWhile isDigit
  if digits.isEmpty || (digits.head? = some 0x30 && 1 < digits.length) then none
  else some (digitsValue digits, bs.dropWhile isDigit)

/-- Reads a whole number. -/
def number? : Bytes → Option (Int × Bytes)
  | [] => none
  | b :: rest =>
    if b = 0x2d then (natural? rest).map fun (n, rest) => (-n, rest)
    else (natural? (b :: rest)).map fun (n, rest) => (n, rest)

/-- Reads a word or a number. -/
def scalar? (bs : Bytes) : Option (Json × Bytes) :=
  ((after? (lit "null") bs).map (.null, ·)).or <|
    ((after? (lit "true") bs).map (.bool true, ·)).or <|
      ((after? (lit "false") bs).map (.bool false, ·)).or <|
        (number? bs).map fun (i, rest) => (.number i, rest)

/-- Reads the items behind the first one, each behind a comma, and the closing bracket. -/
def items? {α : Type} (close : UInt8) (item : Bytes → Option (α × Bytes)) :
    Nat → Bytes → Option (List α × Bytes)
  | 0, _ => none
  | fuel + 1, bs =>
    match skip bs with
    | [] => none
    | b :: rest =>
      if b = close then some ([], rest)
      else if b = 0x2c then
        (item rest).bind fun (a, rest) => (items? close item fuel rest).map fun (as, rest) => (a :: as, rest)
      else none

/-- Reads items with commas between them, and the closing bracket. -/
def sequence? {α : Type} (close : UInt8) (item : Bytes → Option (α × Bytes)) (fuel : Nat) (bs : Bytes) :
    Option (List α × Bytes) :=
  match skip bs with
  | [] => none
  | b :: rest =>
    if b = close then some ([], rest)
    else (item (b :: rest)).bind fun (a, rest) =>
      (items? close item fuel rest).map fun (as, rest) => (a :: as, rest)

/-- Reads a member of an object. -/
def pair? (value : Bytes → Option (Json × Bytes)) (bs : Bytes) : Option ((Bytes × Json) × Bytes) := do
  let (name, rest) ← string? (skip bs)
  let rest ← after? (lit ":") (skip rest)
  let (j, rest) ← value rest
  return ((name, j), rest)

/-- Reads a document; the fuel bounds the depth of brackets and the number of items in each. -/
def value? : Nat → Bytes → Option (Json × Bytes)
  | 0, _ => none
  | fuel + 1, bs =>
    match skip bs with
    | [] => none
    | b :: rest =>
      if b = 0x22 then (stringGo 0 rest).map fun (s, rest) => (.text s, rest)
      else if b = 0x5b then
        (sequence? 0x5d (value? fuel) fuel rest).map fun (items, rest) => (.array items, rest)
      else if b = 0x7b then
        (sequence? 0x7d (pair? (value? fuel)) fuel rest).map fun (members, rest) => (.object members, rest)
      else scalar? (b :: rest)

/-- Reads a text that holds one document. -/
def read? (bs : Bytes) : Option Json :=
  if Utf8.isValid bs then
    (value? (bs.length + 1) bs).bind fun (j, rest) => if (skip rest).isEmpty then some j else none
  else none

/-! ### White space -/

variable {bs rest blanks : Bytes} {b : UInt8}

theorem skip_append (h : blanks.all isBlank = true) (rest : Bytes) : skip (blanks ++ rest) = skip rest :=
  List.dropWhile_append_of_pos (List.all_eq_true.mp h)

theorem skip_cons (h : isBlank b = false) (rest : Bytes) : skip (b :: rest) = b :: rest :=
  List.dropWhile_cons_of_neg (by simp [h])

theorem head?_append_of_all_isBlank (h : blanks.all isBlank = true) (rest : Bytes)
    (hrest : rest.head?.any isDigit = false) :
    (blanks ++ rest).head?.any isDigit = false := by
  cases blanks with
  | nil => exact hrest
  | cons b blanks =>
    rw [List.all_cons, Bool.and_eq_true] at h
    simp only [isBlank, Bool.or_eq_true, decide_eq_true_eq] at h
    obtain ⟨((rfl | rfl) | rfl) | rfl, -⟩ := h <;> rfl

/-! ### Strings -/

theorem stringGo_eq (n : Nat) (bs : Bytes) : stringGo n bs = stringGo 0 (bs.drop n) := by
  induction bs generalizing n with
  | nil => simp [stringGo]
  | cons b rest ih =>
    cases n with
    | zero => rfl
    | succ n => rw [stringGo, ih, List.drop_succ_cons]

theorem prepend_append (bytes bytes' : Bytes) (read : Option (Bytes × Bytes)) :
    prepend (bytes ++ bytes') read = prepend bytes (prepend bytes' read) := by
  cases read with
  | none => rfl
  | some found => simp [prepend]

/-- A byte that stands for itself in a string. -/
def isPlain (b : UInt8) : Bool := 0x20 ≤ b && b ≠ 0x22 && b ≠ 0x5c

theorem stringGo_plain (h : bs.all isPlain = true) (rest : Bytes) :
    stringGo 0 (bs ++ rest) = prepend bs (stringGo 0 rest) := by
  induction bs with
  | nil => simp [prepend]
  | cons b bs ih =>
    rw [List.all_cons, Bool.and_eq_true] at h
    obtain ⟨⟨hlow, hquote⟩, hslash⟩ : (0x20 ≤ b ∧ b ≠ 0x22) ∧ b ≠ 0x5c := by simpa [isPlain] using h.1
    rw [List.cons_append, stringGo, if_neg hquote, if_neg hslash, if_neg (UInt8.not_lt.mpr hlow), ih h.2,
      ← prepend_append]
    rfl

/-- Every character stands for itself in a string, apart from controls, the quote and the backslash. -/
theorem all_isPlain_utf8EncodeChar {c : Char} (hlow : 0x20 ≤ c.toNat) (hquote : c ≠ '"') (hslash : c ≠ '\\') :
    (utf8EncodeChar c).all isPlain = true := by
  have hplain : ∀ {b : UInt8}, 0x20 ≤ b.toNat → b.toNat ≠ 0x22 → b.toNat ≠ 0x5c → isPlain b = true := by
    intro b h h' h''
    simp only [isPlain, Bool.and_eq_true, decide_eq_true_eq, UInt8.le_iff_toNat_le, ne_eq, ← UInt8.toNat_inj]
    exact ⟨⟨h, h'⟩, h''⟩
  obtain ⟨hc, hone⟩ | ⟨-, hall⟩ := Utf8.utf8EncodeChar_cases c
  · have hb : (UInt8.ofNat c.toNat).toNat = c.toNat := by
      rw [UInt8.toNat_ofNat']
      omega
    rw [hone, List.all_cons, List.all_nil, Bool.and_true]
    refine hplain (by omega) ?_ ?_
    · rw [hb]
      exact fun h => hquote (Char.toNat_inj.mp h)
    · rw [hb]
      exact fun h => hslash (Char.toNat_inj.mp h)
  · rw [List.all_eq_true] at hall ⊢
    intro b hb
    have hhigh : 0x80 ≤ b.toNat := UInt8.le_iff_toNat_le.mp (of_decide_eq_true (hall b hb))
    exact hplain (by omega) (by omega) (by omega)

/-- An escape is read as what it stands for. -/
theorem stringGo_escape (escape : Bytes) {bytes : Bytes}
    (h : escape? (escape ++ rest) = some (bytes, escape.length)) :
    stringGo 0 (0x5c :: (escape ++ rest)) = prepend bytes (stringGo 0 rest) := by
  rw [stringGo, if_neg (by decide), if_pos rfl, h, Option.bind_some]
  show prepend bytes (stringGo escape.length (escape ++ rest)) = _
  rw [stringGo_eq, List.drop_left]

theorem hexValue?_hexDigit : ∀ d < 16, hexValue? (hexDigit d) = some d := by decide

theorem unit?_hex {n : Nat} (hn : n < 0x10000) (rest : Bytes) : unit? (hex 4 n ++ rest) = some n := by
  have hdigits : hex 4 n = [hexDigit (n / 4096 % 16), hexDigit (n / 256 % 16), hexDigit (n / 16 % 16),
      hexDigit (n / 1 % 16)] := rfl
  have hsum : n / 4096 % 16 * 4096 + n / 256 % 16 * 256 + n / 16 % 16 * 16 + n / 1 % 16 = n := by omega
  rw [hdigits]
  simp only [List.cons_append, unit?, hexValue?_hexDigit _ (Nat.mod_lt _ (by omega : 0 < 16))]
  exact congrArg some hsum

/-- A character by its number. -/
theorem stringGo_numericEscape {n : Nat} (hn : n < 0xd800 ∨ 0xdfff < n ∧ n < 0x10000) (rest : Bytes) :
    stringGo 0 (numericEscape n ++ rest) = prepend (utf8EncodeChar (Char.ofNat n)) (stringGo 0 rest) := by
  have hescape : numericEscape n ++ rest = 0x5c :: ((0x75 :: hex 4 n) ++ rest) := rfl
  rw [hescape]
  refine stringGo_escape (0x75 :: hex 4 n) ?_
  rw [List.cons_append, escape?, if_pos rfl, unit?_hex (by omega)]
  simp only [Option.bind_eq_bind, Option.bind_some]
  rw [if_pos (by simp; omega)]
  rfl

/-- A character is read as itself, whether it is escaped or not. -/
theorem stringGo_char (e : Escapes) (c : Char) (rest : Bytes) :
    stringGo 0 (char e c ++ rest) = prepend (utf8EncodeChar c) (stringGo 0 rest) := by
  have hshort : ∀ b byte : UInt8, escape? (b :: rest) = some ([byte], 1) →
      stringGo 0 (0x5c :: b :: rest) = prepend [byte] (stringGo 0 rest) := by
    intro b byte h
    exact stringGo_escape [b] h
  unfold char
  split
  · exact hshort 0x22 0x22 rfl
  · exact hshort 0x5c 0x5c rfl
  · exact hshort 0x6e 0x0a rfl
  · exact hshort 0x72 0x0d rfl
  · exact hshort 0x74 0x09 rfl
  · rename_i hquote hslash _ _ _
    dsimp only
    have hnumeric : c.toNat < 0xd800 ∨ 0xdfff < c.toNat ∧ c.toNat < 0x10000 →
        stringGo 0 (numericEscape c.toNat ++ rest) = prepend (utf8EncodeChar c) (stringGo 0 rest) := by
      intro h
      rw [stringGo_numericEscape h, Char.ofNat_toNat]
    -- any other character has a short escape, is escaped by its number or stands for itself
    split_ifs with hb hf hcontrol hmarkup
    · have hc : c.toNat = 0x08 := by simp_all
      rw [← Char.ofNat_toNat c, hc]
      exact hshort 0x62 0x08 rfl
    · have hc : c.toNat = 0x0c := by simp_all
      rw [← Char.ofNat_toNat c, hc]
      exact hshort 0x66 0x0c rfl
    · refine hnumeric ?_
      simp only [Bool.or_eq_true, decide_eq_true_eq] at hcontrol
      omega
    · refine hnumeric (.inl ?_)
      simp only [Bool.and_eq_true, Bool.or_eq_true, decide_eq_true_eq] at hmarkup
      obtain ⟨-, (rfl | rfl) | rfl⟩ := hmarkup <;> decide
    · refine stringGo_plain (all_isPlain_utf8EncodeChar ?_ hquote hslash) rest
      simp only [Bool.or_eq_true, decide_eq_true_eq] at hcontrol
      omega

/-- **Strings** read back, with the replacement character in place of stray bytes. -/
theorem stringGo_pieces (e : Escapes) (s rest : Bytes) :
    stringGo 0 ((Utf8.pieces s).flatMap (piece e) ++ 0x22 :: rest) = some (Utf8.repair s, rest) := by
  unfold Utf8.repair
  induction Utf8.pieces s with
  | nil => rfl
  | cons p ps ih =>
    have hpiece : ∀ rest, stringGo 0 (piece e p ++ rest) = prepend p.repair (stringGo 0 rest) := by
      intro rest
      cases p with
      | char c => exact stringGo_char e c rest
      | stray b => exact stringGo_numericEscape (.inr (by omega)) rest
    rw [List.flatMap_cons, List.append_assoc, hpiece, ih]
    rfl

theorem string_append (e : Escapes) (s rest : Bytes) :
    string e s ++ rest = 0x22 :: ((Utf8.pieces s).flatMap (piece e) ++ 0x22 :: rest) := by
  rw [string, List.append_assoc, List.append_assoc]
  rfl

theorem string?_string (e : Escapes) (s rest : Bytes) :
    string? (string e s ++ rest) = some (Utf8.repair s, rest) := by
  rw [string_append, string?, if_pos rfl, stringGo_pieces]

/-! ### Words and numbers -/

theorem natural?_decimal (n : Nat) (hrest : rest.head?.any isDigit = false) :
    natural? (decimal n ++ rest) = some (n, rest) := by
  have hzero : ((decimal n).head? = some 0x30 && 1 < (decimal n).length) = false := by
    rcases Nat.eq_zero_or_pos n with rfl | hn
    · rfl
    · simp [head?_decimal_ne hn]
  obtain ⟨htake, hdrop⟩ := takeWhile_decimal_append n hrest
  rw [natural?, htake, hdrop, digitsValue_decimal]
  simp [hzero, decimal_ne_nil]

theorem number?_integer (i : Int) (hrest : rest.head?.any isDigit = false) :
    number? (integer i ++ rest) = some (i, rest) := by
  have hread := natural?_decimal i.natAbs hrest
  rw [integer]
  split_ifs with hi
  · have hminus : lit "-" ++ decimal i.natAbs ++ rest = 0x2d :: (decimal i.natAbs ++ rest) := rfl
    rw [hminus, number?, if_pos rfl, hread]
    exact congrArg (fun k => some (k, rest)) (Int.eq_neg_natAbs_of_nonpos (Int.le_of_lt hi)).symm
  · obtain ⟨b, digits, hdigits⟩ := List.exists_cons_of_ne_nil (decimal_ne_nil i.natAbs)
    have hb : b ≠ 0x2d := by
      rintro rfl
      exact not_mem_decimal rfl i.natAbs (hdigits ▸ List.mem_cons_self)
    rw [hdigits, List.cons_append] at hread ⊢
    rw [number?, if_neg hb, hread]
    exact congrArg (fun k => some (k, rest)) (Int.natAbs_of_nonneg (Int.not_lt.mp hi))

/-- A number starts with a digit or a minus sign, and with nothing else. -/
theorem exists_integer (i : Int) :
    ∃ b digits, integer i = b :: digits ∧ ∀ x, isDigit x = false → x ≠ 0x2d → b ≠ x := by
  rw [integer]
  split_ifs with hi
  · exact ⟨0x2d, decimal i.natAbs, rfl, fun x _ hx => hx.symm⟩
  · obtain ⟨b, digits, hdigits⟩ := List.exists_cons_of_ne_nil (decimal_ne_nil i.natAbs)
    refine ⟨b, digits, hdigits, ?_⟩
    rintro x hx - rfl
    exact not_mem_decimal hx i.natAbs (hdigits ▸ List.mem_cons_self)

theorem isBlank_integer {b : UInt8} (hb : ∀ x, isDigit x = false → x ≠ 0x2d → b ≠ x) : isBlank b = false := by
  simp only [isBlank, Bool.or_eq_false_iff, decide_eq_false_iff_not]
  exact ⟨⟨⟨hb _ rfl (by decide), hb _ rfl (by decide)⟩, hb _ rfl (by decide)⟩, hb _ rfl (by decide)⟩

theorem after?_cons_of_ne {x y : UInt8} (h : x ≠ y) (xs ys : Bytes) : after? (x :: xs) (y :: ys) = none := by
  simp [after?, List.isPrefixOf, h]

theorem scalar?_integer (i : Int) (hrest : rest.head?.any isDigit = false) :
    scalar? (integer i ++ rest) = some (.number i, rest) := by
  obtain ⟨b, digits, hi, hb⟩ := exists_integer i
  have hword : ∀ x xs, isDigit x = false → x ≠ 0x2d → after? (x :: xs) (integer i ++ rest) = none := by
    intro x xs hx hx'
    rw [hi, List.cons_append]
    exact after?_cons_of_ne (hb x hx hx').symm xs _
  have hnull : after? (lit "null") (integer i ++ rest) = none := hword 0x6e _ (by decide) (by decide)
  have htrue : after? (lit "true") (integer i ++ rest) = none := hword 0x74 _ (by decide) (by decide)
  have hfalse : after? (lit "false") (integer i ++ rest) = none := hword 0x66 _ (by decide) (by decide)
  rw [scalar?, hnull, htrue, hfalse, number?_integer i hrest]
  rfl

theorem scalar?_null (rest : Bytes) : scalar? (lit "null" ++ rest) = some (.null, rest) := by
  rw [scalar?, after?_append]
  rfl

theorem scalar?_bool (b : Bool) (rest : Bytes) :
    scalar? ((if b then lit "true" else lit "false") ++ rest) = some (.bool b, rest) := by
  have hword : ∀ x y xs ys, x ≠ y → after? (x :: xs) (y :: ys ++ rest) = none := fun x y xs ys h =>
    after?_cons_of_ne h xs (ys ++ rest)
  cases b with
  | false =>
    have hnull : after? (lit "null") (lit "false" ++ rest) = none := hword 0x6e 0x66 _ _ (by decide)
    have htrue : after? (lit "true") (lit "false" ++ rest) = none := hword 0x74 0x66 _ _ (by decide)
    rw [if_neg Bool.false_ne_true, scalar?, hnull, htrue, after?_append]
    rfl
  | true =>
    have hnull : after? (lit "null") (lit "true" ++ rest) = none := hword 0x6e 0x74 _ _ (by decide)
    rw [if_pos rfl, scalar?, hnull, after?_append]
    rfl

/-! ### Sequences -/

section Sequences

variable {α β : Type} {close : UInt8} {item : Bytes → Option (β × Bytes)} {text : α → Bytes} {out : α → β}
variable {sep last : Bytes} {fuel : Nat}

/-- A text is read, whatever follows it that is not a digit. -/
def Reads (item : Bytes → Option (β × Bytes)) (text : Bytes) (b : β) : Prop :=
  ∀ rest : Bytes, rest.head?.any isDigit = false → item (text ++ rest) = some (b, rest)

/-- What the items behind the first one look like, with what closes the sequence. -/
def following (close : UInt8) (text : α → Bytes) (sep last : Bytes) (as : List α) (tail : Bytes) : Bytes :=
  as.flatMap (fun a => lit "," ++ sep ++ text a) ++ (last ++ close :: tail)

theorem following_cons (a : α) (as : List α) (tail : Bytes) :
    following close text sep last (a :: as) tail =
      0x2c :: (sep ++ (text a ++ following close text sep last as tail)) := by
  simp only [following, List.flatMap_cons, List.append_assoc]
  rfl

theorem head?_following (text : α → Bytes) (sep : Bytes) (hclose : isDigit close = false)
    (hlast : last.all isBlank = true) (as : List α) (tail : Bytes) :
    (following close text sep last as tail).head?.any isDigit = false := by
  cases as with
  | cons a as =>
    rw [following_cons]
    rfl
  | nil => exact head?_append_of_all_isBlank hlast (close :: tail) hclose

/-- What there is to know about closing brackets. -/
theorem closing_spec (h : close = 0x5d ∨ close = 0x7d) :
    isBlank close = false ∧ 0x2c ≠ close ∧ isDigit close = false := by
  rcases h with rfl | rfl <;> decide

/-- A bracket around items leaves room for their number and for the length of each. -/
theorem lengths_lt {a : α} {as : List α} {b : UInt8} {tail : Bytes}
    (h : (b :: (sep ++ (text a ++ following close text sep last as tail))).length ≤ fuel) :
    as.length < fuel ∧ ∀ x ∈ a :: as, (text x).length < fuel := by
  have hcount : as.length ≤ (following close text sep last as tail).length := by
    clear h
    induction as with
    | nil => exact Nat.zero_le _
    | cons a as ih =>
      simp only [following_cons, List.length_cons, List.length_append]
      omega
  have hitem : ∀ x ∈ as, (text x).length ≤ (following close text sep last as tail).length := by
    clear h hcount
    intro x hx
    obtain ⟨front, back, rfl⟩ := List.append_of_mem hx
    simp only [following, List.flatMap_append, List.flatMap_cons, List.length_append]
    omega
  simp only [List.length_cons, List.length_append] at h
  refine ⟨by omega, List.forall_mem_cons.mpr ⟨by omega, ?_⟩⟩
  intro x hx
  have hle := hitem x hx
  omega

theorem items?_following (hclose : close = 0x5d ∨ close = 0x7d) (hlast : last.all isBlank = true)
    (hsep : ∀ bs, item (sep ++ bs) = item bs) (tail : Bytes) {as : List α}
    (hread : ∀ a ∈ as, Reads item (text a) (out a)) (hfuel : as.length < fuel) :
    items? close item fuel (following close text sep last as tail) = some (as.map out, tail) := by
  obtain ⟨hblank, hcomma, hdigit⟩ := closing_spec hclose
  induction as generalizing fuel with
  | nil =>
    obtain ⟨fuel, rfl⟩ := Nat.exists_eq_succ_of_ne_zero (Nat.ne_of_gt hfuel)
    rw [items?, following, List.flatMap_nil, List.nil_append, skip_append hlast, skip_cons hblank]
    exact if_pos rfl
  | cons a as ih =>
    obtain ⟨fuel, rfl⟩ := Nat.exists_eq_succ_of_ne_zero (Nat.ne_of_gt (Nat.zero_lt_of_lt hfuel))
    have ha := hread a List.mem_cons_self _ (head?_following text sep hdigit hlast as tail)
    have hrest := ih (fun a ha => hread a (List.mem_cons_of_mem _ ha)) (Nat.lt_of_succ_lt_succ hfuel)
    rw [items?, following_cons, skip_cons (by decide)]
    simp only [if_neg hcomma, if_true, hsep, ha, Option.bind_some, hrest, Option.map_some, List.map_cons]

theorem sequence?_following (hclose : close = 0x5d ∨ close = 0x7d) (hsep : sep.all isBlank = true)
    (hlast : last.all isBlank = true) (hskip : ∀ bs, item (sep ++ bs) = item bs) (tail : Bytes) {a : α}
    {as : List α} (hopen : (text a).head?.any (fun b => !isBlank b && b ≠ close) = true)
    (hread : ∀ x ∈ a :: as, Reads item (text x) (out x)) (hfuel : as.length < fuel) :
    sequence? close item fuel (sep ++ (text a ++ following close text sep last as tail)) =
      some ((a :: as).map out, tail) := by
  obtain ⟨-, -, hdigit⟩ := closing_spec hclose
  have ha := (List.forall_mem_cons.mp hread).1 _ (head?_following text sep hdigit hlast as tail)
  have hrest := items?_following hclose hlast hskip tail (List.forall_mem_cons.mp hread).2 hfuel
  cases htext : text a with
  | nil =>
    rw [htext] at hopen
    exact absurd hopen Bool.false_ne_true
  | cons b bs =>
    rw [htext] at hopen ha
    obtain ⟨hb, hne⟩ : isBlank b = false ∧ b ≠ close := by simpa using hopen
    rw [sequence?, skip_append hsep, List.cons_append, skip_cons hb]
    rw [List.cons_append] at ha
    simp only [if_neg hne, ha, Option.bind_some, hrest, Option.map_some, List.map_cons]

end Sequences

end CrateAudit.Json
