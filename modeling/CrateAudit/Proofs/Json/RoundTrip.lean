import CrateAudit.Proofs.Json.Reading

/-!
# Documents read back

In every layout that puts nothing but white space between the parts, what is written reads back
(`read?_write_append`): a document reads as itself, with the replacement character in place of stray bytes
(`repair`). So a document without stray bytes reads as itself (`repair_eq_self`).

What holds of all parts of a text holds of the text (`write_of_parts`): it is UTF-8 (`isValid_write`), and it has no
line breaks if it is written on one line (`newline_not_mem_write`).
-/

namespace CrateAudit.Json

open Bytes
open Utf8 (isValid_append isValid_append_left isValid_lit isValid_flatMap)

variable {bs blanks : Bytes}

/-! ### Documents -/

/-- **Induction over documents**: the parts of an array or object come before it. -/
theorem induction {motive : Json → Prop} (null : motive .null) (bool : ∀ b, motive (.bool b))
    (number : ∀ i, motive (.number i)) (text : ∀ s, motive (.text s))
    (array : ∀ items, (∀ j ∈ items, motive j) → motive (.array items))
    (object : ∀ members, (∀ m ∈ members, motive m.2) → motive (.object members)) (j : Json) : motive j :=
  @Json.rec motive (fun items => ∀ j ∈ items, motive j) (fun members => ∀ m ∈ members, motive m.2)
    (fun m => motive m.2) null bool number text array object
    (List.forall_mem_nil _) (fun _ _ hj hrest => List.forall_mem_cons.mpr ⟨hj, hrest⟩)
    (List.forall_mem_nil _) (fun _ _ hm hrest => List.forall_mem_cons.mpr ⟨hm, hrest⟩)
    (fun _ _ hj => hj) j

mutual

/-- The document with the replacement character in place of every stray byte. -/
def repair : Json → Json
  | .null => .null
  | .bool b => .bool b
  | .number i => .number i
  | .text s => .text (Utf8.repair s)
  | .array items => .array (repairItems items)
  | .object members => .object (repairMembers members)

/-- The items of an array, repaired. -/
def repairItems : List Json → List Json
  | [] => []
  | item :: rest => repair item :: repairItems rest

/-- The members of an object, repaired. -/
def repairMembers : List (Bytes × Json) → List (Bytes × Json)
  | [] => []
  | (name, value) :: rest => (Utf8.repair name, repair value) :: repairMembers rest

end

theorem repair_array (items : List Json) : repair (.array items) = .array (items.map repair) := by
  rw [repair]
  congr 1
  induction items with
  | nil => rfl
  | cons item items ih => rw [repairItems, ih, List.map_cons]

theorem repair_object (members : List (Bytes × Json)) :
    repair (.object members) = .object (members.map fun m => (Utf8.repair m.1, repair m.2)) := by
  rw [repair]
  congr 1
  induction members with
  | nil => rfl
  | cons m members ih => rw [repairMembers, ih, List.map_cons]

/-- A layout that puts nothing but white space between the parts of a document. -/
structure Layout.IsSpacing (l : Layout) : Prop where
  item : ∀ depth, (l.item depth).all isBlank = true
  close : ∀ depth, (l.close depth).all isBlank = true
  colon : ∃ blanks, l.colon = lit ":" ++ blanks ∧ blanks.all isBlank = true

theorem isSpacing_indented (e : Escapes) : (indented e).IsSpacing where
  item depth := by simp [indented, isBlank, newline]
  close depth := by simp [indented, isBlank, newline]
  colon := ⟨[0x20], rfl, rfl⟩

theorem isSpacing_oneLine (e : Escapes) : (oneLine e).IsSpacing where
  item _ := rfl
  close _ := rfl
  colon := ⟨[], rfl, rfl⟩

/-- A member of an object. -/
def writeMember (l : Layout) (depth : Nat) (m : Bytes × Json) : Bytes :=
  string l.escapes m.1 ++ l.colon ++ write l (depth + 1) m.2

theorem writeItems_eq (l : Layout) (depth : Nat) (items : List Json) :
    writeItems l depth items = items.flatMap fun j => lit "," ++ l.item depth ++ write l (depth + 1) j := by
  induction items with
  | nil => rw [writeItems, List.flatMap_nil]
  | cons item items ih => rw [writeItems, ih, List.flatMap_cons]

theorem writeMembers_eq (l : Layout) (depth : Nat) (members : List (Bytes × Json)) :
    writeMembers l depth members =
      members.flatMap fun m => lit "," ++ l.item depth ++ writeMember l depth m := by
  induction members with
  | nil => rw [writeMembers, List.flatMap_nil]
  | cons m members ih =>
    obtain ⟨name, value⟩ := m
    rw [writeMembers, ih, List.flatMap_cons]
    simp only [writeMember, List.append_assoc]

theorem write_array_cons (l : Layout) (depth : Nat) (j : Json) (items : List Json) (rest : Bytes) :
    write l depth (.array (j :: items)) ++ rest =
      0x5b :: (l.item depth ++ (write l (depth + 1) j ++
        following 0x5d (write l (depth + 1)) (l.item depth) (l.close depth) items rest)) := by
  rw [write, writeItems_eq]
  simp only [following, List.append_assoc]
  rfl

theorem write_object_cons (l : Layout) (depth : Nat) (m : Bytes × Json) (members : List (Bytes × Json))
    (rest : Bytes) :
    write l depth (.object (m :: members)) ++ rest =
      0x7b :: (l.item depth ++ (writeMember l depth m ++
        following 0x7d (writeMember l depth) (l.item depth) (l.close depth) members rest)) := by
  obtain ⟨name, value⟩ := m
  rw [write, writeMembers_eq]
  simp only [writeMember, following, List.append_assoc]
  rfl

theorem head?_write (l : Layout) (depth : Nat) (j : Json) :
    (write l depth j).head?.any (fun b => !isBlank b && b ≠ 0x5d) = true := by
  fun_cases write l depth j
  case case4 i =>
    obtain ⟨b, digits, hi, hb⟩ := exists_integer i
    have hclose := hb 0x5d rfl (by decide)
    rw [hi]
    simp [isBlank_integer hb, hclose]
  all_goals rfl

theorem value?_append (h : blanks.all isBlank = true) (fuel : Nat) (bs : Bytes) :
    value? fuel (blanks ++ bs) = value? fuel bs := by
  cases fuel with
  | zero => rfl
  | succ fuel => rw [value?, value?, skip_append h]

theorem pair?_append (h : blanks.all isBlank = true) (value : Bytes → Option (Json × Bytes)) (bs : Bytes) :
    pair? value (blanks ++ bs) = pair? value bs := by
  rw [pair?, pair?, skip_append h]

section Documents

variable {l : Layout} {depth fuel : Nat} {j : Json}

theorem reads_member (hl : l.IsSpacing) {m : Bytes × Json}
    (hread : Reads (value? fuel) (write l (depth + 1) m.2) m.2.repair) :
    Reads (pair? (value? fuel)) (writeMember l depth m) (Utf8.repair m.1, m.2.repair) := by
  intro rest hrest
  obtain ⟨blanks, hcolon, hblanks⟩ := hl.colon
  rw [writeMember, List.append_assoc, List.append_assoc, pair?]
  have hname := string?_string l.escapes m.1 (l.colon ++ (write l (depth + 1) m.2 ++ rest))
  have hskip : ∀ rest, skip (string l.escapes m.1 ++ rest) = string l.escapes m.1 ++ rest := by
    intro rest
    rw [string_append, skip_cons rfl]
  have hvalue : ∀ bs, after? (lit ":") (skip (l.colon ++ bs)) = some (blanks ++ bs) := by
    intro bs
    rw [hcolon, List.append_assoc]
    exact after?_append (lit ":") (blanks ++ bs)
  simp only [hskip, hname, hvalue, Option.bind_eq_bind, Option.bind_some, value?_append hblanks,
    hread rest hrest]
  rfl

theorem value?_succ_cons {b : UInt8} (hb : isBlank b = false) (fuel : Nat) (rest : Bytes) :
    value? (fuel + 1) (b :: rest) =
      if b = 0x22 then (stringGo 0 rest).map fun (s, rest) => (.text s, rest)
      else if b = 0x5b then
        (sequence? 0x5d (value? fuel) fuel rest).map fun (items, rest) => (.array items, rest)
      else if b = 0x7b then
        (sequence? 0x7d (pair? (value? fuel)) fuel rest).map fun (members, rest) => (.object members, rest)
      else scalar? (b :: rest) := by
  rw [value?, skip_cons hb]

/-- **Documents** read back, with the replacement character in place of stray bytes. -/
theorem reads_write (hl : l.IsSpacing) (j : Json) (depth fuel : Nat)
    (hfuel : (write l depth j).length ≤ fuel) : Reads (value? (fuel + 1)) (write l depth j) j.repair := by
  -- the text of a part is shorter than that of the whole, so the fuel lasts for the parts
  induction j using Json.induction generalizing depth fuel with
  | null =>
    intro rest _
    rw [write, repair, ← scalar?_null]
    exact value?_succ_cons rfl fuel _
  | bool b =>
    intro rest _
    rw [write, repair, ← scalar?_bool]
    cases b with
    | false => exact value?_succ_cons rfl fuel _
    | true => exact value?_succ_cons rfl fuel _
  | number i =>
    intro rest hrest
    have hread := scalar?_integer i hrest
    obtain ⟨b, digits, hi, hb⟩ := exists_integer i
    rw [write, repair]
    rw [hi, List.cons_append] at hread ⊢
    rw [value?_succ_cons (isBlank_integer hb), if_neg (hb _ rfl (by decide)), if_neg (hb _ rfl (by decide)),
      if_neg (hb _ rfl (by decide)), hread]
  | text s =>
    intro rest _
    rw [write, repair, string_append, value?_succ_cons rfl, if_pos rfl, stringGo_pieces, Option.map_some]
  | array items ih =>
    intro rest hrest
    rw [repair_array]
    cases items with
    | nil =>
      rw [write]
      exact value?_succ_cons rfl fuel _
    | cons j items =>
      rw [← List.append_nil (write l depth _), write_array_cons] at hfuel
      obtain ⟨hcount, hlength⟩ := lengths_lt hfuel
      obtain ⟨fuel, rfl⟩ := Nat.exists_eq_succ_of_ne_zero (Nat.ne_of_gt (Nat.zero_lt_of_lt hcount))
      have hread : ∀ x ∈ j :: items, Reads (value? (fuel + 1)) (write l (depth + 1) x) x.repair := by
        intro x hx
        exact ih x hx _ fuel (Nat.le_of_lt_succ (hlength x hx))
      rw [write_array_cons, value?_succ_cons rfl, if_neg (by decide), if_pos rfl,
        sequence?_following (.inl rfl) (hl.item depth) (hl.close depth) (value?_append (hl.item depth) _)
          rest (head?_write l (depth + 1) j) hread hcount, Option.map_some]
  | object members ih =>
    intro rest hrest
    rw [repair_object]
    cases members with
    | nil =>
      rw [write]
      exact value?_succ_cons rfl fuel _
    | cons m members =>
      rw [← List.append_nil (write l depth _), write_object_cons] at hfuel
      obtain ⟨hcount, hlength⟩ := lengths_lt hfuel
      obtain ⟨fuel, rfl⟩ := Nat.exists_eq_succ_of_ne_zero (Nat.ne_of_gt (Nat.zero_lt_of_lt hcount))
      have hread : ∀ x ∈ m :: members,
          Reads (pair? (value? (fuel + 1))) (writeMember l depth x) (Utf8.repair x.1, x.2.repair) := by
        intro x hx
        have hlt := hlength x hx
        rw [writeMember, List.length_append] at hlt
        exact reads_member hl (ih x hx _ fuel (by omega))
      rw [write_object_cons, value?_succ_cons rfl, if_neg (by decide), if_neg (by decide), if_pos rfl,
        sequence?_following (.inr rfl) (hl.item depth) (hl.close depth) (pair?_append (hl.item depth) _)
          rest rfl hread hcount, Option.map_some]

/-! ### Texts of documents are UTF-8 -/

theorem isValid_of_all_isBlank (h : bs.all isBlank = true) : Utf8.isValid bs = true := by
  refine Utf8.isValid_of_all ?_ h
  intro b hb
  simp only [isBlank, Bool.or_eq_true, decide_eq_true_eq] at hb
  obtain ((rfl | rfl) | rfl) | rfl := hb <;> decide

theorem isValid_integer (i : Int) : Utf8.isValid (integer i) = true := by
  have hdigits := Utf8.isValid_of_all_isDigit (all_isDigit_decimal i.natAbs)
  rw [integer]
  split_ifs
  · exact isValid_append (isValid_lit "-") hdigits
  · exact hdigits

theorem isValid_numericEscape (n : Nat) : Utf8.isValid (numericEscape n) = true := by
  have hdigit : ∀ d < 16, hexDigit d < 0x80 := by decide
  refine isValid_append (isValid_lit _) (Utf8.isValid_of_ascii ?_)
  rw [hex, List.all_map, List.all_eq_true]
  intro i _
  exact decide_eq_true (hdigit _ (Nat.mod_lt _ (by omega)))

theorem isValid_piece (e : Escapes) (p : Utf8.Piece) : Utf8.isValid (piece e p) = true := by
  cases p with
  | stray b => exact isValid_numericEscape _
  | char c =>
    rw [piece]
    fun_cases char e c
    all_goals first | exact isValid_lit _ | exact isValid_numericEscape _ | exact Utf8.isValid_char _

theorem isValid_string (e : Escapes) (s : Bytes) : Utf8.isValid (string e s) = true :=
  isValid_append
    (isValid_append (isValid_lit _) (isValid_flatMap fun p _ => isValid_piece e p))
    (isValid_lit _)

/-- The words and marks of documents. -/
def marks : List Bytes :=
  [[], lit "null", lit "true", lit "false", lit "[]", lit "[", lit ",", lit "]", lit "\x7b\x7d", lit "\x7b", lit "\x7d"]

/-- **What texts of documents are made of**: a property of texts that is kept when they are put together holds of the
text of a document, if it holds of its parts. -/
theorem write_of_parts {P : Bytes → Prop} (happend : ∀ {a b}, P a → P b → P (a ++ b)) (hmarks : ∀ m ∈ marks, P m)
    (hinteger : ∀ i, P (integer i)) (hstring : ∀ s, P (string l.escapes s)) (hitem : ∀ depth, P (l.item depth))
    (hclose : ∀ depth, P (l.close depth)) (hcolon : P l.colon) (j : Json) (depth : Nat) : P (write l depth j) := by
  have hflatMap {α : Type} (text : α → Bytes) (as : List α) (h : ∀ a ∈ as, P (text a)) : P (as.flatMap text) := by
    induction as with
    | nil => exact hmarks _ (by simp [marks])
    | cons a as ih =>
      obtain ⟨ha, has⟩ := List.forall_mem_cons.mp h
      exact happend ha (ih has)
  have hcomma (depth : Nat) : P (lit "," ++ l.item depth) := happend (hmarks _ (by simp [marks])) (hitem depth)
  induction j using Json.induction generalizing depth with
  | null =>
    rw [write]
    exact hmarks _ (by simp [marks])
  | bool b =>
    rw [write]
    split
    · exact hmarks _ (by simp [marks])
    · exact hmarks _ (by simp [marks])
  | number i =>
    rw [write]
    exact hinteger i
  | text s =>
    rw [write]
    exact hstring s
  | array items ih =>
    cases items with
    | nil =>
      rw [write]
      exact hmarks _ (by simp [marks])
    | cons j items =>
      obtain ⟨hj, hitems⟩ := List.forall_mem_cons.mp ih
      have hrest : P (writeItems l depth items) := by
        rw [writeItems_eq]
        exact hflatMap _ items fun x hx => happend (hcomma depth) (hitems x hx _)
      rw [write]
      exact happend (happend (happend (happend (happend (hmarks _ (by simp [marks])) (hitem _)) (hj _)) hrest)
        (hclose _)) (hmarks _ (by simp [marks]))
  | object members ih =>
    cases members with
    | nil =>
      rw [write]
      exact hmarks _ (by simp [marks])
    | cons m members =>
      obtain ⟨hm, hmembers⟩ := List.forall_mem_cons.mp ih
      have hrest : P (writeMembers l depth members) := by
        rw [writeMembers_eq]
        exact hflatMap _ members fun x hx =>
          happend (hcomma depth) (happend (happend (hstring _) hcolon) (hmembers x hx _))
      obtain ⟨name, value⟩ := m
      rw [write]
      exact happend (happend (happend (happend (happend (happend (happend (hmarks _ (by simp [marks])) (hitem _))
        (hstring _)) hcolon) (hm _)) hrest) (hclose _)) (hmarks _ (by simp [marks]))

theorem isValid_write (hl : l.IsSpacing) (j : Json) (depth : Nat) :
    Utf8.isValid (write l depth j) = true := by
  have hcolon : Utf8.isValid l.colon = true := by
    obtain ⟨blanks, hcolon, hblanks⟩ := hl.colon
    rw [hcolon]
    exact isValid_append (isValid_lit _) (isValid_of_all_isBlank hblanks)
  have hnil : Utf8.isValid [] = true := rfl
  have hmarks : ∀ m ∈ marks, Utf8.isValid m = true := by simp [marks, isValid_lit, hnil]
  exact write_of_parts isValid_append hmarks isValid_integer (isValid_string l.escapes)
    (fun depth => isValid_of_all_isBlank (hl.item depth)) (fun depth => isValid_of_all_isBlank (hl.close depth)) hcolon
    j depth

/-- **Round trip**: in a layout of white space, a document reads back as itself, with the replacement
character in place of stray bytes. -/
theorem read?_write_append (hl : l.IsSpacing) (j : Json) (depth : Nat) {tail : Bytes}
    (htail : tail.all isBlank = true) : read? (write l depth j ++ tail) = some j.repair := by
  have hvalid := isValid_append (isValid_write hl j depth) (isValid_of_all_isBlank htail)
  have hhead := head?_append_of_all_isBlank htail [] rfl
  rw [List.append_nil] at hhead
  have hskip := skip_append htail []
  rw [List.append_nil] at hskip
  have hfuel : (write l depth j).length ≤ (write l depth j ++ tail).length := by
    rw [List.length_append]
    omega
  rw [read?, if_pos hvalid, reads_write hl j depth _ hfuel tail hhead, Option.bind_some]
  show (if (skip tail).isEmpty then some j.repair else none) = some j.repair
  rw [hskip]
  rfl

-- the reader knows more than the layouts write, and refuses what is not JSON
example : read? (lit "\t[-20 ,\"\\u00e9\\ud83d\\ude00\"]\n") =
    some (.array [.number (-20), .text (lit "é😀")]) := by
  cbv

example : read? (lit "[1,]") = none ∧ read? (lit "[01]") = none ∧ read? (lit "\"\\ud83d\"") = none := by cbv

/-- A document without stray bytes. -/
inductive IsUtf8 : Json → Prop
  | null : IsUtf8 .null
  | bool (b : Bool) : IsUtf8 (.bool b)
  | number (i : Int) : IsUtf8 (.number i)
  | text {s : Bytes} (h : Utf8.isValid s = true) : IsUtf8 (.text s)
  | array {items : List Json} (h : ∀ j ∈ items, IsUtf8 j) : IsUtf8 (.array items)
  | object {members : List (Bytes × Json)} (hname : ∀ m ∈ members, Utf8.isValid m.1 = true)
    (hvalue : ∀ m ∈ members, IsUtf8 m.2) : IsUtf8 (.object members)

@[simp]
theorem isUtf8_number (i : Int) : (Json.number i).IsUtf8 := .number i

@[simp]
theorem isUtf8_text_iff {s : Bytes} : (Json.text s).IsUtf8 ↔ Utf8.isValid s = true :=
  ⟨fun h => by cases h; assumption, .text⟩

@[simp]
theorem isUtf8_array_iff {items : List Json} : (Json.array items).IsUtf8 ↔ ∀ j ∈ items, j.IsUtf8 :=
  ⟨fun h => by cases h; assumption, .array⟩

@[simp]
theorem isUtf8_object_iff {members : List (Bytes × Json)} :
    (Json.object members).IsUtf8 ↔ ∀ m ∈ members, Utf8.isValid m.1 = true ∧ m.2.IsUtf8 := by
  constructor
  · rintro (_ | _ | _ | _ | _ | ⟨hname, hvalue⟩) m hm
    exact ⟨hname m hm, hvalue m hm⟩
  · intro h
    exact .object (fun m hm => (h m hm).1) (fun m hm => (h m hm).2)

/-- Nothing is to be repaired in a document without stray bytes. -/
theorem repair_eq_self (h : j.IsUtf8) : j.repair = j := by
  induction h with
  | null => rfl
  | bool b => rfl
  | number i => rfl
  | text h => rw [repair, Utf8.repair_eq_self h]
  | array h ih => rw [repair_array, List.map_congr_left ih, List.map_id']
  | object hname hvalue ih =>
    rw [repair_object, List.map_congr_left (g := id), List.map_id]
    intro m hm
    rw [Utf8.repair_eq_self (hname m hm), ih m hm]
    rfl

/-! ### Documents on one line -/

theorem newline_not_mem_numericEscape (n : Nat) : newline ∉ numericEscape n := by
  have hdigit : ∀ d < 16, newline ≠ hexDigit d := by decide
  rw [numericEscape, hex, List.mem_append, List.mem_map]
  rintro (h | ⟨i, -, hi⟩)
  · exact absurd h (by decide)
  · exact hdigit _ (Nat.mod_lt _ (by omega)) hi.symm

theorem newline_not_mem_char (e : Escapes) (c : Char) : newline ∉ char e c := by
  unfold char
  split
  case h_6 hquote hslash _ _ _ =>
    dsimp only
    split_ifs with hb hf hcontrol
    · decide
    · decide
    · exact newline_not_mem_numericEscape _
    · exact newline_not_mem_numericEscape _
    · simp only [Bool.or_eq_true, decide_eq_true_eq] at hcontrol
      have hplain := all_isPlain_utf8EncodeChar (c := c) (by omega) hquote hslash
      exact fun h => absurd (List.all_eq_true.mp hplain newline h) (by decide)
  all_goals decide

theorem newline_not_mem_string (e : Escapes) (s : Bytes) : newline ∉ string e s := by
  rw [string, List.mem_append, List.mem_append, List.mem_flatMap]
  rintro ((h | ⟨p, -, hp⟩) | h)
  · exact absurd h (by decide)
  · cases p with
    | char c => exact newline_not_mem_char e c hp
    | stray b => exact newline_not_mem_numericEscape _ hp
  · exact absurd h (by decide)

/-- A document on one line has no line break. -/
theorem newline_not_mem_write (e : Escapes) (j : Json) (depth : Nat) : newline ∉ write (oneLine e) depth j := by
  have happend : ∀ {a b : Bytes}, newline ∉ a → newline ∉ b → newline ∉ a ++ b :=
    fun ha hb h => (List.mem_append.mp h).elim ha hb
  have hmarks : ∀ m ∈ marks, newline ∉ m := by decide
  have hinteger : ∀ i, newline ∉ integer i := not_mem_integer (by decide) (by decide)
  have hstring : ∀ s, newline ∉ string (oneLine e).escapes s := newline_not_mem_string e
  have hitem : ∀ depth, newline ∉ (oneLine e).item depth := fun _ => List.not_mem_nil
  have hclose : ∀ depth, newline ∉ (oneLine e).close depth := fun _ => List.not_mem_nil
  have hcolon : newline ∉ (oneLine e).colon := show newline ∉ lit ":" by decide
  exact write_of_parts (P := fun bs => newline ∉ bs) happend hmarks hinteger hstring hitem hclose hcolon j depth

end Documents

end CrateAudit.Json
