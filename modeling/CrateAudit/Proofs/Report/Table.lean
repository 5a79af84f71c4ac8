import CrateAudit.Report.Table
import CrateAudit.Proofs.Bytes.Decimal
import Mathlib.Data.List.Forall2

/-!
# Reading tables

A table is read byte by byte. Between quotes every byte stands for itself, and a quote only if it is doubled;
outside quotes a comma ends a field and a line feed ends a record. The reader is strict: outside quotes it
refuses quotes and carriage returns inside a field, and behind a closing quote all that does not end the field.

What `Table.row` writes is read field by field (`read?_flatMap_row`), whatever the bytes of the fields are:
a field that is written without quotes holds no byte that the reader would take for something else.

Main result: `read?_write`, for the table of some results.
-/

namespace CrateAudit.Table

open Bytes

/-! ### The reader -/

/-- The byte around fields that could be misread. -/
def quote : UInt8 := 0x22

/-- The byte between two fields. -/
def comma : UInt8 := 0x2c

/-- Where a reader stands. -/
inductive Position where
  /-- in front of a field -/
  | start
  /-- inside a field without quotes -/
  | plain
  /-- between the quotes of a field -/
  | quoted
  /-- behind a quote that closes a field, unless another one follows -/
  | closed
  deriving DecidableEq

/-- What was read so far. -/
structure Reader where
  /-- the records that have ended -/
  records : List (List Bytes) := []
  /-- the fields of the open record that have ended -/
  fields : List Bytes := []
  /-- the open field -/
  current : Bytes := []
  position : Position := .start

namespace Reader

/-- A byte of the open field. -/
def take (s : Reader) (b : UInt8) (position : Position) : Reader :=
  { s with current := s.current ++ [b], position }

/-- The open field ends. -/
def endField (s : Reader) : Reader :=
  { s with fields := s.fields ++ [s.current], current := [], position := .start }

/-- The open field ends, and its record with it. -/
def endRecord (s : Reader) : Reader :=
  { s with records := s.records ++ [s.fields ++ [s.current]], fields := [], current := [], position := .start }

/-- A byte outside quotes that ends a field. -/
def separate? (s : Reader) (b : UInt8) : Option Reader :=
  if b = comma then some s.endField else if b = newline then some s.endRecord else none

/-- A byte outside quotes that is no quote. -/
def unquoted? (s : Reader) (b : UInt8) : Option Reader :=
  s.separate? b <|> if b = carriageReturn then none else some (s.take b .plain)

/-- Reads one byte. -/
def step (s : Reader) (b : UInt8) : Option Reader :=
  match s.position with
  | .start => if b = quote then some { s with position := .quoted } else s.unquoted? b
  | .plain => if b = quote then none else s.unquoted? b
  | .quoted => some (if b = quote then { s with position := .closed } else s.take b .quoted)
  | .closed => if b = quote then some (s.take b .quoted) else s.separate? b

/-- The records at the end of the text. The last line feed may be missing. -/
def finish (s : Reader) : Option (List (List Bytes)) :=
  if s.position = .quoted then none
  else if s.position = .start ∧ s.fields = [] then some s.records
  else some s.endRecord.records

end Reader

/-- Reads a table as records of fields. -/
def read? (text : Bytes) : Option (List (List Bytes)) := text.foldlM Reader.step {} >>= Reader.finish

/-! ### Reading a field -/

variable {s : Reader} {bs : Bytes}

/-- Quotes are doubled between quotes, so the reader stays there. -/
theorem foldlM_step_doubled (hs : s.position = .quoted) (bs : Bytes) :
    (bs.flatMap fun b => if b = 0x22 then [b, b] else [b]).foldlM Reader.step s =
      some { s with current := s.current ++ bs } := by
  induction bs generalizing s with
  | nil => simp
  | cons b bs ih =>
    have hb : (if b = 0x22 then [b, b] else [b]).foldlM Reader.step s = some (s.take b .quoted) := by
      split
      · rename_i hquote
        simp [Reader.step, hs, hquote, quote, Reader.take]
      · rename_i hquote
        simp [Reader.step, hs, hquote, quote]
    rw [List.flatMap_cons, List.foldlM_append, hb, Option.bind_eq_bind, Option.bind_some, ih rfl]
    simp [Reader.take, hs]

/-- A byte that need not stand between quotes. -/
def isPlain (b : UInt8) : Bool := !(b = newline || b = carriageReturn || b = 0x22 || b = 0x2c)

theorem step_isPlain {b : UInt8} (hb : isPlain b = true) (hs : s.position = .start ∨ s.position = .plain) :
    s.step b = some (s.take b .plain) := by
  simp only [isPlain, Bool.not_eq_true', Bool.or_eq_false_iff, decide_eq_false_iff_not] at hb
  obtain ⟨⟨⟨hnewline, hreturn⟩, hquote⟩, hcomma⟩ := hb
  have hunquoted : s.unquoted? b = some (s.take b .plain) := by
    simp [Reader.unquoted?, Reader.separate?, comma, hcomma, hnewline, hreturn]
  obtain hs | hs := hs <;> simp [Reader.step, hs, quote, hquote, hunquoted]

theorem foldlM_step_plain (hs : s.position = .start ∨ s.position = .plain) (hbs : bs.all isPlain = true) :
    bs.foldlM Reader.step s =
      some { s with current := s.current ++ bs, position := if bs = [] then s.position else .plain } := by
  induction bs generalizing s with
  | nil => simp
  | cons b bs ih =>
    rw [List.all_cons, Bool.and_eq_true] at hbs
    rw [List.foldlM_cons, step_isPlain hbs.1 hs, Option.bind_eq_bind, Option.bind_some, ih (.inr rfl) hbs.2]
    simp [Reader.take]

theorem all_isPlain_of_needsQuotes (h : needsQuotes bs = false) : bs.all isPlain = true := by
  simp only [needsQuotes, Bool.or_eq_false_iff] at h
  rw [List.all_eq_not_any_not, Bool.not_eq_true']
  simpa only [isPlain, Bool.not_not] using h.1.2

/-- A field is read up to its end, which may still go on if it is not quoted. -/
theorem exists_foldlM_field (hs : s.position = .start) (hcurrent : s.current = []) (bs : Bytes) :
    ∃ position, position ≠ .quoted ∧
      (field bs).foldlM Reader.step s = some { s with current := bs, position } := by
  unfold field
  split
  · refine ⟨.closed, by simp, ?_⟩
    have hquote : lit "\"" = [quote] := by decide
    have hopen : s.step quote = some { s with position := .quoted } := by simp [Reader.step, hs]
    rw [hquote, List.singleton_append, List.cons_append, List.foldlM_cons, hopen, Option.bind_eq_bind,
      Option.bind_some, List.foldlM_append, foldlM_step_doubled rfl]
    simp [Reader.step, hcurrent]
  · rename_i hquotes
    rw [foldlM_step_plain (.inl hs) (all_isPlain_of_needsQuotes (Bool.eq_false_iff.mpr hquotes)), hcurrent]
    refine ⟨if bs = [] then s.position else .plain, ?_, rfl⟩
    split <;> simp [hs]

/-- Outside quotes a comma ends the field. -/
theorem step_comma (hs : s.position ≠ .quoted) : s.step comma = some s.endField := by
  cases hposition : s.position with
  | quoted => exact absurd hposition hs
  | _ => simp [Reader.step, hposition, Reader.unquoted?, Reader.separate?, comma, quote]

/-- Outside quotes a line feed ends the record. -/
theorem step_newline (hs : s.position ≠ .quoted) : s.step newline = some s.endRecord := by
  cases hposition : s.position with
  | quoted => exact absurd hposition hs
  | _ => simp [Reader.step, hposition, Reader.unquoted?, Reader.separate?, comma, quote, newline]

/-! ### Reading records -/

variable {records rows : List (List Bytes)}

theorem row_singleton (bs : Bytes) : row [bs] = field bs ++ [newline] := by
  simp [row]

theorem row_cons_cons (bs next : Bytes) (rest : List Bytes) :
    row (bs :: next :: rest) = field bs ++ comma :: row (next :: rest) := by
  have hcomma : lit "," = [comma] := by decide
  simp [row, hcomma, List.intercalate_cons_cons]

/-- A row is read as a record, behind the fields that were read already. -/
theorem foldlM_step_row (bs : Bytes) (rest done : List Bytes) (records : List (List Bytes)) :
    (row (bs :: rest)).foldlM Reader.step { records, fields := done } =
      some { records := records ++ [done ++ bs :: rest] } := by
  induction rest generalizing bs done with
  | nil =>
    obtain ⟨position, hposition, hfield⟩ :=
      exists_foldlM_field (s := { records, fields := done }) rfl rfl bs
    rw [row_singleton, List.foldlM_append, hfield, Option.bind_eq_bind, Option.bind_some, List.foldlM_cons,
      step_newline hposition]
    simp [Reader.endRecord]
  | cons next rest ih =>
    obtain ⟨position, hposition, hfield⟩ :=
      exists_foldlM_field (s := { records, fields := done }) rfl rfl bs
    rw [row_cons_cons, List.foldlM_append, hfield, Option.bind_eq_bind, Option.bind_some, List.foldlM_cons,
      step_comma hposition, Option.bind_eq_bind, Option.bind_some]
    show (row (next :: rest)).foldlM Reader.step { records, fields := done ++ [bs] } = _
    rw [ih next (done ++ [bs])]
    simp

theorem foldlM_step_rows (h : [] ∉ rows) (records : List (List Bytes)) :
    (rows.flatMap row).foldlM Reader.step { records } = some { records := records ++ rows } := by
  induction rows generalizing records with
  | nil => simp
  | cons first rows ih =>
    rw [List.mem_cons, not_or] at h
    obtain ⟨bs, rest, rfl⟩ := List.exists_cons_of_ne_nil (Ne.symm h.1)
    rw [List.flatMap_cons, List.foldlM_append, foldlM_step_row, Option.bind_eq_bind, Option.bind_some, ih h.2]
    simp

/-- A table is its header and a row for each result. -/
theorem write_eq (results : List Result) :
    write results = (header :: results.map fields).flatMap row := by
  rw [write, List.flatMap_cons, List.flatMap_map]

/-- Rows are read as they were written, whatever their fields hold. -/
theorem read?_flatMap_row (h : [] ∉ rows) : read? (rows.flatMap row) = some rows := by
  rw [read?, foldlM_step_rows h [], Option.bind_eq_bind, Option.bind_some]
  simp [Reader.finish]

example : read? (lit "a,\"b\"\"\n,\"\nc\n") = some [[lit "a", lit "b\"\n,"], [lit "c"]] := by decide

/-- **Reading tables**. A table is read as the header and a record of six fields for each result, in order:
first its name, byte for byte, then its counts of high, medium and low diagnoses, which read back as these
numbers. -/
theorem read?_write (results : List Result) :
    ∃ records, read? (write results) =
        some ([lit "Package", lit "high", lit "mid", lit "low", lit "time", lit "memory"] :: records) ∧
      List.Forall₂ (fun r record => ∃ high mid low time memory,
          record = [r.id, high, mid, low, time, memory] ∧ toInt64? high = some r.counts.high ∧
            toInt64? mid = some r.counts.medium ∧ toInt64? low = some r.counts.low)
        results records := by
  have hne : [] ∉ header :: results.map fields := by
    rw [List.mem_cons, not_or, List.mem_map]
    refine ⟨by simp [header], ?_⟩
    rintro ⟨r, -, hr⟩
    exact absurd hr (List.cons_ne_nil _ _)
  refine ⟨results.map fields, by rw [write_eq, read?_flatMap_row hne, header], ?_⟩
  rw [List.forall₂_map_right_iff, List.forall₂_same]
  intro r _
  exact ⟨_, _, _, _, _, rfl, toInt64?_integer r.counts.high, toInt64?_integer r.counts.medium,
    toInt64?_integer r.counts.low⟩

end CrateAudit.Table
