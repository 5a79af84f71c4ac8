import CrateAudit.Proofs.Bytes.Trim
import CrateAudit.Proofs.Job
import Mathlib.Data.List.Duplicate
import Mathlib.Data.List.NodupEquivFin

/-!
# What a list file comes to

The lines of a list file hold one name each, which may be empty (`Listing`). What reading it comes to is told by
these names alone, without a reader (`Verdict`): the first line that does not fit into the buffer, or the first
name that stood in an earlier line, whichever comes first; otherwise that there is no name, or the jobs of all the
names.

Main result: `readList_listing`. A line has to fit into the buffer with the carriage return at its end, although that
is no part of its text (`readList_carriageReturn`).
-/

namespace CrateAudit.Job

open Bytes

variable {dir text : Bytes} {ls ids ids' : List Bytes} {m n : ℕ} {id : Bytes} {r r' : Except Fault (List Job)}

/-! ### Lines and names -/

/-- The lines of a list file, and the names that they hold. -/
structure Listing (text : Bytes) (ls ids : List Bytes) : Prop where
  cut : Cut text ls
  names : List.Forall₂ (fun l id => Trims (dropCarriageReturn l) id) ls ids

theorem listing_iff :
    Listing text ls ids ↔ ls = lines text ∧ ids = ls.map fun l => trim (dropCarriageReturn l) := by
  have hnames : List.Forall₂ (fun l id => Trims (dropCarriageReturn l) id) ls ids ↔
      ids = ls.map fun l => trim (dropCarriageReturn l) := by
    simp only [← trim_eq_iff]
    rw [← List.forall₂_map_left_iff (R := Eq), List.forall₂_eq_eq_eq, eq_comm]
  constructor
  · rintro ⟨hcut, hforall⟩
    exact ⟨(lines_eq_iff.mpr hcut).symm, hnames.mp hforall⟩
  · rintro ⟨hls, hids⟩
    exact ⟨lines_eq_iff.mp hls.symm, hnames.mpr hids⟩

/-- The names that are not empty. -/
def named (ids : List Bytes) : List Bytes := ids.filter (!·.isEmpty)

theorem named_append (ids ids' : List Bytes) : named (ids ++ ids') = named ids ++ named ids' := List.filter_append ..

theorem mem_named_iff : id ∈ named ids ↔ id ∈ ids ∧ id ≠ [] := by
  simp [named]

/-- The name of a line stands in an earlier line, and is the first to do so. Lines are counted from zero. -/
structure Repeats (ids : List Bytes) (m n : ℕ) (id : Bytes) : Prop where
  lt : m < n
  first : ids[m]? = some id
  second : ids[n]? = some id
  ne_nil : id ≠ []
  nodup : (named (ids.take n)).Nodup

/-- What comes of reading a list file below a directory. -/
inductive Verdict (dir : Bytes) (ls ids : List Bytes) : Except Fault (List Job) → Prop
  | tooLong {n : ℕ} {l : Bytes} (hl : ls[n]? = some l) (hlong : 65536 ≤ l.length)
      (hfit : ∀ l ∈ ls.take n, l.length < 65536) (hnew : (named (ids.take n)).Nodup) :
      Verdict dir ls ids (.error (.during (lit "reading job list") .lineTooLong))
  | repeated {m n : ℕ} {id : Bytes} (hrepeats : Repeats ids m n id)
      (hfit : ∀ l ∈ ls.take (n + 1), l.length < 65536) :
      Verdict dir ls ids (.error (.duplicateJob (n + 1) id (m + 1)))
  | empty (hempty : named ids = []) (hfit : ∀ l ∈ ls, l.length < 65536) : Verdict dir ls ids (.error .noJobs)
  | jobs (hne : named ids ≠ []) (hnew : (named ids).Nodup) (hfit : ∀ l ∈ ls, l.length < 65536) :
      Verdict dir ls ids (.ok ((named ids).map (below dir)))

/-! ### Only one thing can come of it -/

/-- A name that stands in two lines is there twice. -/
theorem not_nodup_of_getElem? {k : ℕ} (hlt : m < n) (hnk : n < k) (hm : ids[m]? = some id) (hn : ids[n]? = some id)
    (hne : id ≠ []) : ¬ (named (ids.take k)).Nodup := by
  have hm' : (ids.take k)[m]? = some id := by rwa [List.getElem?_take_of_lt (hlt.trans hnk)]
  have hn' : (ids.take k)[n]? = some id := by rwa [List.getElem?_take_of_lt hnk]
  obtain ⟨hm, hid⟩ := List.getElem?_eq_some_iff.mp hm'
  obtain ⟨hn, hid'⟩ := List.getElem?_eq_some_iff.mp hn'
  have htwice : [id, id].Sublist (ids.take k) :=
    List.duplicate_iff_sublist.mp
      (List.duplicate_iff_exists_distinct_get.mpr ⟨⟨m, hm⟩, ⟨n, hn⟩, hlt, hid.symm, hid'.symm⟩)
  have hnamed : named [id, id] = [id, id] := by simp [named, hne]
  intro hnodup
  refine List.nodup_iff_sublist.mp hnodup id ?_
  rw [← hnamed]
  exact htwice.filter _

theorem Repeats.not_nodup (h : Repeats ids m n id) : ¬ (named ids).Nodup := by
  have hlt : n < ids.length := (List.getElem?_eq_some_iff.mp h.second).1
  have hnot := not_nodup_of_getElem? h.lt hlt h.first h.second h.ne_nil
  rwa [List.take_length] at hnot

/-- The first line with a name that stood before is the only one, and so is the line it stood in. -/
theorem Repeats.eq {m' n' : ℕ} {id' : Bytes} (h : Repeats ids m n id) (h' : Repeats ids m' n' id') :
    m = m' ∧ n = n' ∧ id = id' := by
  obtain hlt | rfl | hgt := Nat.lt_trichotomy n n'
  · exact absurd h'.nodup (not_nodup_of_getElem? h.lt hlt h.first h.second h.ne_nil)
  · obtain rfl : id = id' := Option.some.inj (h.second.symm.trans h'.second)
    obtain hlt | rfl | hgt := Nat.lt_trichotomy m m'
    · exact absurd h.nodup (not_nodup_of_getElem? hlt h'.lt h.first h'.first h.ne_nil)
    · exact ⟨rfl, rfl, rfl⟩
    · exact absurd h.nodup (not_nodup_of_getElem? hgt h.lt h'.first h.first h.ne_nil)
  · exact absurd h.nodup (not_nodup_of_getElem? h'.lt hgt h'.first h'.second h'.ne_nil)

theorem Repeats.le_of_tooLong {k : ℕ} {l : Bytes} (h : Repeats ids m n id)
    (hfit : ∀ l ∈ ls.take (n + 1), l.length < 65536) (hl : ls[k]? = some l) (hlong : 65536 ≤ l.length) :
    ¬ (named (ids.take k)).Nodup := by
  refine not_nodup_of_getElem? h.lt ?_ h.first h.second h.ne_nil
  by_contra hle
  have hmem : l ∈ ls.take (n + 1) := by
    refine List.mem_of_getElem? (i := k) ?_
    rwa [List.getElem?_take_of_lt (by omega)]
  exact absurd (hfit l hmem) (Nat.not_lt.mpr hlong)

theorem Verdict.eq (h : Verdict dir ls ids r) (h' : Verdict dir ls ids r') : r = r' := by
  have hshort : ∀ {k : ℕ} {l : Bytes}, ls[k]? = some l → 65536 ≤ l.length → ¬ ∀ l ∈ ls, l.length < 65536 :=
    fun hl hlong hfit => absurd (hfit _ (List.mem_of_getElem? hl)) (Nat.not_lt.mpr hlong)
  rcases h with ⟨hl, hlong, -, hnew⟩ | ⟨hrepeats, hfit⟩ | ⟨hempty, hfit⟩ | ⟨hne, hnew, hfit⟩ <;>
    rcases h' with ⟨hl', hlong', -, hnew'⟩ | ⟨hrepeats', hfit'⟩ | ⟨hempty', hfit'⟩ | ⟨hne', hnew', hfit'⟩
  · rfl
  · exact absurd hnew (hrepeats'.le_of_tooLong hfit' hl hlong)
  · exact absurd hfit' (hshort hl hlong)
  · exact absurd hfit' (hshort hl hlong)
  · exact absurd hnew' (hrepeats.le_of_tooLong hfit hl' hlong')
  · obtain ⟨rfl, rfl, rfl⟩ := hrepeats.eq hrepeats'
    rfl
  · exact absurd (hempty' ▸ List.nodup_nil) hrepeats.not_nodup
  · exact absurd hnew' hrepeats.not_nodup
  · exact absurd hfit (hshort hl' hlong')
  · exact absurd (hempty ▸ List.nodup_nil) hrepeats'.not_nodup
  · rfl
  · exact absurd hempty hne'
  · exact absurd hfit (hshort hl' hlong')
  · exact absurd hnew hrepeats'.not_nodup
  · exact absurd hempty' hne
  · rfl

/-! ### What the reading finds -/

/-- The names found in some lines, with the numbers of the lines, the last one first. -/
def found (ids : List Bytes) : List (Bytes × ℕ) := ((ids.zipIdx 1).filter (!·.1.isEmpty)).reverse

theorem found_concat (ids : List Bytes) (id : Bytes) :
    found (ids ++ [id]) = if id = [] then found ids else (id, ids.length + 1) :: found ids := by
  rw [found, List.zipIdx_append, List.filter_append, List.reverse_append, ← found]
  by_cases hid : id = []
  · simp [hid]
  · simp [hid, Nat.add_comm]

theorem map_fst_found (ids : List Bytes) : (found ids).map Prod.fst = (named ids).reverse := by
  induction ids using List.reverseRecOn with
  | nil => rfl
  | append_singleton ids id ih =>
    rw [found_concat, named_append, List.reverse_append]
    by_cases hid : id = []
    · simp [hid, named, ih]
    · simp [hid, named, ih]

theorem exists_of_mem_found (h : (id, n) ∈ found ids) : ∃ m, n = m + 1 ∧ ids[m]? = some id := by
  rw [found, List.mem_reverse, List.mem_filter, List.mk_mem_zipIdx_iff_le_and_getElem?_sub] at h
  exact ⟨n - 1, by omega, h.1.2⟩

theorem readLine_error (fault : Fault) (line : ListLine × ℕ) : readLine (.error fault) line = .error fault := by
  obtain ⟨_ | _, _⟩ := line <;> rfl

theorem readLine_line (seen : List (Bytes × ℕ)) (text : Bytes) (n : ℕ) :
    readLine (.ok seen) (.line text, n) =
      if trim text = [] then .ok seen
      else match seen.find? (·.1 = trim text) with
        | some (_, first) => .error (.duplicateJob n (trim text) first)
        | none => .ok ((trim text, n) :: seen) := by
  simp only [← List.isEmpty_iff]
  rfl

theorem Repeats.of_isPrefix (h : Repeats ids m n id) (hids : ids <+: ids') : Repeats ids' m n id := by
  obtain ⟨rest, rfl⟩ := hids
  have hlt : n < ids.length := (List.getElem?_eq_some_iff.mp h.second).1
  refine ⟨h.lt, ?_, ?_, h.ne_nil, ?_⟩
  · rw [List.getElem?_append_left (h.lt.trans hlt), h.first]
  · rw [List.getElem?_append_left hlt, h.second]
  · rw [List.take_append_of_le_length hlt.le]
    exact h.nodup

/-- **Reading lines** that all fit goes on as long as the names are new, and stops at the first that is not. -/
theorem foldl_readLine_cases (texts : List Bytes) :
    ((named (texts.map trim)).Nodup ∧
      ((texts.map ListLine.line).zipIdx 1).foldl readLine (.ok []) = .ok (found (texts.map trim))) ∨
    ∃ m n id, Repeats (texts.map trim) m n id ∧
      ((texts.map ListLine.line).zipIdx 1).foldl readLine (.ok []) = .error (.duplicateJob (n + 1) id (m + 1)) := by
  induction texts using List.reverseRecOn with
  | nil => exact .inl ⟨List.nodup_nil, rfl⟩
  | append_singleton texts text ih =>
    have hnext : ((texts ++ [text]).map ListLine.line).zipIdx 1 =
        (texts.map ListLine.line).zipIdx 1 ++ [(.line text, texts.length + 1)] := by
      simp [List.zipIdx_append, Nat.add_comm]
    have hnames : (texts ++ [text]).map trim = texts.map trim ++ [trim text] := by simp
    rw [hnext, List.foldl_append, hnames, List.foldl_cons, List.foldl_nil]
    obtain ⟨hnodup, hread⟩ | ⟨m, n, id, hrepeats, hread⟩ := ih
    · rw [hread, readLine_line, found_concat, named_append, List.length_map]
      by_cases hblank : trim text = []
      · refine .inl ⟨?_, by rw [if_pos hblank, if_pos hblank]⟩
        simpa [hblank, named] using hnodup
      · have hnamed : named [trim text] = [trim text] := by simp [named, hblank]
        rw [if_neg hblank, if_neg hblank, hnamed]
        cases hfind : (found (texts.map trim)).find? (·.1 = trim text) with
        | some entry =>
          -- the name stands in an earlier line
          obtain ⟨id, first⟩ := entry
          obtain rfl : id = trim text := by simpa using List.find?_some hfind
          obtain ⟨m, rfl, hm⟩ := exists_of_mem_found (List.mem_of_find?_eq_some hfind)
          have hlt : m < texts.length := by simpa using (List.getElem?_eq_some_iff.mp hm).1
          refine .inr ⟨m, texts.length, trim text, ⟨hlt, ?_, ?_, hblank, ?_⟩, rfl⟩
          · rw [List.getElem?_append_left (by simpa using hlt), hm]
          · rw [List.getElem?_append_right (by simp), List.length_map, Nat.sub_self, List.getElem?_cons_zero]
          · rwa [List.take_left' (List.length_map _)]
        | none =>
          have hnew : trim text ∉ named (texts.map trim) := by
            rw [← List.mem_reverse, ← map_fst_found]
            intro hmem
            obtain ⟨entry, hentry, heq⟩ := List.mem_map.mp hmem
            exact List.find?_eq_none.mp hfind entry hentry (decide_eq_true heq)
          exact .inl ⟨List.nodup_append.mpr ⟨hnodup, List.nodup_singleton _, by
            rintro name hname _ hsingle rfl
            exact hnew (List.mem_singleton.mp hsingle ▸ hname)⟩, rfl⟩
    · rw [hread, readLine_error]
      exact .inr ⟨m, n, id, hrepeats.of_isPrefix (List.prefix_append _ _), rfl⟩

/-! ### Whole list files -/

theorem readList_eq (dir text : Bytes) :
    readList dir text = match ((listLines text).zipIdx 1).foldl readLine (.ok []) with
      | .error fault => .error fault
      | .ok seen => if seen = [] then .error .noJobs else .ok (seen.reverse.map fun entry => below dir entry.1) := by
  rw [readList]
  cases ((listLines text).zipIdx 1).foldl readLine (.ok []) with
  | error fault => rfl
  | ok seen =>
    simp only [← List.isEmpty_iff]
    rfl

theorem map_below_found (dir : Bytes) (ids : List Bytes) :
    (found ids).reverse.map (fun entry => below dir entry.1) = (named ids).map (below dir) := by
  rw [← List.reverse_reverse (named ids), ← map_fst_found, ← List.map_reverse, List.map_map]
  rfl

theorem found_eq_nil_iff : found ids = [] ↔ named ids = [] := by
  rw [← List.map_eq_nil_iff (f := Prod.fst), map_fst_found, List.reverse_eq_nil_iff]

theorem verdict_of_fit (hlisting : Listing text ls ids) (hfit : ∀ l ∈ ls, l.length < 65536) :
    Verdict dir ls ids (readList dir text) := by
  obtain ⟨rfl, rfl⟩ := listing_iff.mp hlisting
  have hmap : ((lines text).map dropCarriageReturn).map trim =
      (lines text).map fun l => trim (dropCarriageReturn l) := List.map_map
  rw [readList_eq, listLines_eq_map hfit]
  have hcases := foldl_readLine_cases ((lines text).map dropCarriageReturn)
  rw [hmap] at hcases
  obtain ⟨hnodup, hread⟩ | ⟨m, n, id, hrepeats, hread⟩ := hcases
  · rw [hread]
    dsimp only
    by_cases hempty : named ((lines text).map fun l => trim (dropCarriageReturn l)) = []
    · rw [if_pos (found_eq_nil_iff.mpr hempty)]
      exact .empty hempty hfit
    · rw [if_neg (mt found_eq_nil_iff.mp hempty), map_below_found]
      exact .jobs hempty hnodup hfit
  · rw [hread]
    exact .repeated hrepeats fun l hl => hfit l (List.mem_of_mem_take hl)

theorem verdict_of_tooLong {front back : List Bytes} {l : Bytes} (hlisting : Listing text (front ++ l :: back) ids)
    (hfit : ∀ l ∈ front, l.length < 65536) (hlong : 65536 ≤ l.length) :
    Verdict dir (front ++ l :: back) ids (readList dir text) := by
  obtain ⟨hlines, rfl⟩ := listing_iff.mp hlisting
  -- reading stops at the line that does not fit: only those in front of it are looked at
  have hfront : (front ++ l :: back).takeWhile (·.length < bufferSize) = front := by
    have hstays : ∀ l ∈ front, decide (l.length < bufferSize) = true := fun l hl => decide_eq_true (hfit l hl)
    have hstops : ¬ l.length < bufferSize := Nat.not_lt.mpr hlong
    rw [List.takeWhile_append_of_pos hstays, List.takeWhile_cons_of_neg (by simp [hstops]), List.append_nil]
  have hlistLines : listLines text = (front.map dropCarriageReturn).map ListLine.line ++ [.tooLong] := by
    simp [listLines, ← hlines, hfront]
  have hstop : (listLines text).zipIdx 1 = ((front.map dropCarriageReturn).map ListLine.line).zipIdx 1 ++
      [(.tooLong, front.length + 1)] := by
    rw [hlistLines, List.zipIdx_append]
    simp [Nat.add_comm]
  have htake : ((front ++ l :: back).map fun l => trim (dropCarriageReturn l)).take front.length =
      (front.map dropCarriageReturn).map trim := by
    rw [List.map_append, List.take_left' (List.length_map _), List.map_map]
    rfl
  have hisPrefix : (front.map dropCarriageReturn).map trim <+:
      (front ++ l :: back).map fun l => trim (dropCarriageReturn l) := htake ▸ List.take_prefix _ _
  rw [readList_eq, hstop, List.foldl_append]
  obtain ⟨hnodup, hread⟩ | ⟨m, n, id, hrepeats, hread⟩ := foldl_readLine_cases (front.map dropCarriageReturn)
  · rw [hread]
    refine .tooLong (n := front.length) ?_ hlong ?_ (htake ▸ hnodup)
    · rw [List.getElem?_append_right (Nat.le_refl _), Nat.sub_self, List.getElem?_cons_zero]
    · rwa [List.take_left]
  · rw [hread, List.foldl_cons, readLine_error]
    refine .repeated (hrepeats.of_isPrefix hisPrefix) fun l' hl' => hfit l' ?_
    have hlt : n < front.length := by simpa using (List.getElem?_eq_some_iff.mp hrepeats.second).1
    rw [List.take_append_of_le_length hlt] at hl'
    exact List.mem_of_mem_take hl'

/-- Reading a list file comes to what its lines and names tell. -/
theorem readList_eq_iff (hlisting : Listing text ls ids) : readList dir text = r ↔ Verdict dir ls ids r := by
  have hverdict : Verdict dir ls ids (readList dir text) := by
    by_cases hfit : ∀ l ∈ ls, l.length < 65536
    · exact verdict_of_fit hlisting hfit
    · -- the first line that does not fit
      obtain ⟨front, l, back, rfl, hfront, hlong⟩ : ∃ front l back, ls = front ++ l :: back ∧
          (∀ l ∈ front, l.length < 65536) ∧ 65536 ≤ l.length := by
        simp only [not_forall, Nat.not_lt] at hfit
        obtain ⟨long, hmem, hlong⟩ := hfit
        have hfound : (ls.find? (65536 ≤ ·.length)).isSome = true :=
          List.find?_isSome.mpr ⟨long, hmem, decide_eq_true hlong⟩
        obtain ⟨l, hfind⟩ := Option.isSome_iff_exists.mp hfound
        obtain ⟨hl, front, back, hls, hfront⟩ := List.find?_eq_some_iff_append.mp hfind
        exact ⟨front, l, back, hls, fun l hl => by simpa using hfront l hl, of_decide_eq_true hl⟩
      exact verdict_of_tooLong hlisting hfront hlong
  exact ⟨fun heq => heq ▸ hverdict, hverdict.eq⟩

theorem Listing.exists_line (h : Listing text ls ids) (hid : id ∈ ids) :
    ∃ l ∈ ls, newline ∉ l ∧ Trims (dropCarriageReturn l) id := by
  obtain ⟨-, rfl⟩ := listing_iff.mp h
  obtain ⟨l, hl, rfl⟩ := List.mem_map.mp hid
  exact ⟨l, hl, h.cut.1 l hl, trim_eq_iff.mp rfl⟩

/-- A name is a part of its line, so there is no line feed in it. -/
theorem Listing.newline_not_mem (h : Listing text ls ids) (hid : id ∈ ids) : newline ∉ id := by
  obtain ⟨l, -, hfree, -, front, back, -, -, hline⟩ := h.exists_line hid
  intro hmem
  have hkept : dropCarriageReturn l ⊆ l := by
    rw [dropCarriageReturn]
    split
    · exact List.dropLast_subset l
    · exact List.Subset.refl l
  refine hfree (hkept ?_)
  rw [hline]
  exact List.mem_append_left _ (List.mem_append_right _ hmem)

/-- **List files**. A text is cut into lines, and the lines hold names, in one way only. What reading the text comes to
is what its lines and names tell; if there are jobs, their names are different, not empty, without white space around
them and without line feeds. -/
theorem readList_listing (dir text : Bytes) :
    ∃ ls ids, Listing text ls ids ∧ (∀ ls' ids', Listing text ls' ids' → ls' = ls ∧ ids' = ids) ∧
      (∀ r, readList dir text = r ↔ Verdict dir ls ids r) ∧
      ∀ jobs, readList dir text = .ok jobs →
        (jobs.map (·.id)).Nodup ∧ ∀ job ∈ jobs, job.id ≠ [] ∧ Bare job.id ∧ newline ∉ job.id := by
  have hlisting : Listing text _ _ := listing_iff.mpr ⟨rfl, rfl⟩
  refine ⟨_, _, hlisting, ?_, fun r => readList_eq_iff hlisting, ?_⟩
  · intro ls' ids' hlisting'
    obtain ⟨rfl, rfl⟩ := listing_iff.mp hlisting'
    exact ⟨rfl, rfl⟩
  · intro jobs hjobs
    obtain - | - | - | ⟨-, hnew, -⟩ := (readList_eq_iff hlisting).mp hjobs
    refine ⟨by simpa [List.map_map, Function.comp_def, below] using hnew, ?_⟩
    simp only [List.forall_mem_map]
    intro id hid
    obtain ⟨hmem, hfilled⟩ := mem_named_iff.mp hid
    obtain ⟨l, -, -, hbare, -⟩ := hlisting.exists_line hmem
    exact ⟨hfilled, hbare, hlisting.newline_not_mem hmem⟩

theorem bare_of_all_isDigit (h : id.all isDigit = true) : Bare id :=
  bare_of_spaceless (spaceless_nil.append_numeral (all_isNumeral_of_all_isDigit h))

/-- A number as the name of a crate, in a line that is closed by a carriage return and a line feed. -/
theorem listing_numbers (h : id.all isDigit = true) :
    Listing (id ++ lit "\r\n2") [id ++ [carriageReturn], lit "2"] [id, lit "2"] := by
  have hfree : newline ∉ id := by
    intro hmem
    have hdigit := List.all_eq_true.mp h newline hmem
    contradiction
  have hdrop : dropCarriageReturn (id ++ [carriageReturn]) = id := by simp [dropCarriageReturn]
  refine ⟨⟨?_, .inr ⟨[id ++ [carriageReturn]], lit "2", rfl, by decide, ?_⟩⟩, .cons ?_ (.cons ?_ .nil)⟩
  · rw [List.forall_mem_cons, List.forall_mem_singleton, List.mem_append, not_or]
    exact ⟨⟨hfree, by decide⟩, by decide⟩
  · rw [unlines, List.flatMap_singleton, List.append_assoc, List.append_assoc]
    rfl
  · rw [hdrop]
    exact trims_self (bare_of_all_isDigit h)
  · exact trims_self (bare_of_all_isDigit (by decide))

/-- The longest name that fits into a line without a carriage return. -/
def longName : Bytes := List.replicate 65535 0x31

/-- The carriage return counts: without it each line has less than 65536 bytes, and still the file is refused. -/
theorem readList_carriageReturn :
    ∃ ls, Listing (longName ++ lit "\r\n2") ls [longName, lit "2"] ∧
      (∀ l ∈ ls, (dropCarriageReturn l).length < 65536) ∧
      readList (lit "crates") (longName ++ lit "\r\n2") = .error (.during (lit "reading job list") .lineTooLong) := by
  have hdigits : longName.all isDigit = true := by
    rw [longName, List.all_replicate]
    decide
  have hlength : longName.length = 65535 := List.length_replicate
  have hlisting := listing_numbers hdigits
  refine ⟨_, hlisting, ?_, (readList_eq_iff hlisting).mpr (.tooLong (n := 0) rfl ?_ ?_ ?_)⟩
  · have hdrop : dropCarriageReturn (longName ++ [carriageReturn]) = longName := by simp [dropCarriageReturn]
    rw [List.forall_mem_cons, List.forall_mem_singleton, hdrop, hlength]
    decide
  · rw [List.length_append, hlength, List.length_singleton]
  · exact fun _ => (absurd · List.not_mem_nil)
  · exact List.nodup_nil

end CrateAudit.Job
