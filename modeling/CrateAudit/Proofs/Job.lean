import CrateAudit.Job
import CrateAudit.Proofs.Bytes.Lines
import Mathlib.Data.List.Nodup

/-!
# The jobs of a list file

A list file is read line by line, and the names found so far are kept with their lines. A line that does
not stop the reading is blank or adds a name that was not there (`readLine_eq_ok`), so the jobs of a list
file have different names (`nodup_id_of_readList`).
-/

namespace CrateAudit.Job

open Bytes

variable {found : Found} {seen seen' : List (Bytes × Nat)}

/-- What a line can do when it does not stop the reading: it is blank, or it has a new name. -/
theorem readLine_eq_ok {line : ListLine} {n : Nat} (h : readLine found (line, n) = .ok seen') :
    ∃ seen text, found = .ok seen ∧ line = .line text ∧
      ((trim text = [] ∧ seen' = seen) ∨
        (trim text ≠ [] ∧ trim text ∉ seen.map Prod.fst ∧ seen' = (trim text, n) :: seen)) := by
  cases found with
  | error fault => cases line <;> contradiction
  | ok seen =>
    cases line with
    | tooLong => contradiction
    | line text =>
      refine ⟨seen, text, rfl, rfl, ?_⟩
      by_cases hempty : trim text = []
      · refine .inl ⟨hempty, ?_⟩
        simpa [readLine, bind, Except.bind, pure, Except.pure, hempty] using h.symm
      · refine .inr ⟨hempty, ?_⟩
        cases hfind : seen.find? (·.1 = trim text) with
        | some entry =>
          simp [readLine, bind, Except.bind, throw, throwThe, MonadExceptOf.throw, hempty, hfind] at h
        | none =>
          refine ⟨?_, by simpa [readLine, bind, Except.bind, pure, Except.pure, hempty, hfind] using h.symm⟩
          intro hmem
          obtain ⟨entry, hentry, heq⟩ := List.mem_map.mp hmem
          exact List.find?_eq_none.mp hfind entry hentry (decide_eq_true heq)

/-- The names found stay distinct as long as the reading goes on. -/
theorem nodup_foldl_readLine (lines : List (ListLine × Nat))
    (hfound : ∀ seen, found = .ok seen → (seen.map Prod.fst).Nodup)
    (h : lines.foldl readLine found = .ok seen') : (seen'.map Prod.fst).Nodup := by
  induction lines generalizing found with
  | nil => exact hfound seen' h
  | cons line lines ih =>
    refine ih ?_ h
    intro next hnext
    obtain ⟨seen, text, hseen, -, ⟨-, rfl⟩ | ⟨-, hnew, rfl⟩⟩ := readLine_eq_ok hnext
    · exact hfound next hseen
    · exact List.nodup_cons.mpr ⟨hnew, hfound seen hseen⟩

/-- The jobs of a list file are those of the names found, in its order. -/
theorem exists_of_readList {dir text : Bytes} {jobs : List Job} (h : readList dir text = .ok jobs) :
    ∃ seen, ((listLines text).zipIdx 1).foldl readLine (.ok []) = .ok seen ∧ seen ≠ [] ∧
      jobs = seen.reverse.map fun entry => below dir entry.1 := by
  rw [readList] at h
  cases hseen : ((listLines text).zipIdx 1).foldl readLine (.ok []) with
  | error fault =>
    rw [hseen] at h
    contradiction
  | ok seen =>
    rw [hseen] at h
    by_cases hempty : seen = []
    · simp [bind, Except.bind, throw, throwThe, MonadExceptOf.throw, hempty] at h
    · exact ⟨seen, rfl, hempty, by simpa [bind, Except.bind, pure, Except.pure, hempty] using h.symm⟩

/-- As long as the reading goes on, the names found are those of the lines that are not blank. -/
theorem exists_of_foldl_readLine (lines : List (ListLine × Nat)) (h : lines.foldl readLine found = .ok seen') :
    ∃ (seen : List (Bytes × Nat)) (texts : List Bytes), found = .ok seen ∧ lines.map Prod.fst = texts.map .line ∧
      seen'.map Prod.fst = ((texts.map trim).filter (!·.isEmpty)).reverse ++ seen.map Prod.fst := by
  induction lines generalizing found with
  | nil => exact ⟨seen', [], h, rfl, rfl⟩
  | cons line lines ih =>
    obtain ⟨next, texts, hnext, hlines, hseen'⟩ := ih h
    obtain ⟨line, n⟩ := line
    obtain ⟨seen, text, hseen, rfl, ⟨hblank, rfl⟩ | ⟨hname, -, rfl⟩⟩ := readLine_eq_ok hnext
    · refine ⟨next, text :: texts, hseen, by simp [hlines], ?_⟩
      rw [hseen', List.map_cons, hblank]
      rfl
    · refine ⟨seen, text :: texts, hseen, by simp [hlines], ?_⟩
      have hkept : ((text :: texts).map trim).filter (!·.isEmpty) =
          trim text :: (texts.map trim).filter (!·.isEmpty) := List.filter_cons_of_pos (by simpa using hname)
      rw [hseen', hkept]
      simp

/-- The names that a list file lists: its lines without white space around them, those that are blank left out. -/
def listed (text : Bytes) : List Bytes :=
  ((lines text).map fun line => trim (dropCarriageReturn line)).filter (!·.isEmpty)

theorem mem_listed_iff {text name : Bytes} :
    name ∈ listed text ↔ name ≠ [] ∧ ∃ line ∈ lines text, trim (dropCarriageReturn line) = name := by
  rw [listed, List.mem_filter, List.mem_map, and_comm]
  simp

/-- The jobs of a list file have the names that it lists, in its order. -/
theorem map_id_of_readList {dir text : Bytes} {jobs : List Job} (h : readList dir text = .ok jobs) :
    jobs.map (·.id) = listed text := by
  obtain ⟨seen, hseen, -, rfl⟩ := exists_of_readList h
  obtain ⟨_, texts, ⟨rfl⟩, hlines, hnames⟩ := exists_of_foldl_readLine _ hseen
  rw [List.zipIdx_map_fst] at hlines
  have hlisted : listed text = (texts.map trim).filter (!·.isEmpty) := by
    rw [eq_of_listLines hlines, List.map_map]
    rfl
  calc (seen.reverse.map fun entry => below dir entry.1).map (·.id)
      = seen.reverse.map Prod.fst := List.map_map
    _ = listed text := by rw [List.map_reverse, hnames, hlisted]; simp

/-- **Distinct names**: the jobs of a list file have different names. -/
theorem nodup_id_of_readList {dir text : Bytes} {jobs : List Job} (h : readList dir text = .ok jobs) :
    (jobs.map (·.id)).Nodup := by
  obtain ⟨seen, hseen, -, rfl⟩ := exists_of_readList h
  have hnodup : (seen.map Prod.fst).Nodup := by
    refine nodup_foldl_readLine _ ?_ hseen
    rintro _ ⟨⟩
    exact List.nodup_nil
  have hid : (seen.reverse.map fun entry => below dir entry.1).map (·.id) = (seen.map Prod.fst).reverse := by
    rw [List.map_map, ← List.map_reverse]
    rfl
  rw [hid]
  exact List.nodup_reverse.mpr hnodup

end CrateAudit.Job
