import CrateAudit.Proofs.Job
import CrateAudit.Proofs.Job.Directory
import CrateAudit.Proofs.Session.Launches

/-!
# Crates that are known

A crate is known if it is the last element of the path on a line of the list of known crates
(`Prepare.exists_readKnown`). The jobs of a preparation are the directories in a directory that are not known, in
ascending order (`Prepare.exists_jobs`).
-/

namespace CrateAudit.Prepare

open Bytes FileTree Step

variable {s : Session}

theorem exists_knownCrate (known : List Bytes) (text : Bytes) :
    ∃ known', knownCrate (.ok known) (.line text) = .ok known' ∧
      ∀ name, name ∈ known' ↔ name ∈ known ∨ (trim text ≠ [] ∧ Path.base (trim text) = name) := by
  refine ⟨_, rfl, fun name => ?_⟩
  split_ifs with hskip
  · -- a blank line names nothing, and a crate that is known already is not listed again
    rw [Bool.or_eq_true, List.isEmpty_iff, List.contains_iff_mem] at hskip
    constructor
    · exact .inl
    · rintro (hname | ⟨hne, rfl⟩)
      · exact hname
      · exact hskip.resolve_left hne
  · have hne : trim text ≠ [] := by
      rintro hempty
      simp [hempty] at hskip
    rw [List.mem_append, List.mem_singleton]
    exact or_congr_right ⟨fun h => ⟨hne, h.symm⟩, fun h => h.2.symm⟩

theorem exists_foldl_knownCrate (texts known : List Bytes) :
    ∃ known', (texts.map ListLine.line).foldl knownCrate (.ok known) = .ok known' ∧
      ∀ name, name ∈ known' ↔ name ∈ known ∨ ∃ text ∈ texts, trim text ≠ [] ∧ Path.base (trim text) = name := by
  induction texts generalizing known with
  | nil => exact ⟨known, rfl, by simp⟩
  | cons text texts ih =>
    obtain ⟨next, hnext, hname⟩ := exists_knownCrate known text
    obtain ⟨known', hknown', hmem⟩ := ih next
    refine ⟨known', by rw [List.map_cons, List.foldl_cons, hnext, hknown'], fun name => ?_⟩
    rw [hmem, hname, List.exists_mem_cons_iff, or_assoc]

/-- The crates that a list names are the last elements of the paths on its lines. -/
theorem exists_knownCrates {text : Bytes} (h : ∀ line ∈ lines text, line.length < bufferSize) :
    ∃ known, knownCrates text = .ok known ∧
      ∀ name, name ∈ known ↔ ∃ line ∈ Job.listed text, Path.base line = name := by
  obtain ⟨known, hknown, hmem⟩ := exists_foldl_knownCrate ((lines text).map dropCarriageReturn) []
  refine ⟨known, by rw [knownCrates, listLines_eq_map h, hknown], fun name => ?_⟩
  rw [hmem]
  constructor
  · rintro (hnone | ⟨text', htext, hne, hbase⟩)
    · exact absurd hnone List.not_mem_nil
    · obtain ⟨line, hline, rfl⟩ := List.mem_map.mp htext
      exact ⟨_, Job.mem_listed_iff.mpr ⟨hne, line, hline, rfl⟩, hbase⟩
  · rintro ⟨_, hlisted, hbase⟩
    obtain ⟨hne, line, hline, rfl⟩ := Job.mem_listed_iff.mp hlisted
    exact .inr ⟨_, List.mem_map.mpr ⟨line, hline, rfl⟩, hne, hbase⟩

/-- A list of known crates that can be read, if there is one. -/
def Readable (t : FileTree) (path : Bytes) : Prop :=
  path = [] ∨ ∃ entry text, t.openRead path = .ok entry ∧ FileTree.content path entry = .ok text ∧
    ∀ line ∈ lines text, line.length < bufferSize

/-- A crate that the list of known crates names. -/
def Known (t : FileTree) (path name : Bytes) : Prop :=
  path ≠ [] ∧ ∃ entry text, t.openRead path = .ok entry ∧ FileTree.content path entry = .ok text ∧
    ∃ line ∈ Job.listed text, Path.base line = name

/-- The list of known crates is read. -/
theorem exists_readKnown {s : Session} {path : Bytes} (h : Readable s.world.tree path) :
    ∃ known, (readKnown path).run s = (.ok known, s) ∧ ∀ name, name ∈ known ↔ Known s.world.tree path name := by
  obtain rfl | ⟨entry, text, hopen, hcontent, hlines⟩ := h
  · exact ⟨[], rfl, fun name => by simp [Known]⟩
  by_cases hpath : path = []
  · subst hpath
    exact ⟨[], rfl, fun name => by simp [Known]⟩
  obtain ⟨known, hknown, hmem⟩ := exists_knownCrates hlines
  refine ⟨known, ?_, fun name => ?_⟩
  · unfold readKnown openFile
    rw [if_neg (by simpa using hpath), run_bind, run_get_bind, hopen]
    have hduring : ∀ (context : Bytes) (entry : Entry),
        (during context ((Except.ok entry).mapError Fault.file)).run s = (.ok entry, s) := fun _ _ => rfl
    rw [hduring]
    dsimp only
    rw [hcontent]
    have hread : (Except.ok text).mapError Fault.file >>= knownCrates = .ok known := hknown
    rw [hread]
    rfl
  · rw [hmem]
    constructor
    · intro hline
      exact ⟨hpath, entry, text, hopen, hcontent, hline⟩
    · rintro ⟨-, entry', text', hopen', hcontent', hline⟩
      obtain rfl := Except.ok.inj (hopen.symm.trans hopen')
      obtain rfl := Except.ok.inj (hcontent.symm.trans hcontent')
      exact hline

/-! ### Jobs -/

/-- The jobs of a preparation are the directories in a directory that are not known. -/
theorem exists_jobs {dir path : Bytes} {directory : Location} (hsound : s.world.tree.Sound)
    (hdir : s.world.tree.find true dir = .ok (directory, .directory))
    (hne : ∃ name, s.world.tree.get? (directory ++ [name]) = some .directory) (hknown : Readable s.world.tree path) :
    ∃ (found : List Job) (known names : List Bytes), Job.ofDirectory s.world.tree dir = .ok found ∧
      (readKnown path).run s = (.ok known, s) ∧ Preparation.pending known found = names.map (Job.below dir) ∧
      names.Pairwise (· < ·) ∧ ∀ name, name ∈ names ↔
        s.world.tree.get? (directory ++ [name]) = some .directory ∧ ¬ Known s.world.tree path name := by
  obtain ⟨all, hall, hsorted, hmem⟩ := Job.exists_ofDirectory hsound hdir hne
  obtain ⟨known, hread, hknown⟩ := exists_readKnown hknown
  refine ⟨_, known, all.filter fun name => !known.contains name, hall, hread, List.filter_map, hsorted.filter _,
    fun name => ?_⟩
  rw [List.mem_filter, hmem, Bool.not_eq_true', List.contains_eq_mem, decide_eq_false_iff_not, hknown]

theorem run_jobs {r : Request} {found : List Job} {known : List Bytes}
    (hjobs : Job.ofDirectory s.world.tree r.dir = .ok found) (hknown : (readKnown r.known).run s = (.ok known, s)) :
    (jobs r).run s = (.ok (Preparation.pending known found), s) := by
  unfold jobs
  rw [run_get_bind, hjobs, run_ok_bind, run_bind, hknown]
  rfl

end CrateAudit.Prepare
