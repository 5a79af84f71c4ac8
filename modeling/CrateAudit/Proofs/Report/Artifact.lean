import CrateAudit.Proofs.FileTree.Matches
import CrateAudit.Proofs.Report.Table
import CrateAudit.Report.Artifact

/-!
# Writing artifacts

Whether artifacts can be written is decided by the tree and the paths, not by what the artifacts hold: in two trees in
which operations go the same way the same faults arise (`Artifact.writeAll_lockstep`).

If there is no fault, every path leads to a file afterwards, and to the artifact that was written last there
(`Artifact.find_foldl_write`). So the table holds the results if no other artifact has the same place
(`Artifact.find_table`).
-/

namespace CrateAudit

open Bytes FileTree

namespace Artifact

variable {t u : FileTree} {names : OutputNames}

/-! ### The same faults -/

/-- The paths of the artifacts of a run. -/
def paths (names : OutputNames) : List Bytes :=
  [Path.join names.dir names.table, Path.join names.dir names.narrative] ++
    if names.bom.isEmpty then [] else [Path.join names.dir names.bom]

theorem map_path_ofResults (names : OutputNames) (results : List Result) (bom : Bom) :
    (ofResults names results (some bom)).map (·.path) = paths names := by
  rw [ofResults, paths]
  dsimp only
  split_ifs <;> rfl

section Lockstep

variable {F : Bytes → Bytes → Prop} {P : Location → Program → Program → Prop} {Q : FileTree → FileTree → Prop}
  {allowed : FileTree → Bytes → Prop} {t' : FileTree}

theorem keeps_univ_create {path content : Bytes} (h : t.create path content = .ok u) : t.Keeps Set.univ u :=
  keeps_edit h (clear_compl_univ t _ _)

theorem foldl_write_lockstep (L : Lockstep F P Q allowed) (hF : ∀ c c', F c c') {as as' : List Artifact}
    (has : as.map (·.path) = as'.map (·.path)) (h : Q t t') (hpaths : ∀ a ∈ as, allowed t a.path)
    (faults : List ArtifactFault) :
    (as.foldl write (t, faults)).2 = (as'.foldl write (t', faults)).2 := by
  induction as generalizing as' t t' faults with
  | nil =>
    rw [List.map_nil, eq_comm, List.map_eq_nil_iff] at has
    rw [has]
    rfl
  | cons a as ih =>
    cases as' with
    | nil => cases has
    | cons a' as' =>
      rw [List.map_cons, List.map_cons, List.cons.injEq] at has
      have hcreate : Compares Q (t.create a.path a.content) (t'.create a'.path a'.content) := by
        rw [← has.1]
        exact L.edit (fun _ _ _ => hF _ _) (hF _ _) h (hpaths a List.mem_cons_self)
      rw [List.foldl_cons, List.foldl_cons, write, write]
      obtain ⟨v, v', hmade, hmade', hv⟩ | ⟨fault, hmade, hmade'⟩ := hcreate.cases
      · rw [hmade, hmade']
        refine ih has.2 hv (fun b hb => ?_) _
        exact L.stays (keeps_univ_create hmade) (hpaths b (List.mem_cons_of_mem _ hb))
      · -- the fault names the path, which is the same in both lists
        rw [hmade, hmade', has.1]
        exact ih has.2 h (fun b hb => hpaths b (List.mem_cons_of_mem _ hb)) _

/-- **Artifacts in two trees** in which operations go the same way have the same fault, whatever they hold. -/
theorem writeAll_lockstep (L : Lockstep F P Q allowed) (hF : ∀ c c', F c c') (h : Q t t')
    (hdir : allowed t names.dir) (hpaths : ∀ path ∈ paths names, allowed t path) (results results' : List Result)
    (bom bom' : Bom) :
    (writeAll names results (some bom) t).2 = (writeAll names results' (some bom') t').2 := by
  have hgrows := t.grows_univ_makeDirectories names.dir
  unfold writeAll
  obtain ⟨u, u', fault?, hmade, hmade', hu⟩ := (L.makeDirectories h hdir).exists_eq
  rw [hmade] at hgrows
  rw [hmade, hmade']
  cases fault? with
  | some fault => rfl
  | none =>
    have has : (ofResults names results (some bom)).map (·.path) =
        (ofResults names results' (some bom')).map (·.path) := by
      rw [map_path_ofResults, map_path_ofResults]
    have hfaults := foldl_write_lockstep L hF has hu (fun a ha => L.stays hgrows.keeps (hpaths a.path ?_)) []
    · dsimp only
      revert hfaults
      generalize (ofResults names results (some bom)).foldl write (u, []) = done,
        (ofResults names results' (some bom')).foldl write (u', []) = done'
      obtain ⟨v, faults⟩ := done
      obtain ⟨v', faults'⟩ := done'
      rintro (rfl : faults = faults')
      cases faults <;> rfl
    · rw [← map_path_ofResults names results bom]
      exact List.mem_map_of_mem ha

end Lockstep

/-! ### What is written -/

/-- Creating a file changes no other file. -/
theorem find_create {path content : Bytes} (h : t.create path content = .ok u) :
    ∃ N, u.find true path = .ok (N, .file content) ∧
      ∀ other M c, t.find true other = .ok (M, .file c) →
        u.find true other = .ok (M, .file (if M = N then content else c)) := by
  obtain ⟨N, entry, -, hlocate, hentry, rfl⟩ := exists_of_edit h
  refine ⟨N, find_put_of_locate hlocate hentry content, fun other M c hfind => ?_⟩
  rw [find_eq_ok_iff] at hfind ⊢
  rw [locate_put (plain_of_locate hlocate hentry).1 (by simp) hfind, overlaid_of_ne (by simp)]
  split_ifs <;> rfl

/-- Faults are never forgotten. -/
theorem length_faults_le (as : List Artifact) (done : FileTree × List ArtifactFault) :
    done.2.length ≤ (as.foldl write done).2.length := by
  induction as generalizing done with
  | nil => exact Nat.le_refl _
  | cons a as ih =>
    refine Nat.le_trans ?_ (ih (write done a))
    unfold write
    split
    · exact Nat.le_refl _
    · simp

theorem exists_create_of_foldl_write {a : Artifact} {as : List Artifact}
    (h : (a :: as).foldl write (t, []) = (u, [])) :
    ∃ v, t.create a.path a.content = .ok v ∧ as.foldl write (v, []) = (u, []) := by
  rw [List.foldl_cons, write] at h
  cases hcreate : t.create a.path a.content with
  | error fault =>
    rw [hcreate] at h
    have hle := length_faults_le as (t, [] ++ [⟨a.path, fault⟩])
    rw [h] at hle
    exact absurd hle (by simp)
  | ok v =>
    rw [hcreate] at h
    exact ⟨v, rfl, h⟩

/-- A file that a path leads to stays there while artifacts are written, with its content if no artifact has the same
place in the end. -/
theorem find_foldl_write {as : List Artifact} (h : as.foldl write (t, []) = (u, [])) {path : Bytes} {M : Location}
    {c : Bytes} (hfind : t.find true path = .ok (M, .file c)) :
    ∃ c', u.find true path = .ok (M, .file c') ∧
      ((∀ a ∈ as, ∀ entry, u.find true a.path ≠ .ok (M, entry)) → c' = c) := by
  induction as generalizing t path M c with
  | nil =>
    obtain rfl : t = u := congrArg Prod.fst h
    exact ⟨c, hfind, fun _ => rfl⟩
  | cons a as ih =>
    obtain ⟨v, hcreate, h⟩ := exists_create_of_foldl_write h
    obtain ⟨N, hfound, hother⟩ := find_create hcreate
    obtain ⟨c', hfind', hc'⟩ := ih h (hother path M c hfind)
    obtain ⟨_, hfound', -⟩ := ih h hfound
    refine ⟨c', hfind', fun hapart => ?_⟩
    have hne : M ≠ N := by
      rintro rfl
      exact hapart a List.mem_cons_self _ hfound'
    rw [hc' fun b hb => hapart b (List.mem_cons_of_mem _ hb), if_neg hne]

/-- Paths that do not lead to the same place. -/
def Distinct (t : FileTree) (p q : Bytes) : Prop :=
  ∀ place entry entry', t.find true p = .ok (place, entry) → t.find true q ≠ .ok (place, entry')

theorem exists_foldl_of_writeAll {results : List Result} {bom : Option Bom}
    (h : writeAll names results bom t = (u, none)) :
    ∃ v, (ofResults names results bom).foldl write (v, []) = (u, []) := by
  unfold writeAll at h
  split at h
  · exact absurd (congrArg Prod.snd h) (by simp)
  · rename_i v _
    split at h
    · rename_i w hw
      obtain rfl : w = u := congrArg Prod.fst h
      exact ⟨v, hw⟩
    · exact absurd (congrArg Prod.snd h) (by simp)

/-- **The table of a run** is there if the artifacts could be written and have different places. -/
theorem find_table {results : List Result} {bom : Bom} (h : writeAll names results (some bom) t = (u, none))
    (hdistinct : (paths names).Pairwise (Distinct u)) :
    ∃ place, u.find true (Path.join names.dir names.table) = .ok (place, .file (Table.write results)) := by
  obtain ⟨rest, hresults⟩ : ∃ rest, ofResults names results (some bom) =
      ⟨Path.join names.dir names.table, Table.write results⟩ :: rest := ⟨_, rfl⟩
  have hpaths : paths names = Path.join names.dir names.table :: rest.map (·.path) := by
    rw [← map_path_ofResults names results bom, hresults, List.map_cons]
  obtain ⟨v, hwrite⟩ := exists_foldl_of_writeAll h
  rw [hresults] at hwrite
  rw [hpaths, List.pairwise_cons] at hdistinct
  obtain ⟨w, hcreate, hwrite⟩ := exists_create_of_foldl_write hwrite
  obtain ⟨place, hfound, -⟩ := find_create hcreate
  obtain ⟨c', hfind, hc'⟩ := find_foldl_write hwrite hfound
  refine ⟨place, ?_⟩
  rw [hfind, hc' fun a ha entry => hdistinct.1 a.path (List.mem_map_of_mem ha) place _ entry hfind]

/-- A table is read as its header and the fields of the results. -/
theorem read?_table (results : List Result) :
    Table.read? (Table.write results) = some (Table.header :: results.map Table.fields) := by
  rw [Table.write_eq]
  refine Table.read?_flatMap_row ?_
  simp [Table.header, Table.fields]

end Artifact

end CrateAudit
