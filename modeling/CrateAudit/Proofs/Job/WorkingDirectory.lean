import CrateAudit.Proofs.Audit.Run
import CrateAudit.Proofs.Job
import CrateAudit.Proofs.Path.Place

/-!
# Working directories

The jobs of a list file have different names, but what matters to the commands is the directory that they run in. A
name is followed from the directory of the crates as a path, so different names may lead to the same place: `a`,
`./a` and `a/` do. Then two jobs have one working directory (`readList_sharedDirectory`), and with enough workers
their commands run in it at the same time.

Main result: `readList_workingDirectories`, which tells exactly when that happens. It does not if the names
are plain (`Path.IsPlain`). Directories are told by their paths, so nothing is said of symbolic links.
-/

namespace CrateAudit

open Bytes CrateAudit.Path CrateAudit.Path.Place

/-! ### Directories in use -/

namespace Audit

variable {evaluations : List Evaluation} {p : Pool} {w : ℕ}

/-- The working directories of the jobs in flight, by their paths. -/
def inUse (evaluations : List Evaluation) (p : Pool) : List Bytes :=
  p.flying.filterMap fun f => (evaluations[f.task.index]?).map (·.job.dir)

theorem inUse_eq (evaluations : List Evaluation) (p : Pool) :
    inUse evaluations p = (p.flying.map (·.task.index)).filterMap fun i => (evaluations[i]?).map (·.job.dir) := by
  rw [List.filterMap_map]
  rfl

/-- If the jobs have different directories, so have those in flight, at every moment of a run. -/
theorem nodup_inUse (hnodup : (evaluations.map (·.job.dir)).Nodup) (hp : Pool.Reachable w (tasks evaluations) p) :
    (inUse evaluations p).Nodup := by
  obtain ⟨departures, landed, hledger, -⟩ := hp.exists_ledger (pairwise_tasks evaluations)
  have hflying : (p.flying.map (·.task.index)).Nodup :=
    (List.map_append .. ▸ hledger.nodup_index (pairwise_tasks evaluations)).of_append_right
  rw [inUse_eq]
  refine hflying.filterMap ?_
  intro i j d hi hj
  rw [← List.getElem?_map, Option.mem_def] at hi hj
  have hlt : i < (evaluations.map (·.job.dir)).length := (List.getElem?_eq_some_iff.mp hi).1
  exact (List.getElem?_inj hlt hnodup).mp (hi.trans hj.symm)

/-- With a worker for each job, all of them begin at once. -/
theorem inUse_initial (evaluations : List Evaluation) :
    inUse evaluations (Pool.initial evaluations.length (tasks evaluations)) = evaluations.map (·.job.dir) := by
  have hflying : (Pool.initial evaluations.length (tasks evaluations)).flying.map (·.task.index) =
      List.range evaluations.length := by
    rw [← map_index_tasks]
    have hall : (tasks evaluations).take (max evaluations.length 1) = tasks evaluations := by
      refine List.take_of_length_le (Nat.le_trans ?_ (Nat.le_max_left ..))
      simp [tasks]
    simp [Pool.initial, Pool.fill, hall]
  rw [inUse_eq, hflying, ← List.map_filterMap, filterMap_range, List.take_length]

end Audit

namespace Job

variable {dir text : Bytes} {jobs : List Job} {j k : Job}

/-! ### Names that lead to the same place -/

theorem dir_of_readList (h : readList dir text = .ok jobs) (hj : j ∈ jobs) : j.dir = join dir j.id ∧ j.id ≠ [] := by
  have hid : j.id ∈ listed text := map_id_of_readList h ▸ List.mem_map_of_mem hj
  obtain ⟨seen, -, -, rfl⟩ := exists_of_readList h
  obtain ⟨entry, -, rfl⟩ := List.mem_map.mp hj
  exact ⟨rfl, (mem_listed_iff.mp hid).1⟩

theorem dir_eq_dir_iff (h : readList dir text = .ok jobs) (hj : j ∈ jobs) (hk : k ∈ jobs) :
    j.dir = k.dir ↔ ∃ q, LeadsBelow dir j.id q ∧ LeadsBelow dir k.id q := by
  obtain ⟨hdir, hne⟩ := dir_of_readList h hj
  obtain ⟨hdir', hne'⟩ := dir_of_readList h hk
  rw [hdir, hdir', join_eq_join_iff hne hne']

theorem nodup_dir_iff (h : readList dir text = .ok jobs) :
    (jobs.map (·.dir)).Nodup ↔
      ∀ j ∈ jobs, ∀ k ∈ jobs, j.id ≠ k.id → ¬ ∃ q, LeadsBelow dir j.id q ∧ LeadsBelow dir k.id q := by
  have hids := nodup_id_of_readList h
  rw [List.nodup_map_iff_inj_on (List.Nodup.of_map _ hids)]
  refine forall₄_congr fun j hj k hk => ?_
  have heq : j = k ↔ j.id = k.id := ⟨congrArg Job.id, List.inj_on_of_nodup_map hids hj hk⟩
  rw [dir_eq_dir_iff h hj hk, heq, ← not_imp_not]

/-- **Working directories**. Two jobs of a list file have the same working directory exactly if their names lead to the
same place from the directory of the crates. So the jobs have different directories exactly if no two names do that,
and they have if the names are plain. Exactly then two jobs in flight never work in the same directory, whatever the
number of workers and however long the jobs last. -/
theorem readList_workingDirectories (h : readList dir text = .ok jobs) :
    (∀ j ∈ jobs, ∀ k ∈ jobs, j.dir = k.dir ↔ ∃ q, LeadsBelow dir j.id q ∧ LeadsBelow dir k.id q) ∧
    ((jobs.map (·.dir)).Nodup ↔
      ∀ j ∈ jobs, ∀ k ∈ jobs, j.id ≠ k.id → ¬ ∃ q, LeadsBelow dir j.id q ∧ LeadsBelow dir k.id q) ∧
    ((∀ j ∈ jobs, IsPlain j.id) → (jobs.map (·.dir)).Nodup) ∧
    ((jobs.map (·.dir)).Nodup ↔
      ∀ evaluations : List Evaluation, evaluations.map (·.job) = jobs → ∀ workers n,
        (Audit.inUse evaluations (Pool.runFor n (Pool.initial workers (Audit.tasks evaluations)))).Nodup) := by
  refine ⟨fun j hj k hk => dir_eq_dir_iff h hj hk, nodup_dir_iff h, ?_, ?_, ?_⟩
  · intro hplain
    rw [nodup_dir_iff h]
    rintro j hj k hk hne ⟨q, hq, hq'⟩
    exact hne ((hplain j hj).eq_of_leadsBelow (hplain k hk) hq hq')
  · rintro hnodup evaluations rfl workers n
    rw [List.map_map] at hnodup
    exact Audit.nodup_inUse hnodup (Pool.Reachable.initial.runFor n)
  · -- with a worker for each job, the jobs in flight are all of them
    intro hnever
    let evaluations : List Evaluation := jobs.map fun job => { job, outcome := {}, delay := 1 }
    have hjobs : evaluations.map (·.job) = jobs := (List.map_map ..).trans (List.map_id _)
    have hdirs : evaluations.map (·.job.dir) = jobs.map (·.dir) := List.map_map ..
    rw [← hdirs, ← Audit.inUse_initial]
    exact hnever evaluations hjobs evaluations.length 0

/-- Names that are not plain may lead to different places all the same. -/
theorem readList_workingDirectories_roundabout :
    readList (lit "crates") (lit "a\n../crates//b/\n") =
        .ok [⟨lit "a", lit "crates/a"⟩, ⟨lit "../crates//b/", lit "crates/b"⟩] ∧
      ∀ evaluations : List Evaluation,
        evaluations.map (·.job) = [⟨lit "a", lit "crates/a"⟩, ⟨lit "../crates//b/", lit "crates/b"⟩] → ∀ workers n,
          (Audit.inUse evaluations (Pool.runFor n (Pool.initial workers (Audit.tasks evaluations)))).Nodup := by
  have hjobs : readList (lit "crates") (lit "a\n../crates//b/\n") =
      .ok [⟨lit "a", lit "crates/a"⟩, ⟨lit "../crates//b/", lit "crates/b"⟩] := by rfl
  exact ⟨hjobs, (readList_workingDirectories hjobs).2.2.2.mp (by decide)⟩

/-- A crate that is listed by two names is accepted as two jobs, and two workers begin with both of them at once in the
same directory. -/
theorem readList_sharedDirectory :
    ∃ jobs, readList (lit "crates") (lit "a\n./a\n") = .ok jobs ∧ jobs.map (·.id) = [lit "a", lit "./a"] ∧
      jobs.map (·.dir) = [lit "crates/a", lit "crates/a"] ∧
      ∀ evaluations : List Evaluation, evaluations.map (·.job) = jobs →
        Audit.inUse evaluations (Pool.initial 2 (Audit.tasks evaluations)) = [lit "crates/a", lit "crates/a"] := by
  refine ⟨[⟨lit "a", lit "crates/a"⟩, ⟨lit "./a", lit "crates/a"⟩], rfl, rfl, rfl, ?_⟩
  intro evaluations hjobs
  have hlength : evaluations.length = 2 := by simpa using congrArg List.length hjobs
  have hdirs : evaluations.map (·.job.dir) = [lit "crates/a", lit "crates/a"] :=
    List.map_map.symm.trans (congrArg (List.map (·.dir)) hjobs)
  rw [← hlength, Audit.inUse_initial, hdirs]

end Job

end CrateAudit
