import CrateAudit.Execution
import CrateAudit.Proofs.FileTree
import Mathlib.Data.List.Find

/-!
# Commands in worlds that are alike

Two worlds are alike if their file trees are, that is, if they differ only in what programs do, and by a
comparison that may depend on the program and the call. A command is executed in both worlds in the same way
up to the point where its program is called (`World.Alike.execute_cases`): it is missing in both, or refused in
both for the same reason, or the same program is called in both, and what it does there compares.

So an execution is the same in both worlds if the program does the same in that one call
(`World.Alike.execution_eq`); and if programs do the same work everywhere, whatever they write and however they
end (`Action.SameWork`), the worlds are alike afterwards and the same time has passed
(`World.Alike.execute`).
-/

namespace CrateAudit

open Bytes

variable {R : Comparison} {w w' : World}

/-- Actions that change the same files and take the same time, and may differ in what they write, in the
status they end with and in the memory they use. -/
structure Action.SameWork (a a' : Action) : Prop where
  removed_eq : a.removed = a'.removed
  dirs_eq : a.dirs = a'.dirs
  files_eq : a.files = a'.files
  lasts_eq : a.lasts = a'.lasts
  ignoresTermination_eq : a.ignoresTermination = a'.ignoresTermination
  leavesChild_eq : a.leavesChild = a'.leavesChild

/-- How long a process lasts is a matter of its work. -/
theorem Action.SameWork.outlive_snd {a a' : Action} (h : a.SameWork a') (l : Launch)
    (cancellation : Option Nat) :
    (l.outlive cancellation a).2 = (l.outlive cancellation a').2 := by
  unfold Launch.outlive
  dsimp only
  rw [h.lasts_eq, h.leavesChild_eq, h.ignoresTermination_eq]
  split
  · rfl
  · split
    · rfl
    · split
      · split <;> rfl
      · rfl

/-- A process that was started ends by itself or is ended. -/
theorem Launch.outlive_cases (l : Launch) (cancellation : Option Nat) (a : Action) :
    (l.outlive cancellation a).1 = .ended a.ending ∨
      ∃ cause ending, (l.outlive cancellation a).1 = .interrupted cause ending := by
  unfold Launch.outlive
  dsimp only
  split
  · exact .inl rfl
  · rename_i moment cause _
    split
    · exact .inl rfl
    · split
      · split
        · exact .inr ⟨cause, _, rfl⟩
        · exact .inr ⟨cause, _, rfl⟩
      · exact .inr ⟨cause, _, rfl⟩

/-- An execution succeeds exactly if the process ended by itself with status zero. -/
theorem Execution.fault?_eq_none_iff (x : Execution) : x.fault? = none ↔ x.conclusion = .ended (.exits 0) := by
  unfold fault?
  dsimp only
  split <;> simp_all

namespace World

/-- The world when a command is to be executed. -/
def launched (w : World) (l : Launch) : World := { w with launches := w.launches ++ [l] }

/-- The execution of a command whose program is called, and the world that it leaves behind. -/
def ran (w : World) (l : Launch) (cancellation : Option Nat) (call : Call) (a : Action) : Execution × World :=
  ({ launch := l, conclusion := (l.outlive cancellation a).1, stdout := a.stdout, stderr := a.stderr
     duration := (l.outlive cancellation a).2, peakKB := a.peakKB },
   { w.launched l with tree := changed w.tree call.directory a, calls := w.calls ++ [call] })

theorem execute_eq (w : World) (l : Launch) (cancellation : Option Nat) :
    w.execute l cancellation = match (w.launched l).executable? l.command.path with
      | none => ({ launch := l, conclusion := .missing }, w.launched l)
      | some file => match (w.launched l).start l file cancellation with
        | .error fault => ({ launch := l, conclusion := .unstarted fault }, w.launched l)
        | .ok (call, a) => w.ran l cancellation call a := rfl

/-- A command that is not launched leaves no trace but the memory of it. -/
theorem execute_of_unlaunched {w : World} {l : Launch} {cancellation : Option Nat}
    (h : (w.execute l cancellation).1.conclusion = .missing ∨
      ∃ fault, (w.execute l cancellation).1.conclusion = .unstarted fault) :
    (w.execute l cancellation).1.duration = 0 ∧ (w.execute l cancellation).2 = w.launched l := by
  revert h
  rw [execute_eq]
  cases (w.launched l).executable? l.command.path with
  | none => exact fun _ => ⟨rfl, rfl⟩
  | some file =>
    dsimp only
    cases (w.launched l).start l file cancellation with
    | error fault => exact fun _ => ⟨rfl, rfl⟩
    | ok started =>
      intro h
      obtain hended | ⟨cause, ending, hinterrupted⟩ := l.outlive_cases cancellation started.2
      · simp [ran, hended] at h
      · simp [ran, hinterrupted] at h

/-- The place of the program of a command, and the call that the command makes. -/
def invocation? (w : World) (l : Launch) : Option (Location × Call) := do
  let file ← w.executable? l.command.path
  let directory ← (w.workingDirectory l.dir).toOption
  let (place, _) ← ((w.tree.inside directory).find true file).toOption
  return (place, { program := place.getLast?.getD [], args := l.command.args
                   env := w.environmentOf l.command.env, directory })

/-! ### What a command finds -/

/-- The paths at which the executable file of a command may be. -/
def candidates (w : World) (command : Bytes) : List Bytes :=
  if command.contains Path.slash then [command] else w.searchPath.map (Path.join · command)

theorem mem_candidates {w : World} {command file : Bytes} (h : w.executable? command = some file) :
    file ∈ w.candidates command := by
  unfold executable? at h
  unfold candidates
  split_ifs at h ⊢
  · exact List.mem_singleton.mpr (Option.some.inj h).symm
  · exact List.mem_of_find?_eq_some (Option.filter_eq_some_iff.mp h).1

/-- A command that is found by paths that are allowed: its executable file, from the current directory and from its
working directory, and the working directory itself. -/
structure Finds (allowed : FileTree → Bytes → Prop) (w : World) (l : Launch) : Prop where
  file : ∀ path ∈ w.candidates l.command.path, allowed w.tree path
  directory : allowed w.tree l.dir
  inside : ∀ directory, w.workingDirectory l.dir = .ok directory →
    ∀ path ∈ w.candidates l.command.path, allowed (w.tree.inside directory) path

section Lockstep

variable {F : Bytes → Bytes → Prop} {Q : FileTree → FileTree → Prop} {allowed : FileTree → Bytes → Prop}
  {l : Launch}

theorem isExecutable_eq (L : FileTree.Lockstep F (fun place => Program.Alike (R place)) Q allowed)
    (h : Q w.tree w'.tree) {path : Bytes} (hpath : allowed w.tree path) :
    w.isExecutable path = w'.isExecutable path := by
  unfold isExecutable
  obtain ⟨entry, entry', hfound, hfound', place, hentry⟩ | ⟨fault, hfound, hfound'⟩ := (L.stat h hpath).cases
  · rw [hfound, hfound']
    cases hentry <;> rfl
  · rw [hfound, hfound']

theorem executable?_eq (L : FileTree.Lockstep F (fun place => Program.Alike (R place)) Q allowed)
    (h : Q w.tree w'.tree) (henvironment : w.environment = w'.environment) {command : Bytes}
    (hpaths : ∀ path ∈ w.candidates command, allowed w.tree path) :
    w.executable? command = w'.executable? command := by
  have hsearch : w.searchPath = w'.searchPath := by rw [searchPath, searchPath, henvironment]
  have hexecutable : ∀ path ∈ w.candidates command, w.isExecutable path = w'.isExecutable path :=
    fun path hpath => isExecutable_eq L h (hpaths path hpath)
  unfold candidates at hexecutable
  unfold executable?
  split_ifs at hexecutable ⊢ with hslash hfound hfound' hfound'
  · rfl
  · exact absurd ((hexecutable command (List.mem_singleton.mpr rfl)).symm.trans hfound) hfound'
  · exact absurd ((hexecutable command (List.mem_singleton.mpr rfl)).trans hfound') hfound
  · rfl
  · rw [← hsearch, List.find?_congr hexecutable]

theorem workingDirectory_eq (L : FileTree.Lockstep F (fun place => Program.Alike (R place)) Q allowed)
    (h : Q w.tree w'.tree) {dir : Bytes} (hdir : allowed w.tree dir) :
    w.workingDirectory dir = w'.workingDirectory dir := by
  refine Compares.eq_iff.mp ?_
  unfold workingDirectory
  split
  · exact .ok (L.current_eq h)
  · refine (L.find h hdir true).bind ?_
    rintro ⟨place, entry⟩ ⟨_, entry'⟩ ⟨rfl, hentry⟩
    cases hentry with
    | directory => exact .ok rfl
    | file _ => exact .error _
    | link target => exact .error _
    | program _ => exact .error _

/-- A start is refused in both worlds, or the same program is called. -/
theorem start_compares (L : FileTree.Lockstep F (fun place => Program.Alike (R place)) Q allowed)
    (h : Q w.tree w'.tree) (henvironment : w.environment = w'.environment) (hfinds : w.Finds allowed l) {file : Bytes}
    (hfile : w.executable? l.command.path = some file) (cancellation : Option Nat) :
    Compares (fun x y => x.1 = y.1 ∧ ∃ place, w.invocation? l = some (place, x.1) ∧ R place x.1 x.2 y.2)
      (w.start l file cancellation) (w'.start l file cancellation) := by
  have henvironmentOf : w'.environmentOf l.command.env = w.environmentOf l.command.env := by
    rw [environmentOf, environmentOf, henvironment]
  unfold World.start
  dsimp only
  split
  · exact .error _
  split
  · exact .error _
  split
  · exact .error _
  rw [henvironmentOf]
  refine ((Compares.eq_iff.mpr (workingDirectory_eq L h hfinds.directory)).and_eq.mapError _).bind ?_
  rintro directory _ ⟨rfl, hdirectory⟩
  have hallowed := hfinds.inside directory hdirectory file (mem_candidates hfile)
  refine ((L.find (L.inside h directory) hallowed true).and_eq.mapError _).bind ?_
  rintro ⟨place, entry⟩ ⟨_, entry'⟩ ⟨⟨rfl, hentry⟩, hplace⟩
  have hinvocation : w.invocation? l = some (place, ⟨place.getLast?.getD [], l.command.args,
      w.environmentOf l.command.env, directory⟩) := by
    simp [invocation?, hfile, hdirectory, hplace, Except.toOption]
  cases hentry with
  | directory => exact .error _
  | file _ => exact .error _
  | link target => exact .error _
  | program hprogram =>
    cases hprogram with
    | unrunnable => exact .error _
    | runs haction => exact .ok ⟨rfl, place, hinvocation, haction _⟩

/-- **Executions in two worlds** in which operations go the same way: no program is called in either of them, or the
same call is made in both. -/
theorem execute_compares (L : FileTree.Lockstep F (fun place => Program.Alike (R place)) Q allowed)
    (h : Q w.tree w'.tree) (henvironment : w.environment = w'.environment) (hfinds : w.Finds allowed l)
    (cancellation : Option Nat) :
    (∃ conclusion, w.execute l cancellation = ({ launch := l, conclusion }, w.launched l) ∧
      w'.execute l cancellation = ({ launch := l, conclusion }, w'.launched l)) ∨
    ∃ place call a a' file, w.invocation? l = some (place, call) ∧ R place call a a' ∧
      w.executable? l.command.path = some file ∧ w.start l file cancellation = .ok (call, a) ∧
      w.execute l cancellation = w.ran l cancellation call a ∧
      w'.execute l cancellation = w'.ran l cancellation call a' := by
  have hexecutable : w.executable? l.command.path = w'.executable? l.command.path :=
    executable?_eq L h henvironment hfinds.file
  have hlaunched : ∀ w : World, (w.launched l).executable? l.command.path = w.executable? l.command.path :=
    fun _ => rfl
  rw [execute_eq, execute_eq, hlaunched, hlaunched, ← hexecutable]
  cases hfile : w.executable? l.command.path with
  | none => exact .inl ⟨.missing, rfl, rfl⟩
  | some file =>
    dsimp only
    have hsame : ∀ w : World, (w.launched l).start l file cancellation = w.start l file cancellation := fun _ => rfl
    rw [hsame, hsame]
    obtain ⟨⟨call, a⟩, ⟨call', a'⟩, hstarted, hstarted', hcall, place, hinvocation, hR⟩ | ⟨fault, hstarted, hstarted'⟩ :=
      (start_compares L h henvironment hfinds hfile cancellation).cases
    · obtain rfl : call = call' := hcall
      rw [hstarted, hstarted']
      exact .inr ⟨place, call, a, a', file, hinvocation, hR, rfl, hstarted, rfl, rfl⟩
    · rw [hstarted, hstarted']
      exact .inl ⟨.unstarted fault, rfl, rfl⟩

end Lockstep

/-! ### Worlds that are alike -/

/-- Worlds that differ in what programs do, and perhaps in their memories. -/
structure Alike (R : Comparison) (w w' : World) : Prop where
  tree : w.tree.Alike R w'.tree
  environment_eq : w.environment = w'.environment

namespace Alike

theorem launched (h : w.Alike R w') (l : Launch) : (w.launched l).Alike R (w'.launched l) :=
  ⟨h.tree, h.environment_eq⟩

/-- **Executions in worlds that are alike**: no program is called in either of them, or the same call is made
in both. -/
theorem execute_cases (h : w.Alike R w') (l : Launch) (cancellation : Option Nat) :
    (∃ conclusion, w.execute l cancellation = ({ launch := l, conclusion }, w.launched l) ∧
      w'.execute l cancellation = ({ launch := l, conclusion }, w'.launched l)) ∨
    ∃ place call a a', w.invocation? l = some (place, call) ∧ R place call a a' ∧
      w.execute l cancellation = w.ran l cancellation call a ∧
      w'.execute l cancellation = w'.ran l cancellation call a' := by
  have hfinds : w.Finds (fun _ _ => True) l := ⟨fun _ _ => trivial, trivial, fun _ _ _ _ => trivial⟩
  refine (execute_compares (FileTree.Alike.lockstep R) h.tree h.environment_eq hfinds cancellation).imp_right ?_
  rintro ⟨place, call, a, a', -, hinvocation, hR, -, -, hrun, hrun'⟩
  exact ⟨place, call, a, a', hinvocation, hR, hrun, hrun'⟩

/-- The execution of a command is the same if its program does the same in the call that the command
makes. -/
theorem execution_eq (h : w.Alike R w') {l : Launch}
    (hR : ∀ place call a a', w.invocation? l = some (place, call) → R place call a a' → a = a')
    (cancellation : Option Nat) : (w.execute l cancellation).1 = (w'.execute l cancellation).1 := by
  obtain ⟨conclusion, hw, hw'⟩ | ⟨place, call, a, a', hinvocation, haction, hw, hw'⟩ :=
    h.execute_cases l cancellation
  · rw [hw, hw']
  · rw [hw, hw', hR place call a a' hinvocation haction]
    rfl

/-- The memory of a world has no share in executions. -/
theorem execution_launched (w : World) (l l' : Launch) (cancellation : Option Nat) :
    ((w.launched l').execute l cancellation).1 = (w.execute l cancellation).1 := by
  have halike : (w.launched l').Alike (fun _ _ => Eq) w :=
    ⟨FileTree.Alike.refl (fun _ _ _ => rfl) w.tree, rfl⟩
  exact halike.execution_eq (fun _ _ _ _ _ heq => heq) cancellation

/-! ### What a command leaves behind -/

theorem changed {t t' : FileTree} (h : t.Alike R t') (directory : Location) {a a' : Action}
    (hwork : a.SameWork a') : (World.changed t directory a).Alike R (World.changed t' directory a') := by
  have hsame : World.changed t' directory a' = World.changed t' directory a := by
    rw [World.changed, World.changed, hwork.removed_eq, hwork.dirs_eq, hwork.files_eq]
  rw [hsame]
  exact (FileTree.Alike.lockstep R).changed rfl h directory a (fun _ _ => trivial) (fun _ _ => trivial)
    fun _ _ => ⟨trivial, trivial⟩

/-- If programs do the same work everywhere, a command leaves worlds behind that are alike, after the same
time. -/
theorem execute (h : w.Alike R w') (hR : ∀ place call a a', R place call a a' → a.SameWork a') (l : Launch)
    (cancellation : Option Nat) :
    (w.execute l cancellation).2.Alike R (w'.execute l cancellation).2 ∧
      (w.execute l cancellation).1.duration = (w'.execute l cancellation).1.duration := by
  obtain ⟨conclusion, hw, hw'⟩ | ⟨place, call, a, a', -, haction, hw, hw'⟩ := h.execute_cases l cancellation
  · rw [hw, hw']
    exact ⟨h.launched l, rfl⟩
  · have hwork := hR place call a a' haction
    rw [hw, hw']
    exact ⟨⟨changed h.tree call.directory hwork, h.environment_eq⟩, hwork.outlive_snd l cancellation⟩

end Alike

end World

end CrateAudit
