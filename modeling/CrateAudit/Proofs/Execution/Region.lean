import CrateAudit.Evaluator
import CrateAudit.Proofs.Execution.Result
import Mathlib.Data.Set.Lattice
import Mathlib.Order.CompletePartialOrder

/-!
# Commands that work in a region

A command is confined to a region if whatever it starts writes in the region only, in every world that has come from the
present one without new links or programs (`World.Confines`). No command makes links or programs, so commands that are
confined stay so, and an evaluation whose commands are confined changes nothing outside the region
(`Evaluator.keeps_evaluate`). Such a command does not notice what others do elsewhere (`Confines.matches_execute`).
-/

namespace CrateAudit

open Bytes FileTree

variable {D : Set Location} {w u v : World} {l : Launch}

/-- Trees that hold the same outside a region. -/
abbrev FileTree.Agrees (D : Set Location) (t t' : FileTree) : Prop :=
  t.Matches Eq (fun _ => Program.Alike fun _ => Eq) D t'

theorem FileTree.Agrees.refl (D : Set Location) (t : FileTree) : t.Agrees D t := by
  refine (Keeps.refl D t).matches (fun _ => rfl) fun _ p => ?_
  cases p with
  | unrunnable => exact .unrunnable
  | runs action => exact .runs fun _ => rfl

namespace World

/-- A world that has come from another one without new links or programs. -/
structure Descends (w u : World) : Prop where
  tree : w.tree.Descends u.tree
  current_eq : u.tree.current = w.tree.current
  environment_eq : u.environment = w.environment

theorem Descends.refl (w : World) : w.Descends w := ⟨.refl w.tree, rfl, rfl⟩

theorem Descends.trans (h : w.Descends u) (h' : u.Descends v) : w.Descends v :=
  ⟨h.tree.trans h'.tree, h'.current_eq.trans h.current_eq, h'.environment_eq.trans h.environment_eq⟩

/-- A command that is confined to a region: what it starts writes there only. -/
def Confines (D : Set Location) (w : World) (l : Launch) : Prop :=
  ∀ u, w.Descends u → ∀ file call a, u.executable? l.command.path = some file →
    u.start l file none = .ok (call, a) → a.Within D u.tree call.directory

theorem Confines.of_descends (h : w.Confines D l) (hu : w.Descends u) : u.Confines D l :=
  fun v hv => h v (hu.trans hv)

/-- What a world is after work in a region. -/
structure Keeps (D : Set Location) (w u : World) : Prop where
  tree : w.tree.Keeps D u.tree
  environment_eq : u.environment = w.environment

theorem Keeps.refl (D : Set Location) (w : World) : w.Keeps D w := ⟨.refl D w.tree, rfl⟩

theorem Keeps.trans (h : w.Keeps D u) (h' : u.Keeps D v) : w.Keeps D v :=
  ⟨h.tree.trans h'.tree, h'.environment_eq.trans h.environment_eq⟩

theorem Keeps.descends (h : w.Keeps D u) : w.Descends u :=
  ⟨h.tree.descends, h.tree.current_eq, h.environment_eq⟩

theorem descends_launched (w : World) (l : Launch) : w.Descends (w.launched l) := ⟨.refl w.tree, rfl, rfl⟩

/-- **A command that is confined** changes nothing outside its region. -/
theorem Confines.keeps_execute (h : w.Confines D l) : w.Keeps D (w.execute l none).2 := by
  rw [execute_eq]
  split
  · exact ⟨.refl D w.tree, rfl⟩
  · rename_i file hfile
    split
    · exact ⟨.refl D w.tree, rfl⟩
    · rename_i call a hstart
      exact ⟨keeps_changed (h _ (w.descends_launched l) file call a hfile hstart), rfl⟩

/-- **A command that is confined** does the same in a world that is the same outside another region, if it is not found
through that region. -/
theorem Confines.matches_execute {E : Set Location} (h : w.Confines D l) (hDE : Disjoint D E)
    (hfinds : w.Finds (fun t path => t.Clear E t.current path) l)
    (hu : w.tree.Agrees E u.tree) (henvironment : w.environment = u.environment) :
    (u.execute l none).1 = (w.execute l none).1 ∧ (w.execute l none).2.tree.Agrees E (u.execute l none).2.tree := by
  have L := Matches.lockstep Eq (fun _ => Program.Alike fun _ => Eq) E
  obtain ⟨conclusion, hexecute, hexecute'⟩ | ⟨place, call, a, a', file, -, rfl, hfile, hstart, hexecute, hexecute'⟩ :=
    execute_compares (R := fun _ _ => Eq) L hu henvironment hfinds none
  · rw [hexecute, hexecute']
    exact ⟨rfl, hu⟩
  · rw [hexecute, hexecute']
    have hwithin := (h w (.refl w) file call a hfile hstart).of_descends (w.tree.descends_inside call.directory)
    have hE : E ⊆ Dᶜ := fun place hmem hD => Set.disjoint_left.mp hDE hD hmem
    refine ⟨rfl, L.changed rfl hu call.directory a ?_ ?_ ?_⟩
    · exact fun path hpath => (hwithin.removed path hpath).clear.mono hE
    · exact fun path hpath => (hwithin.dirs path hpath).mono hE
    · exact fun path hpath => ⟨(hwithin.files path hpath).1.mono hE, (hwithin.files path hpath).2.mono hE⟩

theorem workingDirectory_eq_ok {dir : Bytes} {place : Location} (h : w.workingDirectory dir = .ok place) :
    (place, true) ∈ w.tree.way w.tree.current dir := by
  unfold workingDirectory at h
  split_ifs at h with hempty
  · obtain rfl := Except.ok.inj h
    obtain rfl : dir = [] := by simpa using hempty
    exact List.mem_singleton.mpr rfl
  · cases hfind : w.tree.find true dir with
    | error refusal =>
      rw [hfind] at h
      cases h
    | ok found =>
      obtain ⟨place', entry⟩ := found
      rw [hfind] at h
      change (if entry.isDirectory then Except.ok place' else _) = _ at h
      split_ifs at h
      · obtain rfl := Except.ok.inj h
        exact (arrives_of_locate (find_eq_ok_iff.mp hfind)).ends

/-- What was started is a program, in the working directory of the command. -/
theorem exists_of_start {file : Bytes} {call : Call} {a : Action} (h : w.start l file none = .ok (call, a)) :
    (call.directory, true) ∈ w.tree.way w.tree.current l.dir ∧
      ∃ place action, w.tree.get? place = some (.program (.runs action)) ∧ a = action call := by
  obtain ⟨-, -, -, hdirectory, ⟨place, action, hfind, -, ha⟩, -, -⟩ := start_eq_ok_iff.mp h
  refine ⟨workingDirectory_eq_ok hdirectory, place, action, ?_, ha⟩
  -- a program is no directory, so it was looked up at the end of the path
  obtain hroot | ⟨-, hget, -⟩ := (arrives_of_locate (find_eq_ok_iff.mp hfind)).found
  · cases hroot
  · exact hget

/-- **Commands are confined** if all programs write in the region only, in whatever directory the command may come
to. -/
theorem confines_of_programs {t : FileTree} (ht : t.Descends w.tree) (hcurrent : w.tree.current = t.current)
    (h : ∀ place action, t.get? place = some (.program (.runs action)) →
      ∀ call : Call, (call.directory, true) ∈ t.way t.current l.dir → (action call).Within D t call.directory) :
    w.Confines D l := by
  intro u hu file call a _ hstart
  obtain ⟨hdirectory, place, action, hprogram, rfl⟩ := exists_of_start hstart
  have htu := ht.trans hu.tree
  rw [hu.current_eq, hcurrent] at hdirectory
  exact (h place action (htu.program place _ hprogram) call (mem_way_of_descends htu hdirectory)).of_descends htu

end World

namespace Evaluator

variable {e : Evaluator} {job : Job}

theorem keeps_evaluate (hcleanup : w.Confines D (e.cleanup job)) (hanalysis : w.Confines D (e.analysis job)) :
    w.Keeps D (e.evaluate job none w).2 := by
  have hbefore := hcleanup.keeps_execute
  have hmiddle := hbefore.trans (hanalysis.of_descends hbefore.descends).keeps_execute
  exact hmiddle.trans (hcleanup.of_descends hmiddle.descends).keeps_execute

end Evaluator

end CrateAudit
