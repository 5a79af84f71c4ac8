import CrateAudit.Proofs.Execution

/-!
# What an execution tells

Whether a command succeeds is a matter of three questions: which executable file there is for it
(`World.Offers`), what the program does in the call that is made (`World.Starts`), and what becomes of a process
that does that before the deadline and the cancellation of its run (`Launch.Leads`). None of the three looks at an
execution.

Main result: an execution answers them (`World.execute_result`). It has no fault exactly if a process was started
that exited with status zero by itself; the other outcomes are told apart by the exit code, by whether the deadline
was met and by the kind of the fault, and a fault is of one kind at most.
-/

namespace CrateAudit

open Bytes

/-! ### Kinds of faults -/

/-- The kinds of faults that a caller tells apart. -/
inductive FaultKind where
  | missingRequirements
  | timeout
  | commandFailure

namespace Fault

/-- The kinds of a fault, which keeps them when it is reported within a context. -/
inductive Wraps : Fault → FaultKind → Prop
  | missingCommand (path : Bytes) : Wraps (.missingCommand path) .missingRequirements
  | timedOut (path : Bytes) (limit : Duration) : Wraps (.timedOut path limit) .timeout
  | commandFailed (path : Bytes) (fault : CommandFault) : Wraps (.commandFailed path fault) .commandFailure
  | during (context : Bytes) {fault : Fault} {kind : FaultKind} (h : Wraps fault kind) :
      Wraps (.during context fault) kind

theorem Wraps.eq {fault : Fault} {kind kind' : FaultKind} (h : fault.Wraps kind) (h' : fault.Wraps kind') :
    kind = kind' := by
  induction h with
  | missingCommand => cases h'; rfl
  | timedOut => cases h'; rfl
  | commandFailed => cases h'; rfl
  | during _ _ ih =>
    cases h' with
    | during _ hinner => exact ih hinner

theorem wraps_missingCommand_iff {path : Bytes} {kind : FaultKind} :
    (missingCommand path).Wraps kind ↔ kind = .missingRequirements :=
  ⟨fun h => h.eq (.missingCommand path), fun h => h ▸ .missingCommand path⟩

theorem wraps_timedOut_iff {path : Bytes} {limit : Duration} {kind : FaultKind} :
    (timedOut path limit).Wraps kind ↔ kind = .timeout :=
  ⟨fun h => h.eq (.timedOut path limit), fun h => h ▸ .timedOut path limit⟩

theorem wraps_commandFailed_iff {path : Bytes} {fault : CommandFault} {kind : FaultKind} :
    (commandFailed path fault).Wraps kind ↔ kind = .commandFailure :=
  ⟨fun h => h.eq (.commandFailed path fault), fun h => h ▸ .commandFailed path fault⟩

theorem not_wraps_canceled {path : Bytes} {kind : FaultKind} : ¬(during path .canceled).Wraps kind := by
  rintro (_ | _ | _ | ⟨_, h⟩)
  cases h

end Fault

/-! ### The executable file -/

namespace World

/-- The executable file that a world has for a command: the one that a command with a separator names, and otherwise
the first one in the directories of the search path, which counts only if its path is rooted. -/
inductive Offers (w : World) (command : Bytes) : Bytes → Prop
  | named (hslash : Path.slash ∈ command) (hfile : w.isExecutable command) : Offers w command command
  | searched (hslash : Path.slash ∉ command) {front back : List Bytes} {dir : Bytes}
      (hpath : w.searchPath = front ++ dir :: back)
      (hfirst : ∀ earlier ∈ front, ¬w.isExecutable (Path.join earlier command))
      (hfile : w.isExecutable (Path.join dir command)) (hrooted : Path.isRooted (Path.join dir command)) :
      Offers w command (Path.join dir command)

theorem executable?_eq_some_iff {w : World} {command file : Bytes} :
    w.executable? command = some file ↔ w.Offers command file := by
  unfold executable?
  by_cases hslash : Path.slash ∈ command
  · rw [if_pos (List.contains_iff_mem.mpr hslash), Option.ite_none_right_eq_some, Option.some.injEq]
    constructor
    · rintro ⟨hfile, rfl⟩
      exact .named hslash hfile
    · rintro (⟨-, hfile⟩ | ⟨hslash', -⟩)
      · exact ⟨hfile, rfl⟩
      · contradiction
  · rw [if_neg (mt List.contains_iff_mem.mp hslash), Option.filter_eq_some_iff, List.find?_map, Option.map_eq_some_iff]
    constructor
    · rintro ⟨⟨dir, hfind, rfl⟩, hrooted⟩
      obtain ⟨hfile, front, back, hpath, hfirst⟩ := List.find?_eq_some_iff_append.mp hfind
      exact .searched hslash hpath (fun earlier hmem => by simpa using hfirst earlier hmem) hfile hrooted
    · rintro (⟨hslash', -⟩ | ⟨-, hpath, hfirst, hfile, hrooted⟩)
      · contradiction
      · refine ⟨⟨_, List.find?_eq_some_iff_append.mpr ⟨hfile, _, _, hpath, ?_⟩, rfl⟩, hrooted⟩
        intro earlier hmem
        simpa using hfirst earlier hmem

/-! ### The start -/

/-- A command that is started, with what its program does: the run has not been canceled yet, no setting and no
argument holds a zero byte, and from the working directory the executable file is a program that the system runs. -/
structure Calls (w : World) (l : Launch) (cancellation : Option Nat) (file : Bytes) (call : Call) (a : Action) :
    Prop where
  cancellation_ne : cancellation ≠ some 0
  env : ∀ entry ∈ l.command.env, 0 ∉ entry
  args : ∀ arg ∈ l.command.args, 0 ∉ arg
  directory : w.workingDirectory l.dir = .ok call.directory
  program : ∃ place action, (w.tree.inside call.directory).find true file = .ok (place, .program (.runs action)) ∧
    call.program = place.getLast?.getD [] ∧ a = action call
  args_eq : call.args = l.command.args
  env_eq : call.env = w.environmentOf l.command.env

/-- What the program of a command does, if the command has an executable file and is started. -/
def Starts (w : World) (l : Launch) (cancellation : Option Nat) (a : Action) : Prop :=
  ∃ file call, w.Offers l.command.path file ∧ w.Calls l cancellation file call a

theorem start_eq_ok_iff {w : World} {l : Launch} {cancellation : Option Nat} {file : Bytes} {call : Call}
    {a : Action} : w.start l file cancellation = .ok (call, a) ↔ w.Calls l cancellation file call a := by
  unfold start
  dsimp only
  -- the conditions are split in the order in which they are checked
  by_cases hcancellation : cancellation = some 0
  · rw [if_pos hcancellation]
    exact ⟨nofun, fun h => absurd hcancellation h.cancellation_ne⟩
  rw [if_neg hcancellation]
  by_cases henv : ∀ entry ∈ l.command.env, 0 ∉ entry
  swap
  · rw [if_pos (by simpa using henv)]
    exact ⟨nofun, fun h => absurd h.env henv⟩
  rw [if_neg (by simpa using henv)]
  by_cases hargs : ∀ arg ∈ l.command.args, 0 ∉ arg
  swap
  · rw [if_pos (by simpa using hargs)]
    exact ⟨nofun, fun h => absurd h.args hargs⟩
  rw [if_neg (by simpa using hargs)]
  cases hdirectory : w.workingDirectory l.dir with
  | error refusal => exact ⟨nofun, fun h => nomatch hdirectory.symm.trans h.directory⟩
  | ok directory =>
    let called (place : Location) : Call :=
      ⟨place.getLast?.getD [], l.command.args, w.environmentOf l.command.env, directory⟩
    have hcalls : w.Calls l cancellation file call a ↔ ∃ place action,
        (w.tree.inside directory).find true file = .ok (place, .program (.runs action)) ∧
        called place = call ∧ action (called place) = a := by
      constructor
      · rintro ⟨-, -, -, hdirectory', ⟨place, action, hfind, hprogram, ha⟩, hargs', henv'⟩
        obtain rfl : directory = call.directory := Except.ok.inj (hdirectory.symm.trans hdirectory')
        have hcall : called place = call := by simp only [called, ← hprogram, ← hargs', ← henv']
        exact ⟨place, action, hfind, hcall, by rw [hcall, ha]⟩
      · rintro ⟨place, action, hfind, rfl, rfl⟩
        exact ⟨hcancellation, henv, hargs, hdirectory, ⟨place, action, hfind, rfl, rfl⟩, rfl, rfl⟩
    rw [hcalls]
    cases hfind : (w.tree.inside directory).find true file with
    | error refusal => simp [hfind, Except.mapError, bind, Except.bind]
    | ok found =>
      obtain ⟨place, entry⟩ := found
      rcases entry with _ | _ | _ | (_ | action)
      all_goals simp [hfind, called, Except.mapError, bind, Except.bind, pure, Except.pure]

theorem starts_iff {w : World} {l : Launch} {cancellation : Option Nat} {a : Action} :
    w.Starts l cancellation a ↔
      ∃ file call, w.executable? l.command.path = some file ∧ w.start l file cancellation = .ok (call, a) := by
  simp only [Starts, executable?_eq_some_iff, start_eq_ok_iff]

end World

/-! ### The end -/

namespace Launch

/-- What is to end a process, and at which moment from its start: the deadline, if the timeout is positive, or the
cancellation of the run, whichever comes first. -/
inductive Cuts (l : Launch) (cancellation : Option Nat) : Interruption → Nat → Prop
  | deadline (hpositive : 0 < l.timeout.nanoseconds)
      (hfirst : ∀ moment ∈ cancellation, l.timeout.nanoseconds.toNatClampNeg ≤ moment) :
      Cuts l cancellation .deadline l.timeout.nanoseconds.toNatClampNeg
  | cancellation {moment : Nat} (hmoment : cancellation = some moment)
      (hfirst : 0 < l.timeout.nanoseconds → moment < l.timeout.nanoseconds.toNatClampNeg) :
      Cuts l cancellation .cancellation moment

/-- What becomes of a process that does something: what ended it, if anything, and how it ended. A process that lasts
longer than it may is asked to end; one that goes on nevertheless is killed after a grace period. -/
inductive Leads (l : Launch) (cancellation : Option Nat) (a : Action) : Option Interruption → Ending → Prop
  | itself (h : ∀ cause moment, l.Cuts cancellation cause moment → a.lasts ≤ moment) :
      Leads l cancellation a none a.ending
  | asked {cause : Interruption} {moment : Nat} (hcuts : l.Cuts cancellation cause moment)
      (hlasts : moment < a.lasts) (hasked : a.ignoresTermination = false) :
      Leads l cancellation a (some cause) a.whenAsked
  | outlasts {cause : Interruption} {moment : Nat} (hcuts : l.Cuts cancellation cause moment)
      (hlasts : moment < a.lasts) (hignores : a.ignoresTermination)
      (hgrace : a.lasts ≤ moment + l.killGrace.nanoseconds.toNatClampNeg) :
      Leads l cancellation a (some cause) a.ending
  | killed {cause : Interruption} {moment : Nat} (hcuts : l.Cuts cancellation cause moment)
      (hlasts : moment < a.lasts) (hignores : a.ignoresTermination)
      (hgrace : moment + l.killGrace.nanoseconds.toNatClampNeg < a.lasts) :
      Leads l cancellation a (some cause) (.dies 9)

variable {l : Launch} {cancellation : Option Nat} {a : Action}

theorem firstInterruption_eq_some_iff {cause : Interruption} {moment : Nat} :
    firstInterruption l.deadline cancellation = some (moment, cause) ↔ l.Cuts cancellation cause moment := by
  unfold Launch.deadline
  constructor
  · intro h
    split_ifs at h with hpositive
    · rcases cancellation with _ | c
      · obtain ⟨rfl, rfl⟩ := Prod.mk.inj (Option.some.inj h)
        exact .deadline hpositive nofun
      · simp only [firstInterruption] at h
        split_ifs at h with hfirst
        · obtain ⟨rfl, rfl⟩ := Prod.mk.inj (Option.some.inj h)
          exact .deadline hpositive (by simpa using hfirst)
        · obtain ⟨rfl, rfl⟩ := Prod.mk.inj (Option.some.inj h)
          exact .cancellation rfl fun _ => Nat.lt_of_not_le hfirst
    · rcases cancellation with _ | c
      · contradiction
      · obtain ⟨rfl, rfl⟩ := Prod.mk.inj (Option.some.inj h)
        exact .cancellation rfl fun h => absurd h hpositive
  · rintro (⟨hpositive, hfirst⟩ | ⟨rfl, hfirst⟩)
    · rw [if_pos hpositive]
      rcases cancellation with _ | c
      · rfl
      · simp [firstInterruption, hfirst c rfl]
    · split_ifs with hpositive
      · simp [firstInterruption, hfirst hpositive]
      · rfl

/-- Something becomes of every process. -/
theorem exists_leads (l : Launch) (cancellation : Option Nat) (a : Action) :
    ∃ cause? ending, l.Leads cancellation a cause? ending := by
  by_cases hitself : ∀ cause moment, l.Cuts cancellation cause moment → a.lasts ≤ moment
  · exact ⟨_, _, .itself hitself⟩
  · push Not at hitself
    obtain ⟨cause, moment, hcuts, hlasts⟩ := hitself
    by_cases hignores : a.ignoresTermination
    · obtain hgrace | hgrace := le_or_gt a.lasts (moment + l.killGrace.nanoseconds.toNatClampNeg)
      · exact ⟨_, _, .outlasts hcuts hlasts hignores hgrace⟩
      · exact ⟨_, _, .killed hcuts hlasts hignores hgrace⟩
    · exact ⟨_, _, .asked hcuts hlasts (Bool.eq_false_of_not_eq_true hignores)⟩

/-- The conclusion of a process that was started. -/
def conclude : Option Interruption → Ending → Conclusion
  | none, ending => .ended ending
  | some cause, ending => .interrupted cause ending

theorem conclude_inj {cause? cause?' : Option Interruption} {ending ending' : Ending}
    (h : conclude cause? ending = conclude cause?' ending') : cause? = cause?' ∧ ending = ending' := by
  rcases cause? with _ | cause <;> rcases cause?' with _ | cause' <;> simp_all [conclude]

theorem Leads.outlive_fst {cause? : Option Interruption} {ending : Ending}
    (h : l.Leads cancellation a cause? ending) : (l.outlive cancellation a).1 = conclude cause? ending := by
  unfold outlive
  cases h with
  | itself hitself =>
    cases hfirst : firstInterruption l.deadline cancellation with
    | none => rfl
    | some interruption =>
      obtain ⟨moment, cause⟩ := interruption
      simp only [hitself cause moment (firstInterruption_eq_some_iff.mp hfirst), ↓reduceIte, conclude]
  | asked hcuts hlasts hasked =>
    simp [firstInterruption_eq_some_iff.mpr hcuts, Nat.not_le_of_lt hlasts, hasked, conclude]
  | outlasts hcuts hlasts hignores hgrace =>
    simp [firstInterruption_eq_some_iff.mpr hcuts, Nat.not_le_of_lt hlasts, hignores, hgrace, conclude]
  | killed hcuts hlasts hignores hgrace =>
    simp [firstInterruption_eq_some_iff.mpr hcuts, Nat.not_le_of_lt hlasts, hignores, Nat.not_le_of_lt hgrace,
      conclude]

/-- Only one thing becomes of a process. -/
theorem Leads.eq {cause? cause?' : Option Interruption} {ending ending' : Ending}
    (h : l.Leads cancellation a cause? ending) (h' : l.Leads cancellation a cause?' ending') :
    cause?' = cause? ∧ ending' = ending :=
  conclude_inj (h'.outlive_fst.symm.trans h.outlive_fst)

end Launch

/-! ### What a conclusion tells -/

namespace Execution

theorem timedOut_iff (e : Execution) : e.timedOut ↔ ∃ ending, e.conclusion = .interrupted .deadline ending := by
  unfold timedOut
  split <;> simp_all

theorem isFound_eq_false_iff (e : Execution) : e.isFound = false ↔ e.conclusion = .missing := by
  simp [isFound]

theorem exitCode_of_conclude {e : Execution} {cause? : Option Interruption} {ending : Ending}
    (h : e.conclusion = Launch.conclude cause? ending) : e.exitCode = ending.code := by
  rcases cause? with _ | cause <;> simp [exitCode, h, Launch.conclude]

/-- A fault is of a kind only if the conclusion is one of those that have it. -/
theorem exists_wraps_iff (e : Execution) (kind : FaultKind) :
    (∃ fault ∈ e.fault?, fault.Wraps kind) ↔ match kind with
      | .missingRequirements => e.conclusion = .missing
      | .timeout => ∃ ending, e.conclusion = .interrupted .deadline ending
      | .commandFailure => (∃ fault, e.conclusion = .unstarted fault) ∨
          ∃ ending, e.conclusion = .ended ending ∧ ending ≠ .exits 0 := by
  unfold fault?
  dsimp only
  split <;> cases kind <;>
    simp_all [Fault.wraps_missingCommand_iff, Fault.wraps_timedOut_iff, Fault.wraps_commandFailed_iff,
      Fault.not_wraps_canceled]

end Execution

namespace World

variable (w : World) (l : Launch) (cancellation : Option Nat)

/-- A command has no executable file, or it has one but is not started, or one process is started and comes to one
end. -/
theorem execute_conclusion :
    (∀ file, ¬w.Offers l.command.path file) ∧ (∀ a, ¬w.Starts l cancellation a) ∧
        (w.execute l cancellation).1.conclusion = .missing ∨
    (∃ file, w.Offers l.command.path file) ∧ (∀ a, ¬w.Starts l cancellation a) ∧
        (∃ fault, (w.execute l cancellation).1.conclusion = .unstarted fault) ∨
    (∃ file, w.Offers l.command.path file) ∧ ∃ a cause? ending,
        (∀ a', w.Starts l cancellation a' ↔ a' = a) ∧
        (∀ cause?' ending', l.Leads cancellation a cause?' ending' ↔ cause?' = cause? ∧ ending' = ending) ∧
        (w.execute l cancellation).1.conclusion = Launch.conclude cause? ending := by
  have hlaunched : (w.launched l).executable? l.command.path = w.executable? l.command.path := rfl
  have hsame (file : Bytes) : (w.launched l).start l file cancellation = w.start l file cancellation := rfl
  rw [execute_eq, hlaunched]
  simp only [starts_iff, ← executable?_eq_some_iff]
  cases w.executable? l.command.path with
  | none => simp
  | some file =>
    simp only [hsame]
    cases hstart : w.start l file cancellation with
    | error fault => simp [hstart]
    | ok started =>
      obtain ⟨call, a⟩ := started
      obtain ⟨cause?, ending, hleads⟩ := l.exists_leads cancellation a
      refine .inr (.inr ⟨⟨file, rfl⟩, a, cause?, ending, ?_, ?_, hleads.outlive_fst⟩)
      · intro a'
        simp [hstart, eq_comm]
      · intro cause?' ending'
        exact ⟨hleads.eq, fun h => h.1 ▸ h.2 ▸ hleads⟩

theorem conclusion_eq_missing_iff :
    (w.execute l cancellation).1.conclusion = .missing ↔ ¬∃ file, w.Offers l.command.path file := by
  obtain ⟨hfile, -, hconclusion⟩ | ⟨hfile, -, fault, hconclusion⟩ | ⟨hfile, -, cause?, ending, -, -, hconclusion⟩ :=
    w.execute_conclusion l cancellation
  · simp [hfile, hconclusion]
  · simp [hfile, hconclusion]
  · rcases cause? with _ | cause <;> simp [hfile, hconclusion, Launch.conclude]

theorem conclusion_eq_unstarted_iff :
    (∃ fault, (w.execute l cancellation).1.conclusion = .unstarted fault) ↔
      (∃ file, w.Offers l.command.path file) ∧ ¬∃ a, w.Starts l cancellation a := by
  obtain ⟨hfile, -, hconclusion⟩ | ⟨hfile, hstarts, fault, hconclusion⟩ |
    ⟨-, a, cause?, ending, hstarts, -, hconclusion⟩ := w.execute_conclusion l cancellation
  · simp [hfile, hconclusion]
  · simp [hfile, hstarts, hconclusion]
  · rcases cause? with _ | cause <;> simp [hstarts, hconclusion, Launch.conclude]

theorem conclusion_eq_conclude_iff (cause? : Option Interruption) (ending : Ending) :
    (w.execute l cancellation).1.conclusion = Launch.conclude cause? ending ↔
      ∃ a, w.Starts l cancellation a ∧ l.Leads cancellation a cause? ending := by
  obtain ⟨-, hstarts, hconclusion⟩ | ⟨-, hstarts, fault, hconclusion⟩ |
    ⟨-, a, cause?', ending', hstarts, hleads, hconclusion⟩ := w.execute_conclusion l cancellation
  · rcases cause? with _ | cause <;> simp [hstarts, hconclusion, Launch.conclude]
  · rcases cause? with _ | cause <;> simp [hstarts, hconclusion, Launch.conclude]
  · simp only [hstarts, exists_eq_left, hleads, hconclusion]
    constructor
    · intro h
      exact Launch.conclude_inj h.symm
    · rintro ⟨rfl, rfl⟩
      rfl

/-- **What an execution tells**, for every world, command and cancellation.

There is no fault exactly if the process was started and exited with status zero without being ended. The deadline is
said to have ended it exactly if it did, and exactly then the fault is a timeout. Requirements are missing exactly if
there is no executable file, and exactly then no start was tried. A command failed if it was found but not started, or
if its process ended by itself in any other way. Something becomes of every process that is started; the exit code is
its status if it exited, and -1 if it died of a signal or if there was none. A fault is of at most one of the three
kinds. -/
theorem execute_result (w : World) (l : Launch) (cancellation : Option Nat) :
    let e := (w.execute l cancellation).1
    (e.fault? = none ↔ ∃ a, w.Starts l cancellation a ∧ l.Leads cancellation a none (.exits 0)) ∧
    (e.timedOut ↔ ∃ ending a, w.Starts l cancellation a ∧ l.Leads cancellation a (some .deadline) ending) ∧
    (e.timedOut ↔ ∃ fault ∈ e.fault?, fault.Wraps .timeout) ∧
    ((∃ fault ∈ e.fault?, fault.Wraps .missingRequirements) ↔ ¬∃ file, w.Offers l.command.path file) ∧
    (e.isFound = false ↔ ¬∃ file, w.Offers l.command.path file) ∧
    ((∃ fault ∈ e.fault?, fault.Wraps .commandFailure) ↔
      ((∃ file, w.Offers l.command.path file) ∧ ¬∃ a, w.Starts l cancellation a) ∨
      ∃ ending, (∃ a, w.Starts l cancellation a ∧ l.Leads cancellation a none ending) ∧ ending ≠ .exits 0) ∧
    (∀ a, w.Starts l cancellation a → ∃ cause? ending, l.Leads cancellation a cause? ending ∧
      e.exitCode = match ending with
        | .exits status => (status.toNat : Int)
        | .dies _ => -1) ∧
    ((¬∃ a, w.Starts l cancellation a) → e.exitCode = -1) ∧
    (∀ fault ∈ e.fault?, ∀ kind kind', fault.Wraps kind → fault.Wraps kind' → kind = kind') := by
  intro e
  have hconclude := w.conclusion_eq_conclude_iff l cancellation
  have hmissing := w.conclusion_eq_missing_iff l cancellation
  have hunstarted := w.conclusion_eq_unstarted_iff l cancellation
  have htimedOut := e.timedOut_iff
  refine ⟨?_, ?_, ?_, ?_, ?_, ?_, ?_, ?_, ?_⟩
  · rw [e.fault?_eq_none_iff]
    exact hconclude none (.exits 0)
  · rw [htimedOut]
    exact exists_congr (hconclude (some .deadline))
  · rw [htimedOut, e.exists_wraps_iff .timeout]
  · rw [e.exists_wraps_iff .missingRequirements, hmissing]
  · rw [e.isFound_eq_false_iff, hmissing]
  · rw [e.exists_wraps_iff .commandFailure, hunstarted]
    exact or_congr_right (exists_congr fun ending => and_congr_left' (hconclude none ending))
  · intro a hstarts
    obtain ⟨cause?, ending, hleads⟩ := l.exists_leads cancellation a
    refine ⟨cause?, ending, hleads, ?_⟩
    rw [Execution.exitCode_of_conclude ((hconclude cause? ending).mpr ⟨a, hstarts, hleads⟩)]
    cases ending <;> rfl
  · intro hstarts
    by_cases hfile : ∃ file, w.Offers l.command.path file
    · obtain ⟨fault, hconclusion⟩ := hunstarted.mpr ⟨hfile, hstarts⟩
      simp [e, Execution.exitCode, hconclusion]
    · simp [e, Execution.exitCode, hmissing.mpr hfile]
  · exact fun _ _ _ _ h h' => h.eq h'

end World

end CrateAudit
