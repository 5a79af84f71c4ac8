import CrateAudit.Proofs.Session.Launches
import Mathlib.Algebra.Order.Ring.Int

/-!
# Time limits

An audit limits the analysis of every crate to a number of seconds, and a preparation may limit its command
in the same way. The limit is given to the commands as a 64-bit number of nanoseconds. So it is kept up to
9223372036 seconds only; above that the number wraps around, and the command has another deadline or none
(`deadline_eq_limit_iff`).
-/

namespace CrateAudit

open Bytes

/-! ### Seconds in nanoseconds -/

/-- The nanoseconds of a number of seconds, kept in 64 bits. -/
def wrapped (seconds : Int64) : ℤ := (seconds.toInt * 10 ^ 9).bmod (2 ^ 64)

theorem toInt_ofSeconds (seconds : Int64) :
    (Duration.ofSeconds seconds).nanoseconds.toInt = wrapped seconds := by
  rw [Duration.ofSeconds, Int64.toInt_mul]
  rfl

/-- The largest number of seconds whose nanoseconds have 63 bits. -/
def maxSeconds : ℤ := 9223372036

theorem wrapped_eq_iff {seconds : Int64} (h : 0 < seconds) :
    wrapped seconds = seconds.toInt * 10 ^ 9 ↔ seconds.toInt ≤ maxSeconds := by
  have hpos : 0 < seconds.toInt := Int64.lt_iff_toInt_lt.mp h
  unfold maxSeconds
  constructor
  · intro heq
    have hlt := (Duration.ofSeconds seconds).nanoseconds.toInt_lt
    rw [toInt_ofSeconds, heq] at hlt
    omega
  · intro hle
    exact Int.bmod_eq_of_le (by omega) (by omega)

/-- The deadline of a command, if its time is positive. -/
theorem Launch.deadline_eq (l : Launch) :
    l.deadline = if 0 < l.timeout.nanoseconds.toInt then some l.timeout.nanoseconds.toInt.toNat else none := by
  have hpos : 0 < l.timeout.nanoseconds ↔ 0 < l.timeout.nanoseconds.toInt := Int64.lt_iff_toInt_lt
  simp only [deadline, hpos]
  rfl

/-- A command keeps to a number of seconds exactly if its nanoseconds have 63 bits. -/
theorem Launch.deadline_ofSeconds_eq_iff {seconds : Int64} (h : 0 < seconds) {l : Launch}
    (hl : l.timeout = Duration.ofSeconds seconds) :
    l.deadline = some (seconds.toInt.toNat * 10 ^ 9) ↔ seconds.toInt ≤ maxSeconds := by
  have hpos : 0 < seconds.toInt := Int64.lt_iff_toInt_lt.mp h
  rw [deadline_eq, hl, toInt_ofSeconds, ← wrapped_eq_iff h, Option.ite_none_right_eq_some, Option.some.injEq]
  constructor
  · rintro ⟨hwrapped, heq⟩
    omega
  · intro heq
    omega

/-! ### What a command line asks for -/

namespace CommandLine

theorem eq_ok_of_toOption {ε α : Type} {x : Except ε α} {a : α} (h : x.toOption = some a) : x = .ok a := by
  cases x with
  | error e => contradiction
  | ok b => exact congrArg Except.ok (Option.some.inj h)

deriving instance DecidableEq for Invocation

theorem pos_of_positive {name : String} {argument : Bytes} {n : Int64} (h : positive name argument = .ok n) :
    0 < n := by
  unfold positive at h
  cases hread : (toInt64? argument).filter (0 < ·) with
  | none =>
    rw [hread] at h
    contradiction
  | some m =>
    rw [hread] at h
    obtain rfl := Except.ok.inj h
    exact of_decide_eq_true (Option.filter_eq_some_iff.mp hread).2

/-- The numbers of an invocation are positive. -/
def Invocation.Positive : Invocation → Prop
  | .run _ _ workers seconds => 0 < workers ∧ 0 < seconds
  | .preprocess _ workers => 0 < workers
  | _ => True

theorem positive_of_invocation {c : Command} {arguments : List Bytes} {invocation : Invocation}
    (h : c.invocation arguments = .ok invocation) : invocation.Positive := by
  unfold Command.invocation at h
  split at h
  · rename_i list dir workers seconds
    obtain ⟨w, hworkers, h⟩ := exists_of_bind_eq_ok h
    obtain ⟨n, hseconds, h⟩ := exists_of_bind_eq_ok h
    obtain rfl := Except.ok.inj h
    exact ⟨pos_of_positive hworkers, pos_of_positive hseconds⟩
  · contradiction
  · rename_i dir workers
    obtain ⟨w, hworkers, h⟩ := exists_of_bind_eq_ok h
    obtain rfl := Except.ok.inj h
    exact pos_of_positive hworkers
  all_goals first
    | contradiction
    | obtain rfl := Except.ok.inj h
      trivial

theorem one_le_of_pos {n : Int64} (h : 0 < n) : 1 ≤ n :=
  Int64.le_iff_toInt_le.mpr (show 0 < n.toInt from Int64.lt_iff_toInt_lt.mp h)

/-- What a command line asks for has passed the checks. -/
theorem positive_of_read {args : List Bytes} {invocation : Invocation} {options : Options}
    (h : read args = .ok (invocation, options)) : invocation.Positive := by
  unfold read at h
  obtain ⟨⟨command, rest⟩, -, h⟩ := exists_of_bind_eq_ok h
  obtain ⟨p, -, h⟩ := exists_of_bind_eq_ok h
  split_ifs at h
  · obtain ⟨rfl, rfl⟩ := Prod.mk.inj (Except.ok.inj h)
    trivial
  · obtain ⟨result, hresult, h⟩ := exists_of_bind_eq_ok h
    obtain ⟨rfl, rfl⟩ := Prod.mk.inj (Except.ok.inj h)
    exact positive_of_invocation hresult

/-- The time limit that an invocation asks for, in seconds. For a preparation it must be positive. -/
def Invocation.limit? (options : Options) : Invocation → Option Int64
  | .run _ _ _ seconds => some seconds
  | .preprocess .. => if 0 < options.timeout then some options.timeout else none
  | _ => none

/-- What an invocation works on: the configuration and the jobs. -/
def Invocation.scope (options : Options) (invocation : Invocation) : Step (Config × List Job) := do
  let found ← Setup.setUp options
  let jobs ← match invocation with
    | .run list dir workers seconds => Run.readJobs ⟨list, dir, workers, seconds, .lenient⟩
    | .preprocess dir workers => Prepare.jobs ⟨dir, workers, options.known, options.timeout⟩
    | _ => pure []
  return (found.2, jobs)

end CommandLine

open CommandLine (Invocation Options)

/-- The command that is limited. -/
def Evaluator.limited (e : Evaluator) (job : Job) : Invocation → Launch
  | .run .. => e.analysis job
  | _ => e.launch e.config.preprocess job

/-- The commands for a job. -/
def Evaluator.launches (e : Evaluator) (invocation : Invocation) (job : Job) : List Launch :=
  match invocation with
  | .run .. => [e.cleanup job, e.limited job invocation, e.cleanup job]
  | .preprocess .. => [e.limited job invocation, e.cleanup job]
  | _ => []

/-! ### Whole invocations -/

theorem launches_invoke_eq (args : List Bytes) (s : Session) :
    (invoke args s).2.world.launches = ((perform args).run s).2.world.launches := by
  unfold invoke
  cases (perform args).run s with
  | mk r s' =>
    cases r with
    | ok _ => rfl
    | error fault => exact s'.launches_failed fault

/-- The commands of what follows the setting up, if that succeeds and jobs are found. -/
theorem launches_setUp_bind (options : Options) (f : Config → Step Unit) (jobs : Step (List Job))
    (g : Config → Job → List Launch)
    (h : ∀ config s, ((f config).run s).2.world.launches =
      s.world.launches ++ Step.asked (fun jobs => jobs.flatMap (g config)) (jobs.run s).1) (s : Session) :
    ((Setup.setUp options >>= fun found => f found.2).run s).2.world.launches = s.world.launches ++
      Step.asked (fun found => found.2.flatMap (g found.1))
        ((Setup.setUp options >>= fun found => jobs >>= fun jobs => pure (found.2, jobs)).run s).1 := by
  have hquiet : ((Setup.setUp options).run s).2.world.launches = s.world.launches :=
    (Setup.quiet_setUp options s).trans (List.append_nil _)
  rw [Step.run_bind, Step.run_bind, ← hquiet]
  cases (Setup.setUp options).run s with
  | mk r s' =>
    cases r with
    | error fault => exact (List.append_nil _).symm
    | ok found =>
      have hasked := Step.asked_bind_pure jobs (fun jobs => (found.2, jobs))
        (fun found => found.2.flatMap (g found.1)) s'
      show ((f found.2).run s').2.world.launches = _ ++ Step.asked _ ((jobs >>= _).run s').1
      rw [h found.2 s', hasked]

/-- **An invocation** with a time limit launches the commands of its jobs, each with the limit in
nanoseconds. -/
theorem launches_invoke {args : List Bytes} {invocation : Invocation} {options : Options} {seconds : Int64}
    (hread : CommandLine.read args = .ok (invocation, options))
    (hlimit : invocation.limit? options = some seconds) (s : Session) :
    (invoke args s).2.world.launches = s.world.launches ++
      Step.asked
        (fun found => found.2.flatMap (Evaluator.launches ⟨found.1, Duration.ofSeconds seconds⟩ invocation))
        ((invocation.scope options).run s).1 := by
  have hpositive := CommandLine.positive_of_read hread
  rw [launches_invoke_eq]
  unfold perform
  rw [hread, Step.run_ok_bind]
  cases invocation with
  | run list dir workers n =>
    obtain rfl := Option.some.inj hlimit
    let request (config : Config) : Run.Request :=
      ⟨list, dir, workers, n, if config.strict || options.strict then .strict else .lenient⟩
    exact launches_setUp_bind options (fun config => Run.run config (request config))
      (Run.readJobs ⟨list, dir, workers, n, .lenient⟩) _
      (fun config s => Run.launches_run config (request config) s) s
  | preprocess dir workers =>
    obtain ⟨hpos, heq⟩ := Option.ite_none_right_eq_some.mp hlimit
    obtain rfl := Option.some.inj heq
    let request : Prepare.Request := ⟨dir, workers, options.known, options.timeout⟩
    have hworkers : ¬ request.workers < 1 := Int64.not_lt.mpr (CommandLine.one_le_of_pos hpositive)
    have hseconds : ¬ request.seconds < 0 := Int64.not_lt.mpr (Int64.le_of_lt hpos)
    exact launches_setUp_bind options (fun config => Prepare.run config request) (Prepare.jobs request) _
      (fun config s => Prepare.launches_prepareAll config hworkers hseconds s) s
  | config => contradiction
  | version => contradiction
  | help => contradiction

/-- A time limit is positive. -/
theorem pos_of_limit {args : List Bytes} {invocation : Invocation} {options : Options} {seconds : Int64}
    (hread : CommandLine.read args = .ok (invocation, options))
    (hlimit : invocation.limit? options = some seconds) : 0 < seconds := by
  have hpositive := CommandLine.positive_of_read hread
  cases invocation with
  | run list dir workers n =>
    obtain rfl := Option.some.inj hlimit
    exact hpositive.2
  | preprocess dir workers =>
    obtain ⟨hpos, heq⟩ := Option.ite_none_right_eq_some.mp hlimit
    obtain rfl := Option.some.inj heq
    exact hpos
  | config => contradiction
  | version => contradiction
  | help => contradiction

theorem Evaluator.timeout_limited (e : Evaluator) (job : Job) (invocation : Invocation) :
    (e.limited job invocation).timeout = e.timeout := by
  cases invocation <;> rfl

/-- **Time limits**: an invocation with a time limit launches the commands of its jobs, and the one that is
limited has its deadline after the limit exactly up to `maxSeconds`; otherwise the deadline is that of the
wrapped number of nanoseconds, if there is one at all. -/
theorem deadline_eq_limit_iff {args : List Bytes} {invocation : Invocation} {options : Options}
    {seconds : Int64}
    (hread : CommandLine.read args = .ok (invocation, options))
    (hlimit : invocation.limit? options = some seconds) (s : Session) :
    (invoke args s).2.world.launches = s.world.launches ++
      Step.asked
        (fun found => found.2.flatMap (Evaluator.launches ⟨found.1, Duration.ofSeconds seconds⟩ invocation))
        ((invocation.scope options).run s).1 ∧
    ∀ config job,
      let deadline := (Evaluator.limited ⟨config, Duration.ofSeconds seconds⟩ job invocation).deadline
      (deadline = some (seconds.toInt.toNat * 10 ^ 9) ↔ seconds.toInt ≤ maxSeconds) ∧
        deadline = if 0 < wrapped seconds then some (wrapped seconds).toNat else none := by
  refine ⟨launches_invoke hread hlimit s, ?_⟩
  intro config job deadline
  have htimeout := Evaluator.timeout_limited ⟨config, Duration.ofSeconds seconds⟩ job invocation
  constructor
  · exact Launch.deadline_ofSeconds_eq_iff (pos_of_limit hread hlimit) htimeout
  · have hdeadline := Launch.deadline_eq (Evaluator.limited ⟨config, Duration.ofSeconds seconds⟩ job invocation)
    rwa [htimeout, toInt_ofSeconds] at hdeadline

/-- A session with a list of one crate. -/
def oneCrate : Session :=
  { host := ⟨[], ⟨0⟩, 0, []⟩
    world := { tree := { entries := [([lit "list"], .file (lit "a\n"))] }, environment := ⟨[]⟩ } }

/-- A command line that gives five seconds to each crate. -/
def fiveSeconds : List Bytes := ["run", "list", "crates", "1", "5"].map lit

/-- The audit that `fiveSeconds` asks for. -/
def shortAudit : Invocation := .run (lit "list") (lit "crates") 1 5

/-- Five seconds are kept. -/
theorem deadline_fiveSeconds :
    CommandLine.read fiveSeconds = .ok (shortAudit, {}) ∧ shortAudit.limit? {} = some 5 ∧
      ∃ config job, (invoke fiveSeconds oneCrate).2.world.launches =
          Evaluator.launches ⟨config, Duration.ofSeconds 5⟩ shortAudit job ∧
        (Evaluator.limited ⟨config, Duration.ofSeconds 5⟩ job shortAudit).deadline = some 5000000000 := by
  have hread : CommandLine.read fiveSeconds = .ok (shortAudit, {}) := rfl
  have hscope : ((shortAudit.scope {}).run oneCrate).1.toOption =
      some (({} : Config), [⟨lit "a", lit "crates/a"⟩]) := by decide +kernel
  obtain ⟨hlaunches, hdeadline⟩ := deadline_eq_limit_iff hread rfl oneCrate
  refine ⟨hread, rfl, {}, ⟨lit "a", lit "crates/a"⟩, ?_, (hdeadline _ _).1.mpr (by decide)⟩
  cases hfound : ((shortAudit.scope {}).run oneCrate).1 with
  | error fault =>
    rw [hfound] at hscope
    contradiction
  | ok found =>
    rw [hfound] at hscope
    obtain rfl := Option.some.inj hscope
    rw [hlaunches, hfound]
    rfl

/-- A command line that gives more time than 64 bits of nanoseconds hold. -/
def longPreparation : List Bytes := ["preprocess", "crates", "1", "--timeout", "18446744074"].map lit

/-- Almost six centuries wrap around to less than a third of a second, and half of them to no deadline at
all. -/
theorem deadline_longPreparation :
    ((CommandLine.read longPreparation).toOption.bind fun read => read.1.limit? read.2) =
        some 18446744074 ∧
      ∀ config job invocation,
        (Evaluator.limited ⟨config, Duration.ofSeconds 18446744074⟩ job invocation).deadline = some 290448384 ∧
        (Evaluator.limited ⟨config, Duration.ofSeconds 9223372037⟩ job invocation).deadline = none := by
  refine ⟨by decide +kernel, ?_⟩
  intro config job invocation
  rw [Launch.deadline_eq, Launch.deadline_eq, Evaluator.timeout_limited, Evaluator.timeout_limited,
    toInt_ofSeconds, toInt_ofSeconds]
  decide +kernel

end CrateAudit
