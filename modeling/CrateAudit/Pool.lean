import CrateAudit.Bytes.Basic

/-!
# Worker pools

A pool runs tasks on a fixed number of workers. Waiting tasks are taken in their order, a task as soon
as a worker is free, and each keeps its worker for as long as it lasts. Time is counted in units from
the start of the run, so a run is determined by the number of workers and the lengths of the tasks: the
task in flight that is due first ends next, of several the one that comes first in the input.

A task may end the run: when it is done no further task is started, while those in flight go on to
their ends.
-/

namespace CrateAudit

/-- A task for a pool. -/
structure Task where
  /-- its position in the input -/
  index : Nat
  /-- how long it keeps a worker -/
  delay : Nat
  /-- no task is started once it is done -/
  stops : Bool := false
  deriving DecidableEq

/-- What happens in a pool. -/
inductive Event where
  | started (time index : Nat)
  | finished (time index : Nat)
  deriving DecidableEq

namespace Event

/-- The time and the position of a start. -/
def start? : Event → Option (Nat × Nat)
  | .started time index => some (time, index)
  | .finished .. => none

/-- The time and the position of an end. -/
def finish? : Event → Option (Nat × Nat)
  | .finished time index => some (time, index)
  | .started .. => none

end Event

/-- A task on a worker, with the time at which it ends. -/
structure Flight where
  task : Task
  due : Nat
  deriving DecidableEq

/-- Whether one flight ends before another. -/
def Flight.before (f g : Flight) : Bool :=
  f.due < g.due || (f.due = g.due && f.task.index < g.task.index)

/-- The flight that ends first. -/
def Flight.first? : List Flight → Option Flight
  | [] => none
  | f :: rest =>
    match first? rest with
    | none => some f
    | some g => if g.before f then some g else some f

/-- A pool at a moment of its run. -/
structure Pool where
  workers : Nat
  clock : Nat := 0
  waiting : List Task
  flying : List Flight := []
  /-- what has happened so far -/
  history : List Event := []
  /-- the largest number of tasks in flight so far -/
  peak : Nat := 0

namespace Pool

/-- Gives a waiting task to every free worker. -/
def fill (p : Pool) : Pool :=
  let free := p.workers - p.flying.length
  let fresh := p.waiting.take free
  let flying := p.flying ++ fresh.map fun t => ⟨t, p.clock + t.delay⟩
  { p with
    waiting := p.waiting.drop free
    flying := flying
    history := p.history ++ fresh.map fun t => .started p.clock t.index
    peak := max p.peak flying.length }

/-- Ends a flight: its worker is free again, unless the task stops the run and nothing waits any
more. -/
def finish (p : Pool) (f : Flight) : Pool :=
  { p with
    clock := f.due
    waiting := if f.task.stops then [] else p.waiting
    flying := p.flying.erase f
    history := p.history ++ [.finished f.due f.task.index] }

/-- Runs the pool until a number of tasks has ended or nothing is in flight. -/
def runFor : Nat → Pool → Pool
  | 0, p => p
  | n + 1, p =>
    match Flight.first? p.flying with
    | none => p
    | some f => runFor n (p.finish f).fill

/-- The beginning of a run: every worker has its first task; fewer than one worker count as one. -/
def initial (workers : Nat) (tasks : List Task) : Pool :=
  fill { workers := max workers 1, waiting := tasks }

/-- The whole run of some tasks on some workers. -/
def run (workers : Nat) (tasks : List Task) : Pool := runFor tasks.length (initial workers tasks)

/-- When the tasks were started, in the order in which they were: times and positions. -/
def starts (p : Pool) : List (Nat × Nat) := p.history.filterMap Event.start?

/-- When the tasks ended, in the order in which they did: times and positions. -/
def finishes (p : Pool) : List (Nat × Nat) := p.history.filterMap Event.finish?

end Pool

end CrateAudit
