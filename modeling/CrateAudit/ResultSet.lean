import CrateAudit.Outcome

/-!
# Result sets and progress

The results of a run are kept in a set that takes one result for each job and refuses a second one.
Beside it a counter tells how many jobs are done.
-/

namespace CrateAudit

/-- The results stored so far, in the order in which they were stored. -/
structure ResultSet where
  stored : List Result := []
  deriving DecidableEq

namespace ResultSet

/-- The result of a job. -/
def get? (s : ResultSet) (id : Bytes) : Option Result := s.stored.find? (·.id = id)

/-- Stores a result, unless its job has one already. -/
def put (s : ResultSet) (r : Result) : Except Fault ResultSet :=
  match s.get? r.id with
  | some _ => .error (.duplicateResult r.id)
  | none => .ok ⟨s.stored ++ [r]⟩

/-- The number of results. -/
def size (s : ResultSet) : Nat := s.stored.length

/-- The results of the given jobs, in the order given; jobs without one are left out. -/
def ordered (s : ResultSet) (ids : List Bytes) : List Result := ids.filterMap s.get?

end ResultSet

/-- How many jobs of a run are done. -/
structure Progress where
  done : Int64 := 0
  total : Int64
  deriving DecidableEq

/-- One job more is done. -/
def Progress.advance (p : Progress) : Progress := { p with done := p.done + 1 }

end CrateAudit
