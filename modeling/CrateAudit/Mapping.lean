import CrateAudit.Pool

/-!
# Mapping in parallel

A sequence is mapped on a pool of workers. Every item is mapped once and gives one result, the results
come in the order in which the mappings end, and nothing that happens to one item changes another. Items
that the input announces but cannot deliver are passed over.
-/

namespace CrateAudit.Mapping

/-- An item of the input. -/
structure Item (β : Type) where
  /-- what mapping it gives -/
  result : β
  /-- how long mapping it takes -/
  delay : Nat
  /-- whether the input cannot deliver it -/
  missing : Bool := false

variable {β : Type}

/-- The tasks of an input: one for each item that is delivered. -/
def tasks (items : List (Item β)) : List Task :=
  items.zipIdx.filterMap fun (item, i) => if item.missing then none else some ⟨i, item.delay, false⟩

/-- The number of workers that a limit allows; a limit below one allows one. -/
def workers (limit : Int) : Nat := (max limit 1).toNat

/-- The run of the pool over an input. -/
def pool (limit : Int) (items : List (Item β)) : Pool := Pool.run (workers limit) (tasks items)

/-- The run of the pool over an input up to the end of the first `n` mappings. -/
def poolUpTo (n : Nat) (limit : Int) (items : List (Item β)) : Pool :=
  Pool.runFor n (Pool.initial (workers limit) (tasks items))

/-- What is delivered when the mapping of the item at a position ends. -/
def yield? (items : List (Item β)) (finish : Nat × Nat) : Option (Nat × β) :=
  items[finish.2]?.map fun item => (finish.1, item.result)

/-- The results that a run delivers, with the times at which they are delivered. -/
def delivered (items : List (Item β)) (p : Pool) : List (Nat × β) := p.finishes.filterMap (yield? items)

/-- The results with the times at which they are delivered. -/
def results (limit : Int) (items : List (Item β)) : List (Nat × β) := delivered items (pool limit items)

/-- The results that a reader sees who stops after the first `n`, which ends the run; zero stands for a
reader who does not stop. -/
def resultsUpTo (n : Nat) (limit : Int) (items : List (Item β)) : List (Nat × β) :=
  if n = 0 then results limit items else delivered items (poolUpTo n limit items)

end CrateAudit.Mapping
