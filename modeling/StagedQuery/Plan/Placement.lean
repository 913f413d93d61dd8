import StagedQuery.Action

/-!
# Placement

A scheduler places jobs on the workers of one snapshot of the registry, always on a
worker that has the fewest jobs so far; among those, on the one registered first. Every
executor that it places gets a name of its own: the worker's name and a fresh suffix.
-/

namespace StagedQuery

/-- Where fresh names come from: the suffix of the executor and the task of the `k`-th
job. Nothing here depends on what they are. -/
structure NameSupply where
  suffix : Nat → String
  task : Nat → Identifier

/-- A queue entry: the number of jobs of a worker, and the worker's index. -/
abbrev Load := Nat × Nat

/-- Loads are ordered by the number of jobs, equal ones by the index of the worker. -/
def Load.before (a b : Load) : Bool := a.1 < b.1 || (a.1 == b.1 && a.2 ≤ b.2)

/-- Put a load into its place in a queue. -/
def Load.enqueue (load : Load) : List Load → List Load
  | [] => [load]
  | l :: queue => if load.before l then load :: l :: queue else l :: load.enqueue queue

/-- A scheduler over a snapshot of the registry. -/
structure Scheduler where
  workers : List WorkerInfo
  names : NameSupply
  /-- The loads of the workers, the least first. -/
  queue : List Load
  /-- The number of jobs of each worker. -/
  assigned : List Nat
  /-- The number of jobs placed. -/
  placed : Nat := 0

namespace Scheduler

/-- A scheduler that has placed nothing. -/
def create (workers : List WorkerInfo) (names : NameSupply) : Scheduler where
  workers
  names
  queue := (List.range workers.length).map fun i => (0, i)
  assigned := workers.map fun _ => 0

/-- Whether there is a worker. -/
def hasWorkers (s : Scheduler) : Bool := !s.workers.isEmpty

/-- Place one job, and name its executor. -/
def allocate : Action Scheduler Location := fun s =>
  match s.queue with
  | [] => (.error .noWorkers, s)
  | (count, index) :: queue =>
    match s.workers[index]? with
    | none => (.error .noWorkers, s)
    | some worker =>
      (.ok (worker.executorLocation s!"{worker.name}-{s.names.suffix s.placed}"),
        { s with
          queue := Load.enqueue (count + 1, index) queue
          assigned := s.assigned.set index (count + 1)
          placed := s.placed + 1 })

/-- The number of jobs of each worker, by name. -/
def counts (s : Scheduler) : List (String × Nat) :=
  (s.workers.map (·.name)).zip s.assigned

end Scheduler

end StagedQuery
