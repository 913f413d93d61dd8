import StagedQuery.Executor.Lifecycle

/-!
# Outputs that nobody reads

An output holds what is written to it until its reader takes it, up to the capacity of its
pipe. As long as there is no reader the operator can write that much, and then waits; and
even if all fits, the job does not end before the output is read. When such an executor is
cleared its pipes break: an operator that waited to write fails, one that had written
everything succeeds. Either comes too late to change the status.

Outputs and operators get to work only when there is a pause. An executor that is cleared
before the first pause has no pipe that ever waited for a reader, and its operator fails at
the first write.
-/

namespace StagedQuery

/-- An output that takes so many bytes, and what happens to a piece beyond them. -/
def Sink.pipe (capacity : Nat) (beyond : Error) : Sink where
  refuses := fun _ size => if capacity < size then some beyond else none

namespace Work

/-- Let the operator work as far as its outputs permit, all of which are alike. -/
def attempt (work : Work) (output : Sink) : Outcome :=
  let inputs := work.readers.map fun r => (RowReader.drain r).1
  let outputs := work.writers.map fun w => work.config.writer w.schema output
  work.operator.perform work.job inputs outputs

end Work

/-- The reason of a write to a pipe whose other end is gone. -/
def brokenPipe : Error := .network "broken pipe"

namespace Executor

/-- The outputs of an operator while nobody reads them. -/
def unreadOutput (e : Executor) (config : QuerySettings) : Sink :=
  if !e.done then .pipe config.pipeCapacity .wouldBlock
  else if e.outputsWaiting then .pipe config.pipeCapacity brokenPipe
  else .pipe 0 brokenPipe

/-- What happens to an executor in a pause while its outputs have no reader. -/
def settle (now : Nat) (e : Executor) : Executor :=
  let paused := { e with outputsWaiting := e.outputsWaiting || !e.done && e.published.isSome }
  match e.work with
  | none => paused
  | some work =>
    let outcome := work.attempt (e.unreadOutput work.config)
    if outcome.isWaiting then paused
    else match outcome.result with
      | .ok () => if e.done then finish now outcome (.ok ()) paused else paused
      | .error _ => finish now outcome (.ok ()) paused

end Executor

end StagedQuery
