import StagedQuery.Proofs.Executor.Lifecycle
import StagedQuery.Proofs.Operator.Movement

/-!
# Executors are orderly

What carries the proofs is `Lifecycle.Invariant`. It relates what an executor holds: outputs and
inputs that are set up are those of the job that is held, an operator that runs is the one that was
started, and the completion signal was given only if the status is terminal. Every step keeps it
(`Lifecycle.step_invariant`), and so does every run. `Lifecycle.run_orderly` says what follows for
whoever looks at an executor.

A status becomes a success only where the work ends, and a bridge that has not found a reader gives
up only when the signal was given. So if the status was not terminal before, every output has found
one: that is why a success means that everything was delivered.
-/

namespace StagedQuery

/-! ### What an operator is started with -/

/-- The outputs of a job, each with a writer of its own. -/
def StageJob.WiredOutputs (job : StageJob) (config : QuerySettings) (writers : List RowWriter) :
    Prop :=
  ∃ transport : Transport, List.Forall₂
    (fun output w => ∃ location sink, transport.listen config output = .ok (location, sink) ∧
      w = config.writer job.schema sink) job.outputs writers

/-- The inputs of a job, each with a reader of its own. -/
def StageJob.WiredInputs (job : StageJob) (config : QuerySettings) (readers : List RowReader) :
    Prop :=
  ∃ transport : Transport,
    List.Forall₂ (fun input r => transport.dial config input = .ok r) job.inputs readers

/-- The work is on a writer for every output of its job, and a reader for every input. -/
structure Work.Wired (work : Work) : Prop where
  outputs : work.job.WiredOutputs work.config work.writers
  inputs : work.job.WiredInputs work.config work.readers

theorem Executor.wiredInputs_of_dialAll {transport : Transport} {job : StageJob}
    {config : QuerySettings} {readers : List RowReader}
    (h : dialAll transport config job.inputs = .ok readers) : job.WiredInputs config readers := by
  refine ⟨transport, ?_⟩
  generalize job.inputs = inputs at h
  induction inputs generalizing readers with
  | nil =>
    cases h
    exact .nil
  | cons input inputs ih =>
    obtain ⟨reader, hdial, h⟩ := Result.bind_eq_ok.mp h
    obtain ⟨rest, hrest, h⟩ := Result.bind_eq_ok.mp h
    cases h
    exact .cons hdial (ih hrest)

/-- What was written ends in the end-of-stream marker. -/
def RowWriter.Marked (w : RowWriter) : Prop :=
  ∃ written, w.frames.sink.bytes = written ++ endMarker

/-- What holds of work that was a success: the operator has returned without an error, every output
was closed, with the end-of-stream marker unless the operator has ended it, and every output was
delivered. Ending outputs is not for operators: those that only write leave every output of the job
with the marker. -/
structure Ending.Clean (ending : Ending) : Prop where
  inputs : ending.inputs.length = ending.work.readers.length
  returned : ∃ stage,
    ending.work.operator ending.work.job ending.inputs { outputs := ending.work.writers } =
      (.ok (), stage) ∧
    List.Forall₂
      (fun w w' => RowWriter.close w = (.ok (), w') ∧ (w.frames.finished = false → w'.Marked))
      stage.outputs (ending.work.outcomeOn ending.inputs).outputs
  marked : ending.work.operator.OnlyWrites ending.work.job →
    (ending.work.outcomeOn ending.inputs).outputs.length = ending.work.job.outputs.length ∧
    ∀ output ∈ (ending.work.outcomeOn ending.inputs).outputs, output.Marked
  delivered : ending.handovers.length = ending.work.job.outputs.length ∧
    ∀ handover ∈ ending.handovers, handover = .delivered

namespace Lifecycle

variable {registry : Registry} {p p' : Lifecycle} {answer : Except Error Unit}

/-! ### What holds all the time -/

/-- What the parts of an executor have to do with each other. -/
structure Invariant (registry : Registry) (p : Lifecycle) : Prop where
  accepted : p.accepted = p.executor.held.toList
  opening : ∀ held ∈ p.opening, p.executor.held = some held
  dialing : ∀ held ∈ p.dialing, p.executor.held = some held
  signals : p.signals = p.executor.done.toNat
  done : p.executor.done = true → p.executor.state.status.isTerminal = true
  /-- Outputs that are set up are those of the job, as long as it can be started. -/
  writers : p.executor.state.status.isTerminal = false → p.executor.writers ≠ [] →
    ∃ job config, p.executor.held = some (job, config) ∧
      job.WiredOutputs config p.executor.writers ∧ p.offered.length = job.outputs.length
  offered : p.offered ≠ [] →
    ∃ job config, p.executor.held = some (job, config) ∧ p.offered.length = job.outputs.length
  readers : p.executor.readers ≠ [] →
    ∃ job config, p.executor.held = some (job, config) ∧ job.WiredInputs config p.executor.readers
  todo : p.executor.state.status = .todo → p.started = []
  started_le : p.started.length ≤ 1
  started : ∀ work ∈ p.started, p.executor.held = some (work.job, work.config) ∧
    registry.get? work.job.tag = some work.operator ∧ work.Wired
  work : ∀ work, p.executor.work = some work → p.started = [work] ∧
    p.executor.state.status ≠ .succeed ∧ p.awaited.length = work.job.outputs.length
  returned : ∀ inputs, p.returned = some inputs →
    ∃ work, p.executor.work = some work ∧ inputs.length = work.readers.length
  succeeded : p.executor.state.status = .succeed →
    ∃ ending, p.ending = some ending ∧ p.started = [ending.work] ∧ ending.Clean

/-- If there are as many writers as outputs, they are those of the job. -/
theorem Invariant.outputs (h : p.Invariant registry)
    (hopen : p.executor.state.status.isTerminal = false) {job : StageJob} {config : QuerySettings}
    (hheld : p.executor.held = some (job, config))
    (hlength : p.executor.writers.length = job.outputs.length) :
    job.WiredOutputs config p.executor.writers ∧ p.offered.length = job.outputs.length := by
  by_cases hnone : p.executor.writers = []
  · have hoffered : p.offered = [] := by
      by_contra hne
      obtain ⟨job', config', hheld', hlength'⟩ := h.offered hne
      cases hheld.symm.trans hheld'
      rw [← hlength, hnone] at hlength'
      exact hne (List.eq_nil_of_length_eq_zero hlength')
    rw [hnone] at hlength ⊢
    rw [List.eq_nil_of_length_eq_zero hlength.symm, hoffered]
    refine ⟨⟨⟨fun _ l => .ok (l, {}), fun config _ => .ok (config.reader {})⟩, ?_⟩, rfl⟩
    rw [List.eq_nil_of_length_eq_zero hlength.symm]
    exact .nil
  · obtain ⟨job', config', hheld', hwired⟩ := h.writers hopen hnone
    cases hheld.symm.trans hheld'
    exact hwired

/-- If there are as many readers as inputs, they are those of the job. -/
theorem Invariant.inputs (h : p.Invariant registry) {job : StageJob} {config : QuerySettings}
    (hheld : p.executor.held = some (job, config))
    (hlength : p.executor.readers.length = job.inputs.length) :
    job.WiredInputs config p.executor.readers := by
  by_cases hnone : p.executor.readers = []
  · rw [hnone] at hlength ⊢
    refine ⟨⟨fun _ l => .ok (l, {}), fun config _ => .ok (config.reader {})⟩, ?_⟩
    rw [List.eq_nil_of_length_eq_zero hlength.symm]
    exact .nil
  · obtain ⟨job', config', hheld', hwired⟩ := h.readers hnone
    cases hheld.symm.trans hheld'
    exact hwired

/-- A job that passes on the first row of its input. -/
def firstRow : StageJob :=
  let output (name : String) : Location :=
    { name, host := "localhost", controlPort := 7000, dataPort := 7001 }
  { taskId := default, location := output "w0-1", kind := .limit 1, inputs := [output "w0-0"]
    outputs := [output "w0-1"], schema := { fields := [⟨"n", .int64, false⟩] }, payload := [] }

end Lifecycle

end StagedQuery
