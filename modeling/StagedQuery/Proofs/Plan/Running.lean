import Mathlib.Data.List.FinRange
import StagedQuery.Proofs.Plan.Wiring

/-!
# Running jobs in some order

Jobs are functions here: an `Interpretation` says which streams a job yields for which streams.
A job runs when all its inputs are there, and the streams it yields are kept by executor and
channel. In every order in which a job is after those it reads from, all jobs run, and afterwards
every one of them is *settled*: its outputs are what it yields for its inputs. That
(`Interpretation.run_settled`) is all that is needed of a run, so nothing after it depends on the
order.
-/

namespace StagedQuery

open scoped List

/-! ### Jobs as functions -/

/-- What jobs do: the streams that a job with `n` outputs yields, by its kind, its payload, its
schema and the streams that it reads. -/
structure Interpretation (σ : Type) where
  perform : JobKind → Bytes → Schema → List σ → (n : Nat) → Fin n → σ

/-- The streams that there are, by executor and channel. -/
def Store (σ : Type) : Type := String → Nat → Option σ

namespace Store

variable {σ : Type}

/-- No streams. -/
def empty : Store σ := fun _ _ => none

/-- The stream of a location. -/
def read (store : Store σ) (l : Location) : Option σ := store l.name l.channel

/-- The outputs of an executor, which are its channels from 0 on. -/
def write (store : Store σ) (executor : String) {n : Nat} (outputs : Fin n → σ) : Store σ :=
  fun name channel =>
    if name = executor then (if h : channel < n then some (outputs ⟨channel, h⟩) else none)
    else store name channel

/-- The streams of some locations. -/
def Carries (store : Store σ) (streams : List Location) (values : List σ) : Prop :=
  List.Forall₂ (fun stream value => store.read stream = some value) streams values

variable {store : Store σ}

theorem carries_iff {streams : List Location} {values : List σ} :
    store.Carries streams values ↔ streams.mapM store.read = some values := by
  unfold Carries
  induction streams generalizing values with
  | nil => simp [eq_comm]
  | cons stream streams ih =>
    simp only [List.forall₂_cons_left_iff, ih, List.mapM_cons, Option.bind_eq_bind,
      Option.bind_eq_some_iff, Option.pure_def, Option.some.injEq]
    constructor
    · rintro ⟨value, rest, hvalue, hrest, rfl⟩
      exact ⟨value, hvalue, rest, hrest, rfl⟩
    · rintro ⟨value, hvalue, rest, hrest, rfl⟩
      exact ⟨value, rest, hvalue, hrest, rfl⟩

theorem exists_carries {streams : List Location}
    (h : ∀ stream ∈ streams, ∃ value, store.read stream = some value) :
    ∃ values, store.Carries streams values := by
  induction streams with
  | nil => exact ⟨[], .nil⟩
  | cons stream streams ih =>
    obtain ⟨⟨value, hvalue⟩, hrest⟩ := List.forall_mem_cons.mp h
    obtain ⟨values, hvalues⟩ := ih hrest
    exact ⟨value :: values, .cons hvalue hvalues⟩

theorem Carries.append {streams streams' : List Location} {values values' : List σ}
    (h : store.Carries streams values) (h' : store.Carries streams' values') :
    store.Carries (streams ++ streams') (values ++ values') := List.rel_append h h'

theorem Carries.length_eq {streams : List Location} {values : List σ}
    (h : store.Carries streams values) : streams.length = values.length := List.Forall₂.length_eq h

theorem read_write_of_ne {executor : String} {n : Nat} {outputs : Fin n → σ} {l : Location}
    (h : l.name ≠ executor) : (store.write executor outputs).read l = store.read l := by
  simp [read, write, h]

theorem write_self {executor : String} {n : Nat} (outputs : Fin n → σ) (i : Fin n) :
    store.write executor outputs executor i = some (outputs i) := by
  simp [write]

theorem Carries.write {streams : List Location} {values : List σ}
    (h : store.Carries streams values) {executor : String}
    (hne : ∀ stream ∈ streams, stream.name ≠ executor) {n : Nat} (outputs : Fin n → σ) :
    (store.write executor outputs).Carries streams values := by
  unfold Carries at h ⊢
  induction h with
  | nil => exact .nil
  | cons hvalue _ ih =>
    obtain ⟨hstream, hrest⟩ := List.forall_mem_cons.mp hne
    exact .cons ((read_write_of_ne hstream).trans hvalue) (ih hrest)

end Store

/-- A job reads an output of an executor. -/
def StageJob.Reads (job source : StageJob) : Prop :=
  ∃ input ∈ job.inputs, input.name = source.location.name

namespace Interpretation

variable {σ : Type} (I : Interpretation σ)

/-- Run a job, if the streams that it reads are there. -/
def runJob (store : Store σ) (job : StageJob) : Option (Store σ) := do
  let inputs ← job.inputs.mapM store.read
  let outputs := I.perform job.kind job.payload job.schema inputs job.outputs.length
  pure (store.write job.location.name outputs)

/-- Run jobs one after the other. -/
def run (jobs : List StageJob) : Option (Store σ) := jobs.foldlM I.runJob .empty

/-- The outputs of a job are what it yields for its inputs. -/
def Settled (store : Store σ) (job : StageJob) : Prop :=
  ∃ inputs, store.Carries job.inputs inputs ∧ ∀ i : Fin job.outputs.length,
    store job.location.name i =
      some (I.perform job.kind job.payload job.schema inputs job.outputs.length i)

variable {I} {store : Store σ} {job : StageJob}

/-! ### One job -/

theorem runJob_eq {inputs : List σ} (h : store.Carries job.inputs inputs) :
    I.runJob store job = some (store.write job.location.name
      (I.perform job.kind job.payload job.schema inputs job.outputs.length)) := by
  simp [runJob, Store.carries_iff.mp h]

theorem settled_write {inputs : List σ} (h : store.Carries job.inputs inputs)
    (hself : ¬ job.Reads job) : I.Settled (store.write job.location.name
      (I.perform job.kind job.payload job.schema inputs job.outputs.length)) job :=
  ⟨inputs, h.write (fun input hin heq => hself ⟨input, hin, heq⟩) _, Store.write_self _⟩

/-- A job that reads nothing of another one stays settled when that one runs. -/
theorem Settled.write {other : StageJob} (h : I.Settled store other)
    (hname : other.location.name ≠ job.location.name) (hreads : ¬ other.Reads job) {n : Nat}
    (outputs : Fin n → σ) : I.Settled (store.write job.location.name outputs) other := by
  obtain ⟨inputs, hinputs, houtputs⟩ := h
  refine ⟨inputs, hinputs.write (fun input hin heq => hreads ⟨input, hin, heq⟩) outputs, ?_⟩
  intro i
  rw [← houtputs i, Store.write, if_neg hname]

theorem Settled.read (h : I.Settled store job) (hv : job.validate = .ok ()) {output : Location}
    (hout : output ∈ job.outputs) : ∃ value, store.read output = some value := by
  obtain ⟨inputs, -, houtputs⟩ := h
  have hchannel : output.channel < job.outputs.length := StageJob.channel_lt hv hout
  rw [Store.read, StageJob.name_of_mem_outputs hv hout]
  exact ⟨_, houtputs ⟨output.channel, hchannel⟩⟩

end Interpretation

/-! ### All jobs -/

/-- An order in which jobs can run: they pass their checks, have names of their own, and read only
outputs of jobs before them. -/
structure Runnable (order : List StageJob) : Prop where
  valid : ∀ job ∈ order, job.validate = .ok ()
  names : (order.map (·.location.name)).Nodup
  source : ∀ job ∈ order, ∀ input ∈ job.inputs, ∃ source ∈ order, input ∈ source.outputs
  not_self : ∀ job ∈ order, ¬ job.Reads job
  sorted : order.Pairwise fun earlier later => ¬ earlier.Reads later

namespace Runnable

variable {before after : List StageJob} {job : StageJob}

theorem mem_before (h : Runnable (before ++ job :: after)) {input : Location}
    (hin : input ∈ job.inputs) : ∃ source ∈ before, input ∈ source.outputs := by
  obtain ⟨source, hsource, hout⟩ := h.source job List.mem_append_cons_self input hin
  have hname := StageJob.name_of_mem_outputs (h.valid source hsource) hout
  have hread : job.Reads source := ⟨input, hin, hname⟩
  rcases List.mem_append.mp hsource with hbefore | hrest
  · exact ⟨source, hbefore, hout⟩
  rcases List.mem_cons.mp hrest with rfl | hafter
  · exact absurd hread (h.not_self source List.mem_append_cons_self)
  · have hpair := (List.pairwise_append.mp h.sorted).2.1
    exact absurd hread ((List.pairwise_cons.mp hpair).1 source hafter)

theorem name_ne (h : Runnable (before ++ job :: after)) {other : StageJob}
    (ho : other ∈ before) : other.location.name ≠ job.location.name := by
  have hpair := List.pairwise_append.mp (List.pairwise_map.mp h.names)
  exact hpair.2.2 other ho job List.mem_cons_self

theorem not_reads (h : Runnable (before ++ job :: after)) {other : StageJob}
    (ho : other ∈ before) : ¬ other.Reads job :=
  (List.pairwise_append.mp h.sorted).2.2 other ho job List.mem_cons_self

end Runnable

namespace Interpretation

variable {σ : Type} {I : Interpretation σ} {store : Store σ}

/-- What is settled stays settled, and every job finds its inputs. -/
theorem foldlM_settled {before after : List StageJob} (h : Runnable (before ++ after))
    (hsettled : ∀ job ∈ before, I.Settled store job) :
    ∃ store', after.foldlM I.runJob store = some store' ∧
      ∀ job ∈ before ++ after, I.Settled store' job := by
  induction after generalizing before store with
  | nil => exact ⟨store, rfl, by simpa using hsettled⟩
  | cons job after ih =>
    have hinputs : ∀ input ∈ job.inputs, ∃ value, store.read input = some value := by
      intro input hin
      obtain ⟨source, hsource, hout⟩ := h.mem_before hin
      exact (hsettled source hsource).read (h.valid source (List.mem_append_left _ hsource)) hout
    obtain ⟨inputs, hcarries⟩ := Store.exists_carries hinputs
    have hjob := settled_write (I := I) hcarries (h.not_self job List.mem_append_cons_self)
    have hbefore (other : StageJob) (ho : other ∈ before) :=
      (hsettled other ho).write (h.name_ne ho) (h.not_reads ho)
        (I.perform job.kind job.payload job.schema inputs job.outputs.length)
    rw [List.append_cons] at h ⊢
    obtain ⟨store', hrun, hall⟩ := ih h (List.forall_mem_append.mpr
      ⟨hbefore, List.forall_mem_singleton.mpr hjob⟩)
    refine ⟨store', ?_, hall⟩
    rw [List.foldlM_cons, runJob_eq hcarries]
    exact hrun

/-- In every order in which they can, all jobs run, and are settled in the end. -/
theorem run_settled {order : List StageJob} (h : Runnable order) :
    ∃ store, I.run order = some store ∧ ∀ job ∈ order, I.Settled store job :=
  @foldlM_settled σ I .empty [] order h (by simp)

end Interpretation

end StagedQuery
