import StagedQuery.Proofs.Cluster.Asking
import StagedQuery.Proofs.Cluster.Handout
import StagedQuery.Proofs.Plan.Ranges

/-!
# Handing out never waits for itself

Executors are set up one after the other, and an executor whose inputs are set up asks others where
their outputs are. It would wait for ever for one that is set up later. This does not happen, for
the requests come in phases: `Cluster.Prepared` says what is set up once some requests were answered
Ok, a request that is answered Ok adds what it asks for (`Cluster.Prepared.ask`), and so, when the
inputs of a job are set up, all outputs are there already, and when the first job is run, all jobs
have everything.

The workers do other things in between. All that is needed is that nothing else happens to the
executors of the graph before they have started (`Cluster.Spares`).
-/

namespace StagedQuery

/-! ### One executor -/

/-- The executor holds the job and has not started; of what is set up at the request of somebody,
everything is there that was asked for. -/
structure Executor.Prepared (done : List Envelope) (job : StageJob) (e : Executor) : Prop where
  held : ∃ kind config, (job.kind.Legible → kind = job.kind) ∧
    e.held = some ({ job with kind }, config)
  todo : e.state.status = .todo
  idle : e.work = none
  live : e.done = false
  unpublished : job.envelope (.setupWriters job.location.name) ∉ done → e.published = none
  writers : job.envelope (.setupWriters job.location.name) ∈ done →
    e.published = some (job.outputs.map fun l => { l with dataPort := 1 }) ∧
      e.writers.length = job.outputs.length
  readers : job.envelope (.setupReaders job.location.name) ∈ done →
    e.readers.length = job.inputs.length

theorem Cluster.listenAll_transport (c : Cluster) (config : QuerySettings) (schema : Schema)
    (outputs : List Location) : Executor.listenAll c.transport config schema outputs =
      .ok (outputs.map fun l => ({ l with dataPort := 1 }, config.writer schema {})) := by
  induction outputs with
  | nil => rfl
  | cons output outputs ih =>
    rw [Executor.listenAll, ih]
    rfl

theorem StageJob.mem_of_other {done : List Envelope} {job : StageJob} {sent : Envelope}
    {request : ControlRequest} (hother : sent.request.executor ≠ job.location.name)
    (hrequest : request.executor = job.location.name)
    (hmem : job.envelope request ∈ done ++ [sent]) : job.envelope request ∈ done := by
  refine (List.mem_append.mp hmem).resolve_right fun heq => hother ?_
  rw [← List.mem_singleton.mp heq]
  exact hrequest

namespace Executor.Prepared

variable {done : List Envelope} {job : StageJob} {e e' : Executor} {c : Cluster} {now : Nat}

theorem isFinished_eq (h : e.Prepared done job) : e.isFinished = false := by
  rw [isFinished, h.live]
  rfl

/-- What another executor was asked for does not count. -/
theorem other (h : e.Prepared done job) {sent : Envelope}
    (hother : sent.request.executor ≠ job.location.name) : e.Prepared (done ++ [sent]) job :=
  { h with
    unpublished := fun hsent => h.unpublished fun hmem => hsent (List.mem_append_left _ hmem)
    writers := fun hsent => h.writers (StageJob.mem_of_other hother rfl hsent)
    readers := fun hsent => h.readers (StageJob.mem_of_other hother rfl hsent) }

/-- Before anything is set up. -/
theorem accepted {kind : JobKind} {config : QuerySettings} {message : String}
    (hkind : job.kind.Legible → kind = job.kind) (hdone : ∀ sent ∈ done, sent.request.phase = 0) :
    (Executor.accepted now message { job with kind } config).Prepared done job where
  held := ⟨kind, config, hkind, rfl⟩
  todo := rfl
  idle := rfl
  live := rfl
  unpublished _ := rfl
  writers hsent := nomatch hdone _ hsent
  readers hsent := nomatch hdone _ hsent

theorem setWriters (h : e.Prepared done job)
    (hsetup : setupWriters c.transport now e = (.ok (), e')) :
    e'.Prepared (done ++ [job.envelope (.setupWriters job.location.name)]) job := by
  obtain ⟨held, opened, message, hheld, hopened, rfl⟩ := setupWriters_eq_ok hsetup
  obtain ⟨kind, config, hkind, hjob⟩ := h.held
  cases hheld.symm.trans hjob
  rw [c.listenAll_transport] at hopened
  cases hopened
  refine ⟨⟨kind, config, hkind, hjob⟩, h.todo, h.idle, h.live,
    fun hsent => absurd (List.mem_append_right _ List.mem_cons_self) hsent, fun _ => ?_,
    fun hsent => h.readers ?_⟩
  · simp [log, Function.comp_def]
  · simpa [StageJob.envelope] using hsent

theorem setReaders (h : e.Prepared done job)
    (hsetup : setupReaders c.transport now e = (.ok (), e')) :
    e'.Prepared (done ++ [job.envelope (.setupReaders job.location.name)]) job := by
  obtain ⟨held, readers, message, hheld, hreaders, rfl⟩ := setupReaders_eq_ok hsetup
  obtain ⟨kind, config, hkind, hjob⟩ := h.held
  cases hheld.symm.trans hjob
  obtain ⟨_, hwired⟩ := wiredInputs_of_dialAll hreaders
  refine ⟨⟨kind, config, hkind, hjob⟩, h.todo, h.idle, h.live,
    fun hsent => h.unpublished fun hmem => hsent (List.mem_append_left _ hmem),
    fun hsent => h.writers ?_, fun _ => ?_⟩
  · simpa [StageJob.envelope] using hsent
  · exact hwired.length_eq.symm

end Executor.Prepared

/-! ### All executors of a graph -/

namespace Cluster

variable {graph : StageGraph} {config : QuerySettings} {done rest : List Envelope} {c c' : Cluster}

/-- Nothing happens to the executors of the graph that have neither started nor been given up, and
the workers keep names of their own. -/
structure Spares (graph : StageGraph) (c c' : Cluster) : Prop where
  distinct : c.Distinct → c'.Distinct
  idle : ∀ job ∈ graph.jobs, ∀ e, c.executor? job.location = some e → e.state.status = .todo →
    e.done = false → c'.executor? job.location = some e

/-- Every job that was accepted, and was not asked to run, has an executor; and what was asked for
is set up there. -/
structure Prepared (graph : StageGraph) (config : QuerySettings) (done : List Envelope)
    (c : Cluster) : Prop where
  distinct : c.Distinct
  hosted : ∀ job ∈ graph.jobs, job.envelope (.accept job config) ∈ done →
    job.envelope (.run job.location.name) ∉ done →
      ∃ e, c.executor? job.location = some e ∧ e.Prepared done job

namespace Prepared

theorem spared (h : c.Prepared graph config done) (hspares : c.Spares graph c') :
    c'.Prepared graph config done where
  distinct := hspares.distinct h.distinct
  hosted job hjob haccepted hrun := by
    obtain ⟨e, he, hprepared⟩ := h.hosted job hjob haccepted hrun
    exact ⟨e, hspares.idle job hjob e he hprepared.todo hprepared.live, hprepared⟩

variable {now : Nat} {fresh : Identifier} {sent : Envelope}

/-- A request that is answered Ok adds what it asks for, and takes nothing away. -/
theorem ask (h : c.Prepared graph config done) (hn : (graph.jobs.map (·.location.name)).Nodup)
    (hin : ∀ job ∈ graph.jobs, job.In64) (hconfig : config.In64)
    (hrequests : graph.requests config = done ++ sent :: rest)
    (hask : ask now fresh sent.address sent.request c = (.ok (), c')) :
    c'.Prepared graph config (done ++ [sent]) := by
  have hsent : sent ∈ graph.requests config := by simp [hrequests]
  obtain ⟨asked, hasked, -, hname, hsent⟩ := StageGraph.of_mem_requests hsent
  have hrequest : sent.request.In64 := by
    rcases hsent with rfl | rfl | rfl | rfl
    · exact ⟨hin asked hasked, hconfig⟩
    all_goals exact trivial
  refine ⟨distinct_ask h.distinct hrequest hask, fun job hjob haccepted hrun => ?_⟩
  by_cases hsame : job.location.name = asked.location.name
  · obtain rfl : job = asked := List.inj_on_of_nodup_map hn hjob hasked hsame
    rcases hsent with rfl | rfl | rfl | rfl
    · obtain ⟨kind, message, hkind, he⟩ := ask_accept h.distinct hrequest hask
      refine ⟨_, he, .accepted hkind fun sent hsent => Nat.le_zero.mp ?_⟩
      rcases List.mem_append.mp hsent with hsent | hsent
      · exact StageGraph.phase_le_of_sent hrequests hsent
      · rw [List.mem_singleton.mp hsent]
        exact Nat.le_refl 0
    · obtain ⟨e, he, hprepared⟩ := h.hosted job hjob (by simpa [StageJob.envelope] using haccepted)
        fun hdone => hrun (List.mem_append_left _ hdone)
      obtain ⟨e', hsetup, he'⟩ := ask_setupWriters h.distinct he hprepared.isFinished_eq hask
      exact ⟨e', he', hprepared.setWriters hsetup⟩
    · obtain ⟨e, he, hprepared⟩ := h.hosted job hjob (by simpa [StageJob.envelope] using haccepted)
        fun hdone => hrun (List.mem_append_left _ hdone)
      obtain ⟨e', hsetup, he'⟩ := ask_setupReaders h.distinct he hprepared.isFinished_eq hask
      exact ⟨e', he', hprepared.setReaders hsetup⟩
    · exact absurd (List.mem_append_right done List.mem_cons_self) hrun
  · have hother : sent.request.executor ≠ job.location.name := fun heq =>
      hsame (heq.symm.trans hname)
    obtain ⟨e, he, hprepared⟩ := h.hosted job hjob (StageJob.mem_of_other hother rfl haccepted)
      fun hdone => hrun (List.mem_append_left _ hdone)
    have hkept := executor?_ask h.distinct hrequest hask hother.symm he hprepared.isFinished_eq
    exact ⟨e, hkept, hprepared.other hother⟩

end Prepared

/-! ### What is there when it is needed -/

/-- The worker of an input answers at once to the question where it is, the answer is for this
input, and so the input can be reached. -/
structure Finds (c : Cluster) (input : Location) (worker : Worker) (answer : Location) : Prop where
  reached : c.workerAt? input.controlAddress = some worker
  published : ∃ e, worker.executor? input.name = some e ∧ e.published.isSome
  answered : ∀ transport now, (worker.prune.handle transport now
    (.resolveOutputLocation input.name input.channel)).1 = .location answer
  name_eq : answer.name = input.name
  channel_eq : answer.channel = input.channel
  checked : ControlAnswer.checkLocation input answer = .ok ()
  dialled : ∀ config : QuerySettings, c.dial config input = .ok (config.reader {})

/-- The executor of a job has not started, and has a writer for each output and a reader for each
input. -/
structure Ready (c : Cluster) (job : StageJob) (e : Executor) : Prop where
  hosted : c.executor? job.location = some e
  todo : e.state.status = .todo
  idle : e.work = none
  writers : e.writers.length = job.outputs.length
  readers : e.readers.length = job.inputs.length

theorem finds_of_published {input l : Location} {e : Executor} {locations : List Location}
    (he : c.executor? input = some e) (hlive : e.isFinished = false)
    (hpublished : e.published = some locations) (hl : locations[input.channel]? = some l)
    (hname : l.name = input.name) (hchannel : l.channel = input.channel) :
    ∃ worker, c.Finds input worker l := by
  obtain ⟨worker, hworker, hexecutor⟩ := Option.bind_eq_some_iff.mp he
  have hpruned := Worker.executor?_prune hexecutor hlive
  have hresolve : e.resolve input.channel = .ok l := by
    rw [Executor.resolve, hpublished]
    simp only [hl]
  have hchecked : ControlAnswer.checkLocation input l = .ok () := by
    rw [ControlAnswer.checkLocation, if_neg (by simp [hname, hchannel])]
  refine ⟨worker, hworker, ⟨e, hexecutor, by rw [hpublished]; rfl⟩, fun transport now => ?_, hname,
    hchannel, hchecked, fun config => ?_⟩
  · have hcall : Worker.onExecutor input.name (fun e => (e.resolve input.channel, e)) worker.prune =
        (.ok l, worker.prune.update e) := by
      simp only [Worker.onExecutor, hpruned, hresolve]
    have hdispatch : worker.prune.dispatch transport now
        (.resolveOutputLocation input.name input.channel) =
          (.ok (.location l), worker.prune.update e) := Action.bind_ok hcall
    rw [Worker.handle, hdispatch]
  · simp only [dial, hworker, hexecutor, hresolve, hchecked]
    rfl

namespace Prepared

variable {job : StageJob}

/-- When the inputs of a job are set up, the outputs of all others are. -/
theorem finds (h : c.Prepared graph config done)
    (hwired : ∀ input ∈ job.inputs, ∃ source ∈ graph.jobs, input ∈ source.outputs)
    (howned : ∀ source ∈ graph.jobs, source.OwnsOutputs)
    (hrequests : graph.requests config =
      done ++ job.envelope (.setupReaders job.location.name) :: rest)
    {input : Location} (hinput : input ∈ job.inputs) :
    ∃ worker answer, c.Finds input worker answer := by
  obtain ⟨source, hsource, houtput⟩ := hwired input hinput
  obtain ⟨n, houtputs⟩ := howned source hsource
  have haccepted := StageGraph.accept_sent hrequests hsource (show 0 < 2 by decide)
  have hwriters := StageGraph.setupWriters_sent hrequests hsource (show 1 < 2 by decide)
  have hrun : source.envelope (.run source.location.name) ∉ done :=
    StageGraph.run_not_sent hrequests (show 2 < 3 by decide)
  obtain ⟨e, he, hprepared⟩ := h.hosted source hsource haccepted hrun
  obtain ⟨hpublished, -⟩ := hprepared.writers hwriters
  rw [houtputs] at houtput hpublished
  obtain ⟨k, hk, rfl⟩ := List.mem_map.mp houtput
  have hget : ((List.range n).map source.location.withChannel)[k]? =
      some (source.location.withChannel k) := by
    rw [List.getElem?_map, List.getElem?_range (List.mem_range.mp hk)]
    rfl
  have hanswer : (((List.range n).map source.location.withChannel).map
      fun l => { l with dataPort := 1 })[k]? =
        some { source.location.withChannel k with dataPort := 1 } := by
    rw [List.getElem?_map, hget]
    rfl
  have hat : c.executor? (source.location.withChannel k) = some e := he
  obtain ⟨worker, hfinds⟩ :=
    finds_of_published hat hprepared.isFinished_eq hpublished hanswer rfl rfl
  exact ⟨worker, _, hfinds⟩

/-- When a job is run, every job that was not run yet has all that it works on. -/
theorem ready (h : c.Prepared graph config done) {sent : Envelope} {executor : String}
    (hrequests : graph.requests config = done ++ sent :: rest)
    (hsent : sent.request = .run executor) (hjob : job ∈ graph.jobs)
    (hrun : job.envelope (.run job.location.name) ∉ done) : ∃ e, c.Ready job e := by
  have hphase : sent.request.phase = 3 := by rw [hsent]; rfl
  have haccepted := StageGraph.accept_sent hrequests hjob (by omega)
  have hwriters := StageGraph.setupWriters_sent hrequests hjob (by omega)
  have hreaders := StageGraph.setupReaders_sent hrequests hjob (by omega)
  obtain ⟨e, he, hprepared⟩ := h.hosted job hjob haccepted hrun
  exact ⟨e, he, hprepared.todo, hprepared.idle, (hprepared.writers hwriters).2,
    hprepared.readers hreaders⟩

end Prepared

end Cluster

end StagedQuery
