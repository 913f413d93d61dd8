import StagedQuery.Proofs.Cluster.Setup
import StagedQuery.Proofs.Plan.Acceptance
import StagedQuery.Proofs.Wire.Messages

/-!
# Whole graphs are handed out

When the jobs of a plan are handed out, each request comes upon what it needs
(`StageGraph.ofPlan_handsOut`): the inputs of a job are found when they are asked for, and nothing is
run before every job has everything.

So nobody waits for anybody, and handing out ends well if nothing else is missing
(`Cluster.handOut_succeeds`): every job has its worker, which knows the operator and accepts messages
of this length, and no executor has the name of another. `Cluster.Going` says of the requests so far
that they were answered Ok and that nothing is missing for the others; then the next one is answered
Ok (`Cluster.Going.answered`), and nothing is missing after it (`Cluster.Going.ask`).
-/

namespace StagedQuery

/-! ### Messages that arrive -/

/-- A message that passes is sent, and is read as what its text is read as. -/
theorem FrameReader.readJson_sent {α : Type} {decoder : Json.Decoder α} {json : Json} {a : α}
    (hread : Json.decodeBytes decoder json.bytes = some a) {maxMessage : Nat}
    (hpasses : Passes maxMessage json.bytes) :
    ∃ w, (FrameWriter.writeJson json >>= fun _ => FrameWriter.finish) {} = (.ok (), w) ∧
      (readJson decoder { rest := w.sink.bytes, maxMessage }).1 = .ok (some a) := by
  have hsink : Sink.NeverFails {} := fun _ _ => rfl
  have htravels : Json.Travels decoder (fun _ : α => json) a := Json.travels_of_decodeBytes hread
  obtain ⟨sent, hwrite, harrives⟩ := htravels {} { rest := [], maxMessage } rfl hsink rfl hpasses
  have hfinish := FrameWriter.finish_eq (w := { sink := Sink.took {} sent }) rfl (hsink.took _)
  refine ⟨_, (Action.bind_ok hwrite).trans hfinish, ?_⟩
  simp only [Sink.bytes_took]
  exact congrArg Prod.fst (harrives endMarker)

/-- Ok is read from the answer Ok. -/
theorem ControlAnswer.read_ok {address : String} {network : ConnectionSettings}
    (h : Passes network.maxMessageSize ControlResponse.ok.toJson.bytes) :
    read address network (ControlResponse.ok.send {}).2.sink.bytes = .ok .ok := by
  have hin : ControlResponse.ok.In64 := trivial
  have hdecode := (ControlResponse.readsBack hin).decodeBytes (by decide)
  obtain ⟨w, hsend, hread⟩ := FrameReader.readJson_sent hdecode h
  rw [read, ControlResponse.send_eq, hsend, hread]

namespace Worker

variable {w w' : Worker} {name : String} {e e' : Executor}

theorem onExecutor_ok {x : Action Executor Unit} (he : w.executor? name = some e)
    (hx : x e = (.ok (), e')) : onExecutor name x w = (.ok (), w.update e') := by
  simp only [onExecutor, he, hx]

theorem accept_ok {now : Nat} {job : StageJob} {config : QuerySettings}
    (hvacant : w.executor? job.location.name = none) (hvalid : job.validate = .ok ())
    (hknown : w.registry.contains job.tag = true) :
    ∃ w', accept now job config w = (.ok (), w') := by
  obtain ⟨e, haccept⟩ : ∃ e, Executor.accept w.registry now job config { location := job.location } =
      (.ok (), e) := Executor.accept_ok rfl hvalid hknown rfl
  exact ⟨{ w with executors := w.executors ++ [e] }, by simp only [accept, hvacant, haccept]⟩

end Worker

theorem StageGraph.WellWired.among {graph : StageGraph} (h : graph.WellWired) :
    ∀ job ∈ graph.jobs, ∀ input ∈ job.inputs, ∃ source ∈ graph.jobs, input ∈ source.outputs := by
  intro job hjob input hinput
  obtain ⟨i, hi⟩ := List.mem_iff_getElem?.mp hjob
  obtain ⟨j, -, source, hsource, houtput⟩ := h.input_before i job hi input hinput
  exact ⟨source, List.mem_of_getElem? hsource, houtput⟩

/-- The jobs of the graph are as those of a plan, and each can be sent. -/
structure StageGraph.Sendable (graph : StageGraph) (config : QuerySettings) : Prop where
  distinct : (graph.jobs.map (·.location.name)).Nodup
  in64 : ∀ job ∈ graph.jobs, job.In64
  settings : config.In64
  legible : ∀ job ∈ graph.jobs, job.kind.Legible
  valid : ∀ job ∈ graph.jobs, job.validate = .ok ()
  wired : ∀ job ∈ graph.jobs, ∀ input ∈ job.inputs, ∃ source ∈ graph.jobs, input ∈ source.outputs
  owned : ∀ job ∈ graph.jobs, job.OwnsOutputs

theorem StageGraph.Sendable.of_mem_requests {graph : StageGraph} {config : QuerySettings}
    (h : graph.Sendable config) {sent : Envelope} (hsent : sent ∈ graph.requests config) :
    sent.request.In64 ∧ sent.request.Legible := by
  obtain ⟨job, hjob, rfl | rfl | rfl | rfl⟩ := mem_requests.mp hsent
  · exact ⟨⟨h.in64 job hjob, h.settings⟩, h.legible job hjob⟩
  all_goals exact ⟨trivial, trivial⟩

variable {graph : StageGraph} {config : QuerySettings} {done rest : List Envelope}
  {c c' : Cluster} {address : String} {worker worker' : Worker} {request : ControlRequest}
  {now : Nat} {fresh : Identifier}

namespace Cluster

/-- A request that arrives, and that the worker can do, is answered Ok. -/
theorem ask_of_dispatch (hworker : c.workerAt? address = some worker) (hrequest : request.In64)
    (hlegible : request.Legible) (hpasses : Passes worker.network.maxMessageSize request.toJson.bytes)
    (hanswer : Passes c.coordinator.network.maxMessageSize ControlResponse.ok.toJson.bytes)
    (hdispatch : worker.prune.dispatch c.transport now request = (.ok .ok, worker')) :
    ask now fresh address request c = (.ok (), c.put worker') := by
  have hdecode := ((ControlRequest.readsBackIff hrequest fresh).decodeBytes (by decide)).mpr hlegible
  obtain ⟨w, hsend, hread⟩ := FrameReader.readJson_sent hdecode hpasses
  have hserve : worker.serve c.transport now fresh w.sink.bytes =
      ((ControlResponse.ok.send {}).2.sink.bytes, worker') := by
    have hread : (FrameReader.readJson (ControlRequest.decoder fresh)
      { rest := w.sink.bytes, maxMessage := worker.prune.network.maxMessageSize }).1 =
        .ok (some request) := hread
    simp only [Worker.serve, hread, Worker.handle, hdispatch]
  rw [ask, hworker, ControlRequest.send_eq, hsend]
  simp only [hserve, ControlAnswer.read_ok hanswer]
  rfl

theorem dialAll_transport {inputs : List Location}
    (h : ∀ input ∈ inputs, ∃ worker answer, c.Finds input worker answer) :
    Executor.dialAll c.transport config inputs = .ok (inputs.map fun _ => config.reader {}) := by
  induction inputs with
  | nil => rfl
  | cons input inputs ih =>
    obtain ⟨⟨worker, answer, hfinds⟩, hinputs⟩ := List.forall_mem_cons.mp h
    have hdial : c.transport.dial config input = .ok (config.reader {}) := hfinds.dialled config
    rw [Executor.dialAll, hdial, ih hinputs]
    rfl

/-! ### Nothing is missing -/

/-- The workers of the jobs are there. They know the operators, and no message is too long. -/
structure Equipped (graph : StageGraph) (config : QuerySettings) (c : Cluster) : Prop where
  answered : Passes c.coordinator.network.maxMessageSize ControlResponse.ok.toJson.bytes
  hosted : ∀ job ∈ graph.jobs, ∃ worker, c.workerAt? job.location.controlAddress = some worker ∧
    worker.registry.contains job.tag = true ∧
    ∀ sent ∈ graph.requests config, sent.address = job.location.controlAddress →
      Passes worker.network.maxMessageSize sent.request.toJson.bytes

theorem Equipped.ask (h : c.Equipped graph config) (hn : c.Distinct) (hrequest : request.In64)
    (hask : ask now fresh address request c = (.ok (), c')) : c'.Equipped graph config := by
  obtain ⟨worker, got, response, worker', hworker, -, hdispatch, rfl⟩ := ask_eq_ok hrequest hask
  have hinfo : worker'.info = worker.prune.info := Worker.info_dispatch hdispatch
  obtain ⟨⟨executors, hafter⟩, -⟩ := Worker.dispatch_keeps hdispatch
  refine ⟨h.answered, fun job hjob => ?_⟩
  obtain ⟨host, hhost, hknown, hpasses⟩ := h.hosted job hjob
  rw [workerAt?_put hn hworker hinfo]
  split
  · rename_i heq
    rw [heq, hworker] at hhost
    cases hhost
    rw [hafter]
    exact ⟨_, rfl, hknown, hpasses⟩
  · exact ⟨host, hhost, hknown, hpasses⟩

/-- Requests up to here were answered Ok, and nothing stands in the way of the others. -/
structure Going (graph : StageGraph) (config : QuerySettings) (done : List Envelope) (c : Cluster) :
    Prop where
  prepared : c.Prepared graph config done
  equipped : c.Equipped graph config
  vacant : ∀ job ∈ graph.jobs, job.envelope (.accept job config) ∉ done →
    c.executor? job.location = none

namespace Going

variable {sent : Envelope} (h : c.Going graph config done) (hgraph : graph.Sendable config)
  (hrequests : graph.requests config = done ++ sent :: rest)
include h hgraph hrequests

theorem ask (hask : ask now fresh sent.address sent.request c = (.ok (), c')) :
    c'.Going graph config (done ++ [sent]) := by
  have hsent : sent ∈ graph.requests config := by simp [hrequests]
  obtain ⟨hin, -⟩ := hgraph.of_mem_requests hsent
  refine ⟨h.prepared.ask hgraph.distinct hgraph.in64 hgraph.settings hrequests hask,
    h.equipped.ask h.prepared.distinct hin hask, fun job hjob haccepted => ?_⟩
  have hfree : job.envelope (.accept job config) ∉ done := fun hmem =>
    haccepted (List.mem_append_left _ hmem)
  refine executor?_ask_eq_none h.prepared.distinct hin hask (fun heq => ?_) (h.vacant job hjob hfree)
  obtain ⟨asked, hasked, -, hname, hcases⟩ := StageGraph.of_mem_requests hsent
  obtain rfl : job = asked :=
    List.inj_on_of_nodup_map hgraph.distinct hjob hasked (heq.trans hname)
  rcases hcases with rfl | hlater
  · exact haccepted (List.mem_append_right done List.mem_cons_self)
  · have hphase : 0 < sent.request.phase := by
      rcases hlater with rfl | rfl | rfl <;> exact Nat.succ_pos _
    exact hfree (StageGraph.accept_sent hrequests hjob hphase)

/-- The executor that a request is about, where the request is not the one to accept its job. -/
theorem hosted {job : StageJob} (hjob : job ∈ graph.jobs) (hlater : 0 < sent.request.phase)
    (hrun : job.envelope (.run job.location.name) ∉ done) :
    ∃ e config', c.executor? job.location = some e ∧ e.held = some (job, config') ∧
      e.Prepared done job := by
  have haccepted := StageGraph.accept_sent hrequests hjob hlater
  obtain ⟨e, he, hprepared⟩ := h.prepared.hosted job hjob haccepted hrun
  obtain ⟨kind, config', hkind, hheld⟩ := hprepared.held
  obtain rfl := hkind (hgraph.legible job hjob)
  exact ⟨e, config', he, hheld, hprepared⟩

/-- The next request is answered Ok. -/
theorem answered : ∃ c', Cluster.ask now fresh sent.address sent.request c = (.ok (), c') := by
  have hsent : sent ∈ graph.requests config := by simp [hrequests]
  have hnew : sent ∉ done := by
    have hnodup := StageGraph.requests_nodup hgraph.distinct config
    rw [hrequests] at hnodup
    exact fun hmem => List.disjoint_of_nodup_append hnodup hmem List.mem_cons_self
  obtain ⟨hin, hlegible⟩ := hgraph.of_mem_requests hsent
  obtain ⟨job, hjob, haddress, -, hcases⟩ := StageGraph.of_mem_requests hsent
  obtain ⟨worker, hworker, hknown, hpasses⟩ := h.equipped.hosted job hjob
  suffices hdispatch : ∃ worker', worker.prune.dispatch c.transport now sent.request =
      (.ok .ok, worker') by
    obtain ⟨worker', hdispatch⟩ := hdispatch
    rw [haddress]
    exact ⟨_, ask_of_dispatch hworker hin hlegible (hpasses sent hsent haddress)
      h.equipped.answered hdispatch⟩
  -- what an executor does that is there, the worker answers with Ok
  have hcall {e e' : Executor} (he : c.executor? job.location = some e) (hprepared : e.Prepared done job)
      {x : Action Executor Unit} (hx : x e = (.ok (), e')) :=
    Action.bind_ok (Worker.onExecutor_ok (executor?_prune he hprepared.isFinished_eq hworker) hx)
      (f := fun _ => pure ControlResponse.ok)
  rcases hcases with rfl | rfl | rfl | rfl
  · have hvacant := h.vacant job hjob hnew
    rw [executor?, hworker] at hvacant
    obtain ⟨worker', haccept⟩ := Worker.accept_ok (Worker.executor?_prune_eq_none hvacant)
      (hgraph.valid job hjob) hknown
    exact ⟨worker', Action.bind_ok haccept⟩
  · obtain ⟨e, config', he, hheld, hprepared⟩ := h.hosted hgraph hrequests hjob Nat.one_pos
      (StageGraph.run_not_sent hrequests (show 1 < 3 by decide))
    obtain ⟨e', hsetup⟩ := Executor.setupWriters_ok hheld (hprepared.unpublished hnew)
      (c.listenAll_transport config' job.schema job.outputs)
    exact ⟨_, hcall he hprepared hsetup⟩
  · obtain ⟨e, config', he, hheld, hprepared⟩ := h.hosted hgraph hrequests hjob Nat.two_pos
      (StageGraph.run_not_sent hrequests (show 2 < 3 by decide))
    obtain ⟨e', hsetup⟩ := Executor.setupReaders_ok hheld (dialAll_transport fun input hinput =>
      h.prepared.finds (hgraph.wired job hjob) hgraph.owned hrequests hinput)
    exact ⟨_, hcall he hprepared hsetup⟩
  · obtain ⟨e, config', he, hheld, hprepared⟩ := h.hosted hgraph hrequests hjob
      (show 0 < 3 by decide) hnew
    obtain ⟨_, hready⟩ := h.prepared.ready hrequests rfl hjob hnew
    cases he.symm.trans hready.hosted
    obtain ⟨operator, hoperator⟩ := Option.isSome_iff_exists.mp hknown
    obtain ⟨e', hrun⟩ := Executor.run_ok hheld hoperator hready.writers hready.readers hready.todo
    exact ⟨_, hcall he hprepared hrun⟩

end Going

/-! ### Whole graphs -/

/-- Hand out the jobs of a graph to workers that do other things in between. -/
def handOut (clock : ControlRequest → Nat) (fresh : Identifier)
    (meanwhile : List (Exchange Cluster) → Cluster → Cluster) (graph : StageGraph)
    (config : QuerySettings) : Action (Cluster × List (Exchange Cluster)) Unit :=
  Coordinator.handOut
    (Coordinator.recorded meanwhile fun address request => ask (clock request) fresh address request)
    graph config

/-- Whatever a request comes upon, everything is set up that was asked for before. -/
theorem prepared_of_handOut {clock : ControlRequest → Nat}
    {meanwhile : List (Exchange Cluster) → Cluster → Cluster} {result : Except Error Unit}
    {earlier later : List (Exchange Cluster)} {x : Exchange Cluster}
    (hn : (graph.jobs.map (·.location.name)).Nodup) (hin : ∀ job ∈ graph.jobs, job.In64)
    (hconfig : config.In64) (hdistinct : c.Distinct)
    (hspares : ∀ exchanges (c : Cluster), c.Spares graph (meanwhile exchanges c))
    (h : handOut clock fresh meanwhile graph config (c, []) = (result, c', earlier ++ x :: later)) :
    (∃ rest, graph.requests config = earlier.map (·.sent) ++ x.sent :: rest) ∧
      x.before.Prepared graph config (earlier.map (·.sent)) := by
  have hstart : c.Prepared graph config [] := ⟨hdistinct, fun _ _ haccepted => nomatch haccepted⟩
  have hprepared := (Coordinator.handed_of_handOut h).holds
    (fun _ exchanges c hprepared => hprepared.spared (hspares exchanges c))
    (fun _ _ _ _ _ hrequests hprepared hask => hprepared.ask hn hin hconfig hrequests hask)
    rfl hstart rfl
  rwa [List.nil_append] at hprepared

section

variable (hgraph : graph.Sendable config) (hn : c.Distinct) (hequipped : c.Equipped graph config)
  (hvacant : ∀ job ∈ graph.jobs, c.executor? job.location = none)
include hgraph hn hequipped hvacant

/-- If nothing is missing, all requests are answered Ok. -/
theorem handOut_succeeds (clock : ControlRequest → Nat) (fresh : Identifier) :
    ∃ c' exchanges,
      handOut clock fresh (fun _ c => c) graph config (c, []) = (.ok (), c', exchanges) := by
  rcases h : handOut clock fresh (fun _ c => c) graph config (c, []) with ⟨result, c', exchanges⟩
  have hstart : c.Going graph config [] :=
    ⟨⟨hn, fun _ _ haccepted => nomatch haccepted⟩, hequipped, fun job hjob _ => hvacant job hjob⟩
  obtain rfl : result = .ok () := (Coordinator.handed_of_handOut h).succeeds
    (fun _ _ _ hgoing => hgoing)
    (fun done sent rest c hrequests hgoing => by
      obtain ⟨c', hask⟩ := hgoing.answered hgraph hrequests
      exact ⟨c', hask, hgoing.ask hgraph hrequests hask⟩)
    rfl hstart
  exact ⟨c', exchanges, rfl⟩

/-- If nothing is missing, a graph is dispatched. -/
theorem dispatch_succeeds (now : Nat) : ∃ c', dispatch now graph config c = (.ok (), c') := by
  have hhandOut {c : Cluster} (hn : c.Distinct) (hequipped : c.Equipped graph config)
      (hvacant : ∀ job ∈ graph.jobs, c.executor? job.location = none) :
      ∃ c', Coordinator.handOut (Cluster.ask now config.queryId) graph config c = (.ok (), c') := by
    obtain ⟨c', exchanges, h⟩ :=
      handOut_succeeds hgraph hn hequipped hvacant (fun _ => now) config.queryId
    rw [Coordinator.handOut_eq]
    exact ⟨c', (Coordinator.handed_of_handOut h).each_eq⟩
  rw [dispatch]
  split
  · exact hhandOut hn ⟨hequipped.answered, hequipped.hosted⟩ hvacant
  · exact hhandOut hn hequipped hvacant

end

/-- What a request comes upon, behind others that were answered Ok. -/
structure InOrder (graph : StageGraph) (config : QuerySettings) (done : List Envelope)
    (sent : Envelope) (c : Cluster) : Prop where
  /-- Whoever is asked where an output is has set it up. -/
  finds : ∀ job ∈ graph.jobs, sent = job.envelope (.setupReaders job.location.name) →
    ∀ input ∈ job.inputs, ∃ worker answer, c.Finds input worker answer
  /-- Nothing starts before it is run. -/
  waiting : ∀ job ∈ graph.jobs, job.envelope (.accept job config) ∈ done →
    job.envelope (.run job.location.name) ∉ done →
      ∃ e, c.executor? job.location = some e ∧ e.state.status = .todo ∧ e.work = none
  /-- Nothing is run before everything is set up. -/
  ready : ∀ executor, sent.request = .run executor → ∀ job ∈ graph.jobs,
    job.envelope (.run job.location.name) ∉ done → ∃ e, c.Ready job e

end Cluster

theorem StageGraph.ofPlan_sendable {plan : PlanNode} (hplan : plan.In64) {p : Nat}
    (hp : p < UInt64.size) {scheduler scheduler' : Scheduler} {graph : StageGraph}
    (h : StageGraph.ofPlan plan p scheduler = (.ok graph, scheduler')) {config : QuerySettings}
    (hconfig : config.In64) (hn : (graph.jobs.map (·.location.name)).Nodup)
    (hlegible : ∀ job ∈ graph.jobs, job.kind.Legible) : graph.Sendable config where
  distinct := hn
  in64 := ofPlan_in64 hplan hp h
  settings := hconfig
  legible := hlegible
  valid := (ofPlan_wellWired h hn).valid
  wired := (ofPlan_wellWired h hn).among
  owned := ofPlan_ownsOutputs h

/-- The jobs of a plan are handed out in phases: the requests that are sent are the first ones of
all, in their order, up to the first answer that is not Ok, and it is a success exactly if all were
sent and answered Ok. With the workers of a cluster, whatever else they do in between, the inputs of
a job are found when they are asked for, and nothing is run before every job has everything. So the
graph is dispatched, if the workers have all that it takes. -/
theorem StageGraph.ofPlan_handsOut {plan : PlanNode} {p : Nat} {scheduler scheduler' : Scheduler}
    {graph : StageGraph} (h : StageGraph.ofPlan plan p scheduler = (.ok graph, scheduler'))
    (config : QuerySettings) :
    (∀ {σ : Type} (ask : String → ControlRequest → Action σ Unit) (s s' : σ)
        (result : Except Error Unit) (exchanges : List (Exchange σ)),
      (Coordinator.handOut (Coordinator.recorded (fun _ s => s) ask) graph config (s, []) =
          (result, s', exchanges) →
        Coordinator.handOut ask graph config s = (result, s')) ∧
      ∀ meanwhile : List (Exchange σ) → σ → σ,
        Coordinator.handOut (Coordinator.recorded meanwhile ask) graph config (s, []) =
            (result, s', exchanges) →
          Phased (graph.requests config) result exchanges) ∧
    (plan.In64 → p < UInt64.size → config.In64 → (graph.jobs.map (·.location.name)).Nodup →
      ∀ c : Cluster, c.Distinct →
        (∀ (clock : ControlRequest → Nat) (fresh : Identifier)
          (meanwhile : List (Exchange Cluster) → Cluster → Cluster) (c' : Cluster)
          (result : Except Error Unit) (earlier later : List (Exchange Cluster))
          (x : Exchange Cluster),
          (∀ exchanges (c : Cluster), c.Spares graph (meanwhile exchanges c)) →
          Cluster.handOut clock fresh meanwhile graph config (c, []) =
            (result, c', earlier ++ x :: later) →
          x.before.InOrder graph config (earlier.map (·.sent)) x.sent) ∧
        ((∀ job ∈ graph.jobs, job.kind.Legible) → c.Equipped graph config →
          (∀ job ∈ graph.jobs, c.executor? job.location = none) →
            ∀ now, ∃ c', Cluster.dispatch now graph config c = (.ok (), c'))) := by
  refine ⟨fun ask s s' result exchanges => ⟨fun hhandOut => ?_, fun meanwhile hhandOut => ?_⟩, ?_⟩
  · rw [Coordinator.handOut_eq]
    exact (Coordinator.handed_of_handOut hhandOut).each_eq
  · exact (Coordinator.handed_of_handOut hhandOut).phased
  intro hplan hp hconfig hn c hdistinct
  have hin := ofPlan_in64 hplan hp h
  have hwired := ofPlan_wellWired h hn
  refine ⟨?_, fun hlegible hequipped hvacant now => ?_⟩
  · intro clock fresh meanwhile c' result earlier later x hspares hhandOut
    obtain ⟨⟨rest, hrequests⟩, hprepared⟩ :=
      Cluster.prepared_of_handOut hn hin hconfig hdistinct hspares hhandOut
    refine ⟨fun job hjob hsent input hinput => ?_, fun job hjob haccepted hrun => ?_,
      fun executor hsent job hjob hrun => hprepared.ready hrequests hsent hjob hrun⟩
    · rw [hsent] at hrequests
      exact hprepared.finds (hwired.among job hjob) (ofPlan_ownsOutputs h) hrequests hinput
    · obtain ⟨e, he, hjob⟩ := hprepared.hosted job hjob haccepted hrun
      exact ⟨e, he, hjob.todo, hjob.idle⟩
  · have hgraph := ofPlan_sendable hplan hp h hconfig hn hlegible
    exact Cluster.dispatch_succeeds hgraph hdistinct hequipped hvacant now

/-- The workers of `Scheduler.twoWorkers`, with sample operators. -/
def Cluster.twoWorkers : Cluster where
  coordinator := {}
  workers := Scheduler.twoWorkers.workers.map fun info => { info, registry := .withSamples }

/-- Requests of at most four thousand bytes can be sent to these workers. -/
theorem Cluster.equipped_twoWorkers {graph : StageGraph} {config : QuerySettings}
    (hknown : ∀ job ∈ graph.jobs, (twoWorkers.workerAt? job.location.controlAddress).any
      (·.registry.contains job.tag) = true)
    (hshort : ∀ sent ∈ graph.requests config,
      (Json.encoded sent.request.toJson.chars).length ≤ 4000) :
    twoWorkers.Equipped graph config := by
  have hpasses {worker : Worker} (hworker : worker ∈ twoWorkers.workers) {json : Json}
      (h : (Json.encoded json.chars).length ≤ 4000) :
      Passes worker.network.maxMessageSize json.bytes := by
    obtain ⟨info, -, rfl⟩ := List.mem_map.mp hworker
    rw [← Json.bytes_eq] at h
    exact .of_short (Nat.le_trans (Nat.add_le_add_right (Nat.mul_le_mul_left 2 h) 5)
      (show 2 * 4000 + 5 ≤ 67108864 by decide)) (by omega)
  refine ⟨.of_short (by decide +kernel) (by decide +kernel), fun job hjob => ?_⟩
  obtain ⟨worker, hworker, hoperator⟩ := (Option.any_eq_true _ _).mp (hknown job hjob)
  exact ⟨worker, hworker, hoperator, fun sent hsent _ =>
    hpasses (List.mem_of_find?_eq_some hworker) (hshort sent hsent)⟩

/-- Three rows of a table of two files. -/
def PlanNode.limitedScan : PlanNode :=
  let schema : Schema := { fields := [⟨"n", .int32, true⟩] }
  let scan : PlanNode := ⟨.scan { table := "a", files := ["0", "1"] }, [], schema, []⟩
  ⟨.limit 3, [scan], schema, []⟩

theorem StageGraph.ofPlan_handsOut_limitedScan :
    ∃ graph scheduler, StageGraph.ofPlan .limitedScan 2 .twoWorkers = (.ok graph, scheduler) ∧
      graph.jobs.length = 6 ∧ ∃ c exchanges,
        Cluster.handOut (fun _ => 0) default (fun _ c => c) graph { queryId := default }
          (.twoWorkers, []) = (.ok (), c, exchanges) ∧
        exchanges.map (·.sent) = graph.requests { queryId := default } ∧
        (∀ earlier later x, exchanges = earlier ++ x :: later →
          x.before.InOrder graph { queryId := default } (earlier.map (·.sent)) x.sent) ∧
        ∃ c', Cluster.dispatch 0 graph { queryId := default } .twoWorkers = (.ok (), c') := by
  have hgraph : (StageGraph.ofPlan .limitedScan 2 .twoWorkers).1.toOption.any (fun graph =>
      graph.jobs.length = 6 ∧ (graph.jobs.map (·.location.name)).Nodup ∧
      (∀ job ∈ graph.jobs, job.kind.Legible) ∧
      (∀ job ∈ graph.jobs, (Cluster.twoWorkers.workerAt? job.location.controlAddress).any
        (·.registry.contains job.tag)) ∧
      (∀ job ∈ graph.jobs, (Cluster.twoWorkers.executor? job.location).isNone) ∧
      ∀ sent ∈ graph.requests { queryId := default },
        (Json.encoded sent.request.toJson.chars).length ≤ 4000) = true := by
    decide +kernel
  rcases h : StageGraph.ofPlan .limitedScan 2 .twoWorkers with ⟨_ | graph, scheduler⟩
  · rw [h] at hgraph
    cases hgraph
  rw [h] at hgraph
  obtain ⟨hlength, hn, hlegible, hknown, hvacant, hshort⟩ := of_decide_eq_true hgraph
  have hplan : PlanNode.limitedScan.In64 := by
    refine PlanNode.forall_occurs_iff.mpr ⟨List.forall_mem_singleton.mpr ?_, ?_⟩
    · exact PlanNode.forall_occurs_iff.mpr ⟨nofun, trivial⟩
    · exact show 3 < UInt64.size by decide
  have hp : 2 < UInt64.size := by decide
  have hconfig := QuerySettings.in64_default default
  have hdistinct : Cluster.twoWorkers.Distinct := show ["v", "w"].Nodup by decide
  have hequipped := Cluster.equipped_twoWorkers hknown hshort
  have hvacant (job : StageJob) (hjob : job ∈ graph.jobs) :
      Cluster.twoWorkers.executor? job.location = none :=
    Option.isNone_iff_eq_none.mp (hvacant job hjob)
  obtain ⟨c, exchanges, hhandOut⟩ := Cluster.handOut_succeeds
    (ofPlan_sendable hplan hp h hconfig hn hlegible) hdistinct hequipped hvacant (fun _ => 0) default
  obtain ⟨hanswers, hcluster⟩ := ofPlan_handsOut h { queryId := default }
  obtain ⟨-, hphased⟩ := hanswers _ _ _ _ _
  obtain ⟨hinOrder, hdispatch⟩ := hcluster hplan hp hconfig hn _ hdistinct
  refine ⟨graph, scheduler, rfl, hlength, c, exchanges, hhandOut,
    ((hphased _ hhandOut).ok_iff.mp rfl).1, fun earlier later x hsplit => ?_,
    hdispatch hlegible hequipped hvacant 0⟩
  rw [hsplit] at hhandOut
  exact hinOrder _ _ _ _ _ _ _ _ (fun _ _ => ⟨id, fun _ _ _ he _ _ => he⟩) hhandOut

end StagedQuery
