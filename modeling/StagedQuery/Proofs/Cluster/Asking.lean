import Mathlib.Data.List.Find
import StagedQuery.Cluster.Run
import StagedQuery.Proofs.Codec.Jobs
import StagedQuery.Proofs.Executor.Orderly
import StagedQuery.Proofs.Wire.Cut
import StagedQuery.Proofs.Wire.Refusal

/-!
# What an answer that is Ok stands for

A request and its answer travel as bytes. When the answer is read as Ok, then the worker at the
address has read the request, and has done it (`Cluster.ask_eq_ok`). It has done it to the executor
that the request names: all other executors that are not finished stay as they are
(`Cluster.executor?_ask`).
-/

namespace StagedQuery

/-! ### One message -/

/-- A message and the marker are written, or nothing is. -/
theorem FrameWriter.bytes_of_send (json : Json) :
    let sent := ((writeJson json >>= fun _ => finish) {}).2.sink.bytes
    frameOf json.bytes = .ok (frameBytes json.bytes) ∧ sent = frameBytes json.bytes ++ endMarker ∨
      sent = [] := by
  have hsink : Sink.NeverFails {} := fun _ _ => rfl
  rcases writeMessage_cases json.bytes {} with ⟨hframe, hwrite⟩ | ⟨e, offered, hwrite⟩
  · have hfinish := finish_eq (w := { sink := Sink.took {} (frameBytes json.bytes) }) rfl
      (hsink.took _)
    have hsend := (Action.bind_ok hwrite (f := fun _ => finish)).trans hfinish
    refine .inl ⟨hframe, (congrArg (·.2.sink.bytes) hsend).trans ?_⟩
    simp only [Sink.bytes_took]
    rfl
  · exact .inr (congrArg (·.2.sink.bytes) (Action.bind_error hwrite (f := fun _ => finish)))

/-- Who gets a message gets what its text is read as. -/
theorem FrameReader.readJson_send {α : Type} {decoder : Json.Decoder α} (json : Json)
    {r r' : FrameReader} {result : Option α} (hf : r.finished = false)
    (hr : r.rest = ((FrameWriter.writeJson json >>= fun _ => FrameWriter.finish) {}).2.sink.bytes)
    (h : readJson decoder r = (.ok result, r')) :
    ∃ a, result = some a ∧ Json.decodeBytes decoder json.bytes = some a := by
  obtain ⟨message, s, hmessage, h⟩ := Action.bind_eq_ok.mp h
  rcases FrameWriter.bytes_of_send json with ⟨hframe, hbytes⟩ | hbytes
  · have hfaces : r.Faces (frameBytes json.bytes ++ endMarker) :=
      ⟨hf, (hr.trans hbytes) ▸ List.prefix_refl _⟩
    obtain ⟨rfl, -⟩ := readMessage_first hframe hfaces hmessage
    dsimp only at h
    cases hdecode : Json.decodeBytes decoder json.bytes with
    | none =>
      rw [hdecode] at h
      cases h
    | some a =>
      rw [hdecode] at h
      cases h
      exact ⟨a, rfl, rfl⟩
  · have hfaces : r.Faces [] := ⟨hf, (hr.trans hbytes) ▸ List.prefix_refl _⟩
    exact absurd hmessage (readMessage_nothing hfaces)

theorem ControlRequest.send_eq (request : ControlRequest) :
    request.send = FrameWriter.writeJson request.toJson >>= fun _ => FrameWriter.finish := rfl

theorem ControlResponse.send_eq (response : ControlResponse) :
    response.send = FrameWriter.writeJson response.toJson >>= fun _ => FrameWriter.finish := rfl

namespace ControlAnswer

variable {address : String} {network : ConnectionSettings} {answer : ControlResponse}

theorem of_read {bytes : Bytes} (h : read address network bytes = .ok answer) :
    ∃ r', FrameReader.readJson ControlResponse.decoder
      { rest := bytes, maxMessage := network.maxMessageSize } = (.ok (some answer), r') ∧
        ∀ message, answer ≠ .error message := by
  rw [read] at h
  rcases hread : FrameReader.readJson ControlResponse.decoder
    { rest := bytes, maxMessage := network.maxMessageSize } with ⟨_ | _ | answer', r'⟩
  · rw [hread] at h
    cases h
  · rw [hread] at h
    cases h
  · rw [hread] at h
    cases answer' with
    | error message => cases h
    | ok | location l =>
      cases h
      exact ⟨r', rfl, nofun⟩

/-- No answer is read from nothing. -/
theorem read_nil : read address network [] ≠ .ok answer := by
  intro h
  obtain ⟨r', hread, -⟩ := of_read h
  obtain ⟨message, s, hmessage, -⟩ := Action.bind_eq_ok.mp hread
  exact FrameReader.readMessage_nothing ⟨rfl, List.prefix_refl []⟩ hmessage

/-- An error is not taken for an answer. -/
theorem read_error (message : String) :
    read address network ((ControlResponse.error message).send {}).2.sink.bytes ≠ .ok answer := by
  intro h
  obtain ⟨r', hread, hanswer⟩ := of_read h
  rw [ControlResponse.send_eq] at hread
  generalize hr : FrameReader.mk _ _ _ _ = r at hread
  obtain ⟨_, heq, hdecode⟩ := FrameReader.readJson_send (ControlResponse.error message).toJson
    (by rw [← hr]) (by rw [← hr]) hread
  cases heq
  have hin : (ControlResponse.error message).In64 := trivial
  rw [(ControlResponse.readsBack hin).decodeBytes (by decide)] at hdecode
  cases hdecode
  exact hanswer message rfl

end ControlAnswer

theorem ControlRequest.Resembles.executor_eq {request other : ControlRequest}
    (h : request.Resembles other) : other.executor = request.executor := by
  cases request with
  | accept job config =>
    obtain ⟨kind, -, rfl⟩ := h
    rfl
  | setupWriters | setupReaders | run | resolveOutputLocation => exact congrArg executor h

/-! ### Executors of a worker -/

/-- An executor that has accepted a job, and nothing else. -/
def Executor.accepted (now : Nat) (message : String) (job : StageJob) (config : QuerySettings) :
    Executor :=
  log
    { location := job.location
      held := some (job, config)
      reporting := config.coordinator.isSome }
    now .info message

theorem Executor.name_setupWriters {transport : Transport} {now : Nat} {e e' : Executor}
    (h : setupWriters transport now e = (.ok (), e')) : e'.name = e.name := by
  obtain ⟨_, _, _, -, -, rfl⟩ := setupWriters_eq_ok h
  rfl

theorem Executor.name_setupReaders {transport : Transport} {now : Nat} {e e' : Executor}
    (h : setupReaders transport now e = (.ok (), e')) : e'.name = e.name := by
  obtain ⟨_, _, _, -, -, rfl⟩ := setupReaders_eq_ok h
  rfl

namespace Worker

variable {w w' : Worker} {name : String} {e : Executor}

theorem name_of_executor? (h : w.executor? name = some e) : e.name = name := by
  simpa using List.find?_some h

/-- Executors that are not finished are still there. -/
theorem executor?_prune (h : w.executor? name = some e) (hlive : e.isFinished = false) :
    w.prune.executor? name = some e := by
  obtain ⟨hname, before, behind, hsplit, hbefore⟩ := List.find?_eq_some_iff_append.mp h
  rw [executor?, prune, hsplit, List.filter_append, List.filter_cons_of_pos (by simp [hlive])]
  refine List.find?_eq_some_iff_append.mpr ⟨hname, _, _, rfl, fun other hother => ?_⟩
  exact hbefore other (List.mem_of_mem_filter hother)

theorem executor?_prune_eq_none (h : w.executor? name = none) : w.prune.executor? name = none := by
  refine List.find?_eq_none.mpr fun e he => ?_
  exact List.find?_eq_none.mp h e (List.mem_of_mem_filter he)

theorem executor?_update (w : Worker) (e : Executor) (name : String) :
    (w.update e).executor? name =
      (w.executor? name).map fun old => if old.name = e.name then e else old := by
  rw [executor?, update, List.find?_map]
  refine congrArg (Option.map _) (congrArg (List.find? · w.executors) (funext fun old => ?_))
  simp only [Function.comp_apply]
  split
  · rename_i h
    rw [h]
  · rfl

theorem onExecutor_eq_ok {α : Type} {x : Action Executor α} {a : α}
    (h : onExecutor name x w = (.ok a, w')) :
    ∃ e e', w.executor? name = some e ∧ x e = (.ok a, e') ∧ w' = w.update e' := by
  rw [onExecutor] at h
  split at h
  · cases h
  · rename_i e he
    rcases hx : x e with ⟨result, e'⟩
    simp only [hx] at h
    cases h
    exact ⟨e, e', he, hx, rfl⟩

variable {α : Type} {x : Action Executor α} {a : α} {job : StageJob} {config : QuerySettings}
  {transport : Transport} {now : Nat}

/-- An action on an executor that keeps its name leaves the others alone. -/
theorem onExecutor_keeps (h : onExecutor name x w = (.ok a, w'))
    (hname : ∀ e e', x e = (.ok a, e') → e'.name = e.name) :
    (∃ executors, w' = { w with executors }) ∧
      ∀ other, other ≠ name → w'.executor? other = w.executor? other := by
  obtain ⟨e, e', he, hx, rfl⟩ := onExecutor_eq_ok h
  refine ⟨⟨_, rfl⟩, fun other hother => ?_⟩
  rw [executor?_update]
  cases hold : w.executor? other with
  | none => rfl
  | some old =>
    have hne : old.name ≠ e'.name := by
      rw [name_of_executor? hold, hname e e' hx, name_of_executor? he]
      exact hother
    exact congrArg some (if_neg hne)

/-- The executor of an action on it, afterwards. -/
theorem executor?_onExecutor (h : onExecutor name x w = (.ok a, w')) (he : w.executor? name = some e)
    (hname : ∀ e e', x e = (.ok a, e') → e'.name = e.name) :
    ∃ e', x e = (.ok a, e') ∧ w'.executor? name = some e' := by
  obtain ⟨_, e', he', hx, rfl⟩ := onExecutor_eq_ok h
  cases he.symm.trans he'
  refine ⟨e', hx, ?_⟩
  rw [executor?_update, he, Option.map_some, if_pos (hname e e' hx).symm]

/-- A job that is accepted gets an executor of its own. -/
theorem accept_eq_ok (h : accept now job config w = (.ok (), w')) :
    w.executor? job.location.name = none ∧ ∃ message,
      w' = { w with executors := w.executors ++ [.accepted now message job config] } := by
  rw [accept] at h
  split at h
  · cases h
  · rename_i hnone
    split at h
    · cases h
    · rename_i e haccept
      cases h
      obtain ⟨-, -, -, -, message, rfl⟩ := Executor.accept_eq_ok haccept
      exact ⟨hnone, message, rfl⟩

theorem executor?_accept (h : accept now job config w = (.ok (), w')) :
    (∃ executors, w' = { w with executors }) ∧
      (∃ message, w'.executor? job.location.name = some (.accepted now message job config)) ∧
      ∀ other, other ≠ job.location.name → w'.executor? other = w.executor? other := by
  obtain ⟨hnone, message, rfl⟩ := accept_eq_ok h
  have hname : (Executor.accepted now message job config).name = job.location.name := rfl
  have hfind (e : Executor) (other : String) : (w.executors ++ [e]).find? (·.name == other) =
      (w.executor? other).or (if e.name = other then some e else none) := by
    rw [List.find?_append, List.find?_singleton]
    simp only [beq_iff_eq]
    rfl
  refine ⟨⟨_, rfl⟩, ⟨message, ?_⟩, fun other hother => ?_⟩
  · rw [executor?, hfind, hnone, if_pos hname]
    rfl
  · rw [executor?, hfind, if_neg (hname ▸ hother.symm), Option.or_none]

/-- What a request does that is answered with Ok. -/
theorem of_dispatch {x : Action Worker Unit} {response : ControlResponse}
    (h : (Action.get >>= fun (_ : Worker) => x >>= fun _ => pure ControlResponse.ok) w =
      (.ok response, w')) : x w = (.ok (), w') := by
  rw [Action.get_bind] at h
  obtain ⟨⟨⟩, _, hx, hanswer⟩ := Action.bind_eq_ok.mp h
  cases hanswer
  exact hx

/-- A request only touches the executor that it names. -/
theorem dispatch_keeps {request : ControlRequest} {response : ControlResponse}
    (h : dispatch transport now request w = (.ok response, w')) :
    (∃ executors, w' = { w with executors }) ∧
      ∀ other, other ≠ request.executor → w'.executor? other = w.executor? other := by
  cases request with
  | accept job config =>
    obtain ⟨halike, -, hother⟩ := executor?_accept (of_dispatch h)
    exact ⟨halike, hother⟩
  | setupWriters name => exact onExecutor_keeps (of_dispatch h) fun _ _ => Executor.name_setupWriters
  | setupReaders name => exact onExecutor_keeps (of_dispatch h) fun _ _ => Executor.name_setupReaders
  | run name =>
    refine onExecutor_keeps (of_dispatch h) fun e e' hx => ?_
    obtain ⟨_, -, -, -, -, -, -, -, rfl⟩ := Executor.run_eq_ok hx
    rfl
  | resolveOutputLocation name channel =>
    rw [dispatch, Action.get_bind] at h
    obtain ⟨l, _, hcall, hanswer⟩ := Action.bind_eq_ok.mp h
    cases hanswer
    refine onExecutor_keeps hcall fun e e' hx => ?_
    rw [(Prod.mk.inj hx).2]

theorem info_dispatch {request : ControlRequest} {response : ControlResponse}
    (h : dispatch transport now request w = (.ok response, w')) : w'.info = w.info := by
  obtain ⟨⟨executors, rfl⟩, -⟩ := dispatch_keeps h
  rfl

/-- What is answered to a request that was sent, other than nothing or an error, is answered to what
the text of the request is read as. -/
theorem serve_send {request : ControlRequest} {fresh : Identifier} {address : String}
    {network : ConnectionSettings} {answer : ControlResponse}
    (h : ControlAnswer.read address network
      (w.serve transport now fresh (request.send {}).2.sink.bytes).1 = .ok answer) :
    ∃ got response, Json.decodeBytes (ControlRequest.decoder fresh) request.toJson.bytes = some got ∧
      dispatch transport now got w.prune =
        (.ok response, (w.serve transport now fresh (request.send {}).2.sink.bytes).2) := by
  rw [serve] at h ⊢
  rw [ControlRequest.send_eq] at h ⊢
  dsimp only at h ⊢
  generalize hr : FrameReader.mk _ _ _ _ = r at h ⊢
  rcases hread : FrameReader.readJson (ControlRequest.decoder fresh) r with ⟨_ | _ | got, r'⟩
  · rw [hread] at h
    exact absurd h ControlAnswer.read_nil
  · rw [hread] at h
    exact absurd h ControlAnswer.read_nil
  · obtain ⟨_, heq, hdecode⟩ := FrameReader.readJson_send request.toJson (by rw [← hr])
      (by rw [← hr]) hread
    cases heq
    rw [hread] at h
    dsimp only at h ⊢
    cases hdispatch : dispatch transport now got w.prune with
    | mk result w' =>
      cases result with
      | error e =>
        have hhandle : handle transport now got w.prune = (.error e.message, w') := by
          rw [handle, hdispatch]
        rw [hhandle] at h
        dsimp only at h
        exact absurd h (ControlAnswer.read_error e.message)
      | ok response =>
        have hhandle : handle transport now got w.prune = (response, w') := by
          rw [handle, hdispatch]
        refine ⟨got, response, hdecode, ?_⟩
        rw [hdispatch, hhandle]

end Worker

/-! ### The workers of a cluster -/

namespace Cluster

variable {c c' : Cluster} {address : String} {worker worker' : Worker} {location : Location}
  {e : Executor}

/-- The workers have names of their own. -/
def Distinct (c : Cluster) : Prop := (c.workers.map (·.info.name)).Nodup

/-- Another worker in the place of the one of its name. -/
def put (c : Cluster) (worker : Worker) : Cluster :=
  { c with workers := c.workers.map fun w => if w.info.name = worker.info.name then worker else w }

/-- The executor that an output is one of. -/
def executor? (c : Cluster) (location : Location) : Option Executor :=
  (c.workerAt? location.controlAddress).bind (·.executor? location.name)

theorem distinct_put (hn : c.Distinct) (worker : Worker) : (c.put worker).Distinct := by
  have hnames : (c.put worker).workers.map (·.info.name) = c.workers.map (·.info.name) := by
    rw [put, List.map_map]
    refine List.map_congr_left fun w _ => ?_
    simp only [Function.comp_apply]
    split
    · rename_i h
      exact h.symm
    · rfl
  rw [Distinct, hnames]
  exact hn

theorem workerAt?_put (hn : c.Distinct) (hw : c.workerAt? address = some worker)
    (hinfo : worker'.info = worker.info) (other : String) :
    (c.put worker').workerAt? other =
      if other = address then some worker' else c.workerAt? other := by
  have hworker : worker ∈ c.workers := List.mem_of_find?_eq_some hw
  have hsame (w : Worker) (hmem : w ∈ c.workers) :
      w.info.name = worker'.info.name ↔ w = worker := by
    rw [hinfo]
    exact ⟨fun h => List.inj_on_of_nodup_map hn hmem hworker h, fun h => by rw [h]⟩
  have haddress : addressOf worker = address := by simpa using List.find?_some hw
  have hfind : (c.put worker').workerAt? other = (c.workerAt? other).map
      fun w => if w.info.name = worker'.info.name then worker' else w := by
    rw [workerAt?, put, List.find?_map]
    refine congrArg (Option.map _) (List.find?_congr fun w hmem => ?_)
    simp only [Function.comp_apply]
    split
    · rename_i h
      rw [(hsame w hmem).mp h, addressOf, hinfo]
      rfl
    · rfl
  rw [hfind]
  by_cases hother : other = address
  · rw [hother, hw, Option.map_some, if_pos rfl, hinfo, if_pos rfl]
  · rw [if_neg hother]
    cases hold : c.workerAt? other with
    | none => rfl
    | some w =>
      have hmem : w ∈ c.workers := List.mem_of_find?_eq_some hold
      have hat : addressOf w = other := by simpa using List.find?_some hold
      have hne : ¬ w.info.name = worker'.info.name := by
        rw [hsame w hmem]
        rintro rfl
        exact hother (hat.symm.trans haddress)
      rw [Option.map_some, if_neg hne]

variable {now : Nat} {fresh : Identifier} {request : ControlRequest}

/-- When the answer is Ok, the worker has done what it has read, and nobody else anything. -/
theorem ask_eq_ok (hrequest : request.In64) (h : ask now fresh address request c = (.ok (), c')) :
    ∃ worker got response worker', c.workerAt? address = some worker ∧ request.Resembles got ∧
      worker.prune.dispatch c.transport now got = (.ok response, worker') ∧ c' = c.put worker' := by
  rw [ask] at h
  split at h
  · cases h
  rename_i worker hworker
  rcases hsend : request.send {} with ⟨_ | ⟨⟩, sent⟩
  · rw [hsend] at h
    cases h
  rw [hsend] at h
  obtain ⟨hanswer, rfl⟩ := Prod.mk.inj h
  obtain ⟨answer, hread, -⟩ := Result.bind_eq_ok.mp hanswer
  have hserved : ControlAnswer.read address c.coordinator.network
      (worker.serve c.transport now fresh (request.send {}).2.sink.bytes).1 = .ok answer := by
    rw [hsend]
    exact hread
  obtain ⟨got, response, hdecode, hdispatch⟩ := Worker.serve_send hserved
  rw [hsend] at hdispatch
  exact ⟨worker, got, response, _, hworker, ControlRequest.resembles_of_decodeBytes hrequest hdecode,
    hdispatch, rfl⟩

theorem distinct_ask (hn : c.Distinct) (hrequest : request.In64)
    (h : ask now fresh address request c = (.ok (), c')) : c'.Distinct := by
  obtain ⟨_, _, _, worker', -, -, -, rfl⟩ := ask_eq_ok hrequest h
  exact distinct_put hn worker'

/-- The worker that was asked, and what became of the executor of an output there. -/
theorem executor?_asked (hn : c.Distinct) (hrequest : request.In64)
    (h : ask now fresh location.controlAddress request c = (.ok (), c')) :
    ∃ worker got response worker', c.workerAt? location.controlAddress = some worker ∧
      request.Resembles got ∧ worker.prune.dispatch c.transport now got = (.ok response, worker') ∧
        c'.executor? location = worker'.executor? location.name := by
  obtain ⟨worker, got, response, worker', hworker, hgot, hdispatch, rfl⟩ := ask_eq_ok hrequest h
  refine ⟨worker, got, response, worker', hworker, hgot, hdispatch, ?_⟩
  have hinfo : worker'.info = worker.prune.info := Worker.info_dispatch hdispatch
  rw [executor?, workerAt?_put hn hworker hinfo, if_pos rfl]
  rfl

theorem executor?_prune (he : c.executor? location = some e) (hlive : e.isFinished = false)
    (hworker : c.workerAt? location.controlAddress = some worker) :
    worker.prune.executor? location.name = some e := by
  rw [executor?, hworker] at he
  exact Worker.executor?_prune he hlive

/-- What is there under another name than that of the request stays, unless it is pruned. -/
theorem executor?_ask_eq (hn : c.Distinct) (hrequest : request.In64)
    (h : ask now fresh address request c = (.ok (), c')) (hother : location.name ≠ request.executor)
    (hkept : ∀ worker, c.workerAt? location.controlAddress = some worker →
      worker.prune.executor? location.name = worker.executor? location.name) :
    c'.executor? location = c.executor? location := by
  by_cases haddress : location.controlAddress = address
  · subst haddress
    obtain ⟨worker, got, response, worker', hworker, hgot, hdispatch, hasked⟩ :=
      executor?_asked hn hrequest h
    rw [hasked, (Worker.dispatch_keeps hdispatch).2 _ (hgot.executor_eq ▸ hother),
      hkept worker hworker, executor?, hworker]
    rfl
  · obtain ⟨worker, got, response, worker', hworker, -, hdispatch, rfl⟩ := ask_eq_ok hrequest h
    have hinfo : worker'.info = worker.prune.info := Worker.info_dispatch hdispatch
    rw [executor?, workerAt?_put hn hworker hinfo, if_neg haddress]
    rfl

/-- Executors that the request does not name, unless they are finished, stay as they are. -/
theorem executor?_ask (hn : c.Distinct) (hrequest : request.In64)
    (h : ask now fresh address request c = (.ok (), c')) (hother : location.name ≠ request.executor)
    (he : c.executor? location = some e) (hlive : e.isFinished = false) :
    c'.executor? location = some e := by
  refine (executor?_ask_eq hn hrequest h hother fun worker hworker => ?_).trans he
  rw [executor?_prune he hlive hworker]
  rw [executor?, hworker] at he
  exact he.symm

/-- No executor comes to be by a request that does not name it. -/
theorem executor?_ask_eq_none (hn : c.Distinct) (hrequest : request.In64)
    (h : ask now fresh address request c = (.ok (), c')) (hother : location.name ≠ request.executor)
    (hvacant : c.executor? location = none) : c'.executor? location = none := by
  refine (executor?_ask_eq hn hrequest h hother fun worker hworker => ?_).trans hvacant
  rw [executor?, hworker] at hvacant
  exact (Worker.executor?_prune_eq_none hvacant).trans hvacant.symm

/-- A job that is accepted gets an executor, which holds it. -/
theorem ask_accept {job : StageJob} {config : QuerySettings} (hn : c.Distinct)
    (hrequest : (ControlRequest.accept job config).In64)
    (h : ask now fresh job.location.controlAddress (.accept job config) c = (.ok (), c')) :
    ∃ kind message, (job.kind.Legible → kind = job.kind) ∧
      c'.executor? job.location = some (.accepted now message { job with kind } config) := by
  obtain ⟨worker, _, response, worker', -, ⟨kind, hkind, rfl⟩, hdispatch, hasked⟩ :=
    executor?_asked hn hrequest h
  obtain ⟨-, ⟨message, he⟩, -⟩ := Worker.executor?_accept (Worker.of_dispatch hdispatch)
  exact ⟨kind, message, hkind, hasked.trans he⟩

section Call

variable (hn : c.Distinct) (he : c.executor? location = some e) (hlive : e.isFinished = false)
include hn he hlive

/-- What is asked of an executor is done. -/
theorem ask_call {x : Action Executor Unit} (hrequest : request.In64)
    (h : ask now fresh location.controlAddress request c = (.ok (), c'))
    (hcall : ∀ (got : ControlRequest) (response : ControlResponse) (w w' : Worker),
      request.Resembles got → w.dispatch c.transport now got = (.ok response, w') →
        Worker.onExecutor location.name x w = (.ok (), w'))
    (hname : ∀ e e', x e = (.ok (), e') → e'.name = e.name) :
    ∃ e', x e = (.ok (), e') ∧ c'.executor? location = some e' := by
  obtain ⟨worker, got, response, worker', hworker, hgot, hdispatch, hasked⟩ :=
    executor?_asked hn hrequest h
  obtain ⟨e', hx, he'⟩ := Worker.executor?_onExecutor (hcall _ _ _ _ hgot hdispatch)
    (executor?_prune he hlive hworker) hname
  exact ⟨e', hx, hasked.trans he'⟩

theorem ask_setupWriters
    (h : ask now fresh location.controlAddress (.setupWriters location.name) c = (.ok (), c')) :
    ∃ e', Executor.setupWriters c.transport now e = (.ok (), e') ∧
      c'.executor? location = some e' := by
  have hrequest : (ControlRequest.setupWriters location.name).In64 := trivial
  refine ask_call hn he hlive hrequest h (fun got response w w' hgot hdispatch => ?_)
    fun _ _ => Executor.name_setupWriters
  obtain rfl := hgot
  exact Worker.of_dispatch hdispatch

theorem ask_setupReaders
    (h : ask now fresh location.controlAddress (.setupReaders location.name) c = (.ok (), c')) :
    ∃ e', Executor.setupReaders c.transport now e = (.ok (), e') ∧
      c'.executor? location = some e' := by
  have hrequest : (ControlRequest.setupReaders location.name).In64 := trivial
  refine ask_call hn he hlive hrequest h (fun got response w w' hgot hdispatch => ?_)
    fun _ _ => Executor.name_setupReaders
  obtain rfl := hgot
  exact Worker.of_dispatch hdispatch

end Call

end Cluster

end StagedQuery
