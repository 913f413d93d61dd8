import StagedQuery.Executor.Lifecycle
import StagedQuery.Proofs.Action
import StagedQuery.Proofs.Executor.State

/-!
# Calls on an executor

Setting up outputs and inputs waits for the network, and clearing waits for the outputs that are
given up; other calls may come in between. `beginWriters` is what the first of them does up to the
point where it waits, and `endWriters` what it does afterwards, and so on. With nothing in between
the two make up the call (`setupWriters_eq`, `setupReaders_eq`, `clear_eq`).

For each part there is one lemma that says what it can do: either it is refused, and then nothing
has changed but the log, or it does the one thing that it is there for.
-/

namespace StagedQuery.Executor

/-! ### Parts of calls -/

/-- Begin to set up the outputs: there must be a job, and no outputs yet. -/
def beginWriters (now : Nat) : Action Executor (StageJob × QuerySettings) :=
  record now do
    let held ← heldJob
    let e ← .get
    if e.published.isSome then .fail (.channel (.writersReady e.name))
    pure held

/-- Offer the outputs of a job, and publish where they are found. -/
def endWriters (transport : Transport) (now : Nat) (held : StageJob × QuerySettings) :
    Action Executor Unit :=
  record now do
    let outputs ← .ofExcept (listenAll transport held.2 held.1.schema held.1.outputs)
    .modify fun e =>
      log { e with writers := outputs.map (·.2), published := some (outputs.map (·.1)) } now .info
        s!"listening on {outputs.length} outputs"

/-- Begin to set up the inputs: there must be a job. -/
def beginReaders (now : Nat) : Action Executor (StageJob × QuerySettings) := record now heldJob

/-- Reach the inputs of a job. -/
def endReaders (transport : Transport) (now : Nat) (held : StageJob × QuerySettings) :
    Action Executor Unit :=
  record now do
    let readers ← .ofExcept (dialAll transport held.2 held.1.inputs)
    .modify fun e => log { e with readers } now .info s!"connected to {held.1.inputs.length} inputs"

/-- Begin to end the executor: the outputs that are set up are given up. -/
def beginClear (e : Executor) : Executor := { e with writers := [] }

/-- End the executor: a job that has not ended has failed. -/
def endClear (now : Nat) (e : Executor) : Executor :=
  let state :=
    if e.state.status.isTerminal then e.state
    else (e.state.fail now "cleared before completion").2
  complete { e with readers := [], state }

variable {e : Executor} {now : Nat}

theorem record_ok {α : Type} {x : Action Executor α} {a : α} {e' : Executor}
    (h : x e = (.ok a, e')) : record now x e = (.ok a, e') := by
  rw [record, h]

theorem record_error {α : Type} {x : Action Executor α} {fault : Error} {e' : Executor}
    (h : x e = (.error fault, e')) :
    record now x e = (.error fault, e'.log now .error fault.message) := by
  rw [record, h]

/-- An error is logged once, whichever part of a call it comes from. -/
theorem record_bind {α β : Type} (x : Action Executor α) (f : α → Action Executor β) :
    record now (x >>= f) = record now x >>= fun a => record now (f a) := by
  funext e
  rcases h : x e with ⟨fault | a, e'⟩
  · rw [record_error (Action.bind_error h), Action.bind_error (record_error h)]
  · rw [Action.bind_ok (record_ok h), record, record, Action.bind_ok h]

theorem setupWriters_eq (transport : Transport) (now : Nat) :
    setupWriters transport now = beginWriters now >>= endWriters transport now := by
  refine Eq.trans (congrArg (record now) (funext fun e => ?_)) (record_bind _ _)
  obtain ⟨_, _, held, _, _, published, _, _, _, _⟩ := e
  cases held with
  | none => rfl
  | some held => cases published <;> rfl

theorem setupReaders_eq (transport : Transport) (now : Nat) :
    setupReaders transport now = beginReaders now >>= endReaders transport now :=
  record_bind ..

variable {registry : Registry} {job : StageJob} {config : QuerySettings} {transport : Transport}
  {e' : Executor}

theorem of_record_ok {α : Type} {x : Action Executor α} {a : α}
    (h : record now x e = (.ok a, e')) : x e = (.ok a, e') := by
  rw [record] at h
  split at h
  · rename_i hx
    cases h
    exact hx
  · cases h

theorem heldJob_bind_eq_ok {α : Type} {f : StageJob × QuerySettings → Action Executor α} {a : α} :
    (heldJob >>= f) e = (.ok a, e') ↔ ∃ held, e.held = some held ∧ f held e = (.ok a, e') := by
  cases hheld : e.held with
  | none =>
    have hjob : heldJob e = (.error (.invalidJob (.notAccepted e.name)), e) := by
      rw [heldJob, hheld]
    simp [Action.bind_error hjob]
  | some held =>
    have hjob : heldJob e = (.ok held, e) := by rw [heldJob, hheld]
    simp [Action.bind_ok hjob]

/-- A job that is accepted is the first one, and a valid one for this executor. -/
theorem accept_eq_ok (h : accept registry now job config e = (.ok (), e')) :
    job.location.name = e.name ∧ job.validate = .ok () ∧ registry.contains job.tag = true ∧
      e.held = none ∧ ∃ message, e' =
        log { e with held := some (job, config), reporting := config.coordinator.isSome } now .info
          message := by
  have h := of_record_ok h
  rw [Action.get_bind] at h
  obtain ⟨hname, h⟩ := Action.guard_eq_ok.mp h
  obtain ⟨⟨⟩, hvalid, h⟩ := Action.ofExcept_bind_eq_ok.mp h
  obtain ⟨hoperator, h⟩ := Action.guard_eq_ok.mp h
  obtain ⟨hheld, h⟩ := Action.guard_eq_ok.mp h
  cases h
  exact ⟨Decidable.not_not.mp hname, hvalid, by simpa using hoperator, by simpa using hheld, _, rfl⟩

theorem beginWriters_eq_ok {held : StageJob × QuerySettings}
    (h : beginWriters now e = (.ok held, e')) : e.held = some held ∧ e' = e := by
  have h := of_record_ok h
  obtain ⟨held', hheld, h⟩ := heldJob_bind_eq_ok.mp h
  rw [Action.get_bind] at h
  obtain ⟨-, h⟩ := Action.guard_eq_ok.mp h
  cases h
  exact ⟨hheld, rfl⟩

theorem endWriters_eq_ok {held : StageJob × QuerySettings}
    (h : endWriters transport now held e = (.ok (), e')) :
    ∃ opened message,
      listenAll transport held.2 held.1.schema held.1.outputs = .ok opened ∧
      e' = log { e with writers := opened.map (·.2), published := some (opened.map (·.1)) } now
        .info message := by
  have h := of_record_ok h
  obtain ⟨opened, hopened, h⟩ := Action.ofExcept_bind_eq_ok.mp h
  cases h
  exact ⟨opened, _, hopened, rfl⟩

theorem beginReaders_eq_ok {held : StageJob × QuerySettings}
    (h : beginReaders now e = (.ok held, e')) : e.held = some held ∧ e' = e := by
  have h := of_record_ok h
  rw [heldJob] at h
  split at h
  · rename_i hheld
    cases h
    exact ⟨hheld, rfl⟩
  · cases h

theorem endReaders_eq_ok {held : StageJob × QuerySettings}
    (h : endReaders transport now held e = (.ok (), e')) :
    ∃ readers message, dialAll transport held.2 held.1.inputs = .ok readers ∧
      e' = log { e with readers } now .info message := by
  have h := of_record_ok h
  obtain ⟨readers, hreaders, h⟩ := Action.ofExcept_bind_eq_ok.mp h
  cases h
  exact ⟨readers, _, hreaders, rfl⟩

theorem setupWriters_eq_ok (h : setupWriters transport now e = (.ok (), e')) :
    ∃ held opened message, e.held = some held ∧
      listenAll transport held.2 held.1.schema held.1.outputs = .ok opened ∧
      e' = log { e with writers := opened.map (·.2), published := some (opened.map (·.1)) } now
        .info message := by
  rw [setupWriters_eq] at h
  obtain ⟨held, _, hbegin, hend⟩ := Action.bind_eq_ok.mp h
  obtain ⟨hheld, rfl⟩ := beginWriters_eq_ok hbegin
  obtain ⟨opened, message, hopened, rfl⟩ := endWriters_eq_ok hend
  exact ⟨held, opened, message, hheld, hopened, rfl⟩

theorem setupReaders_eq_ok (h : setupReaders transport now e = (.ok (), e')) :
    ∃ held readers message, e.held = some held ∧
      dialAll transport held.2 held.1.inputs = .ok readers ∧
      e' = log { e with readers } now .info message := by
  rw [setupReaders_eq] at h
  obtain ⟨held, _, hbegin, hend⟩ := Action.bind_eq_ok.mp h
  obtain ⟨hheld, rfl⟩ := beginReaders_eq_ok hbegin
  obtain ⟨readers, message, hreaders, rfl⟩ := endReaders_eq_ok hend
  exact ⟨held, readers, message, hheld, hreaders, rfl⟩

/-- An operator is started from the first status, with what was set up for the job. -/
theorem run_eq_ok (h : run registry now e = (.ok (), e')) :
    ∃ work : Work, e.held = some (work.job, work.config) ∧
      registry.get? work.job.tag = some work.operator ∧
      work.writers = e.writers ∧ e.writers.length = work.job.outputs.length ∧
      work.readers = e.readers ∧ e.readers.length = work.job.inputs.length ∧
      e.state.status = .todo ∧
      e' = { e with
        state := e.state.start.2, writers := [], readers := [], work := some work } := by
  have h := of_record_ok h
  obtain ⟨⟨job, config⟩, hheld, h⟩ := heldJob_bind_eq_ok.mp h
  dsimp only at h
  cases hoperator : registry.get? job.tag with
  | none =>
    rw [hoperator] at h
    cases h
  | some operator =>
    rw [hoperator] at h
    dsimp only at h
    rw [Action.get_bind] at h
    obtain ⟨hwired, h⟩ := Action.guard_eq_ok.mp h
    have houtputs : e.writers.length = job.outputs.length := by omega
    have hinputs : e.readers.length = job.inputs.length := by omega
    by_cases htodo : e.state.status = .todo
    · rw [if_neg (by simp [ExecutorState.start, htodo])] at h
      cases h
      exact ⟨_, hheld, hoperator, rfl, houtputs, rfl, hinputs, htodo, rfl⟩
    · rw [if_pos (by simp [ExecutorState.start, htodo])] at h
      cases h

/-! ### Calls that succeed -/

theorem accept_ok (hname : job.location.name = e.name) (hvalid : job.validate = .ok ())
    (hoperator : registry.contains job.tag = true) (hheld : e.held = none) :
    ∃ e', accept registry now job config e = (.ok (), e') := by
  have hknown : ¬(!registry.contains job.tag) = true := by simp [hoperator]
  have hfree : ¬e.held.isSome := by simp [hheld]
  apply Exists.intro
  apply record_ok
  apply Action.guard_eq_ok.mpr
  apply And.intro (not_not_intro hname)
  apply Action.ofExcept_bind_eq_ok.mpr
  exact ⟨(), hvalid, Action.guard_eq_ok.mpr ⟨hknown, Action.guard_eq_ok.mpr ⟨hfree, rfl⟩⟩⟩

theorem setupWriters_ok {held : StageJob × QuerySettings} (hheld : e.held = some held)
    (hpublished : e.published = none) {opened : List (Location × RowWriter)}
    (hopened : listenAll transport held.2 held.1.schema held.1.outputs = .ok opened) :
    ∃ e', setupWriters transport now e = (.ok (), e') := by
  have hfree : ¬e.published.isSome := by simp [hpublished]
  apply Exists.intro
  apply record_ok
  apply heldJob_bind_eq_ok.mpr
  exact ⟨held, hheld, Action.guard_eq_ok.mpr
    ⟨hfree, Action.ofExcept_bind_eq_ok.mpr ⟨opened, hopened, rfl⟩⟩⟩

theorem setupReaders_ok {held : StageJob × QuerySettings} (hheld : e.held = some held)
    {readers : List RowReader} (hreaders : dialAll transport held.2 held.1.inputs = .ok readers) :
    ∃ e', setupReaders transport now e = (.ok (), e') := by
  apply Exists.intro
  apply record_ok
  apply heldJob_bind_eq_ok.mpr
  exact ⟨held, hheld, Action.ofExcept_bind_eq_ok.mpr ⟨readers, hreaders, rfl⟩⟩

theorem run_ok {held : StageJob × QuerySettings} (hheld : e.held = some held) {operator : Operator}
    (hoperator : registry.get? held.1.tag = some operator)
    (houtputs : e.writers.length = held.1.outputs.length)
    (hinputs : e.readers.length = held.1.inputs.length) (htodo : e.state.status = .todo) :
    ∃ e', run registry now e = (.ok (), e') := by
  obtain ⟨job, config⟩ := held
  have hwired : ¬(e.writers.length ≠ job.outputs.length ∨ e.readers.length ≠ job.inputs.length) :=
    not_or.mpr ⟨not_not_intro houtputs, not_not_intro hinputs⟩
  have hstarted : ¬(!e.state.start.1) = true := by simp [ExecutorState.start, htodo]
  let work : Work := { operator, job, config, readers := e.readers, writers := e.writers }
  refine ⟨{ e with state := e.state.start.2, writers := [], readers := [], work },
    record_ok (heldJob_bind_eq_ok.mpr ⟨_, hheld, ?_⟩)⟩
  dsimp only at hoperator ⊢
  rw [hoperator]
  refine Action.guard_eq_ok.mpr ⟨hwired, ?_⟩
  rw [if_neg hstarted]
  rfl

/-! ### Calls that are refused -/

/-- An action that leaves the executor as it is, if it fails. -/
def Careful {α : Type} (x : Action Executor α) : Prop :=
  ∀ e fault e', x e = (.error fault, e') → e' = e

theorem careful_pure {α : Type} (a : α) : Careful (pure a) := by
  rintro e _ _ ⟨⟩

theorem careful_modify (f : Executor → Executor) : Careful (.modify f) := by
  rintro e _ _ ⟨⟩

/-- What comes behind something that only looks may still fail. -/
theorem Careful.bind {α β : Type} {x : Action Executor α} {f : α → Action Executor β}
    (hx : ∀ e, (x e).2 = e) (hf : ∀ a, Careful (f a)) : Careful (x >>= f) := by
  intro e fault e' h
  have hlook := hx e
  rcases hresult : x e with ⟨fault' | a, t⟩
  · rw [hresult] at hlook
    rw [Action.bind_error hresult] at h
    cases h
    exact hlook
  · rw [hresult] at hlook
    rw [Action.bind_ok hresult] at h
    exact (hf a t fault e' h).trans hlook

theorem Careful.get {α : Type} {f : Executor → Action Executor α} (hf : ∀ e, Careful (f e)) :
    Careful (Action.get >>= f) := .bind (fun _ => rfl) hf

theorem Careful.ofExcept {α β : Type} {x : Except Error α} {f : α → Action Executor β}
    (hf : ∀ a, Careful (f a)) : Careful (Action.ofExcept x >>= f) :=
  .bind (fun _ => by cases x <;> rfl) hf

theorem heldJob_looks (e : Executor) : (heldJob e).2 = e := by
  rw [heldJob]
  split <;> rfl

theorem Careful.guard {α : Type} {c : Prop} [Decidable c] {fault : Error} {x : Action Executor α}
    (hx : Careful x) : Careful (if c then .fail fault >>= fun (_ : Unit) => x else x) := by
  split
  · rintro e _ _ ⟨⟩
    rfl
  · exact hx

theorem of_record_error {α : Type} {x : Action Executor α} {fault : Error}
    (h : record now x e = (.error fault, e')) :
    ∃ t, x e = (.error fault, t) ∧ e' = t.log now .error fault.message := by
  rcases hresult : x e with ⟨fault' | a, t⟩
  · rw [record_error hresult] at h
    cases h
    exact ⟨t, rfl, rfl⟩
  · rw [record_ok hresult] at h
    cases h

theorem Careful.refused {α : Type} {x : Action Executor α} (hx : Careful x) {fault : Error}
    (h : record now x e = (.error fault, e')) : e' = e.log now .error fault.message := by
  obtain ⟨t, hresult, rfl⟩ := of_record_error h
  rw [hx e fault t hresult]

theorem accept_refused {fault : Error} (h : accept registry now job config e = (.error fault, e')) :
    e' = e.log now .error fault.message := by
  refine Careful.refused (.get fun e => ?_) h
  exact .guard (.ofExcept fun _ => .guard (.guard (careful_modify _)))

theorem beginWriters_refused {fault : Error} (h : beginWriters now e = (.error fault, e')) :
    e' = e.log now .error fault.message := by
  refine Careful.refused (.bind heldJob_looks fun held => .get fun e => ?_) h
  exact .guard (careful_pure held)

theorem endWriters_refused {held : StageJob × QuerySettings} {fault : Error}
    (h : endWriters transport now held e = (.error fault, e')) :
    e' = e.log now .error fault.message :=
  Careful.refused (.ofExcept fun _ => careful_modify _) h

theorem beginReaders_refused {fault : Error} (h : beginReaders now e = (.error fault, e')) :
    e' = e.log now .error fault.message := by
  refine Careful.refused (fun e fault e' hjob => ?_) h
  have hlook := heldJob_looks e
  rwa [hjob] at hlook

theorem endReaders_refused {held : StageJob × QuerySettings} {fault : Error}
    (h : endReaders transport now held e = (.error fault, e')) :
    e' = e.log now .error fault.message :=
  Careful.refused (.ofExcept fun _ => careful_modify _) h

/-- What was set up is lost if the operator cannot be started any more. -/
theorem run_refused {fault : Error} (h : run registry now e = (.error fault, e')) :
    e' = e.log now .error fault.message ∨
      e' = log { e with writers := [], readers := [] } now .error fault.message := by
  obtain ⟨t, hrun, rfl⟩ := of_record_error h
  suffices t = e ∨ t = { e with writers := [], readers := [] } by
    rcases this with rfl | rfl
    · exact .inl rfl
    · exact .inr rfl
  rcases Option.eq_none_or_eq_some e.held with hheld | ⟨held, hheld⟩
  · have hjob : heldJob e = (.error (.invalidJob (.notAccepted e.name)), e) := by
      rw [heldJob, hheld]
    rw [Action.bind_error hjob] at hrun
    cases hrun
    exact .inl rfl
  · have hjob : heldJob e = (.ok held, e) := by rw [heldJob, hheld]
    rw [Action.bind_ok hjob] at hrun
    dsimp only at hrun
    cases hoperator : registry.get? held.1.tag with
    | none =>
      rw [hoperator] at hrun
      cases hrun
      exact .inl rfl
    | some operator =>
      rw [hoperator] at hrun
      dsimp only at hrun
      rw [Action.get_bind] at hrun
      by_cases hwired : e.writers.length ≠ held.1.outputs.length ∨
          e.readers.length ≠ held.1.inputs.length
      · rw [if_pos hwired] at hrun
        cases hrun
        exact .inl rfl
      · rw [if_neg hwired] at hrun
        by_cases htodo : e.state.status = .todo
        · rw [if_neg (by simp [ExecutorState.start, htodo])] at hrun
          cases hrun
        · rw [if_pos (by simp [ExecutorState.start, htodo])] at hrun
          cases hrun
          exact .inr rfl

/-! ### The end -/

/-- What an operator has logged changes nothing but the log. -/
theorem logAll_eq (now : Nat) (logs : List (LogLevel × String)) (e : Executor) :
    ∃ state, logAll e now logs = { e with state } ∧ e.state.Evolves state ∧
      state.status = e.state.status := by
  induction logs generalizing e with
  | nil => exact ⟨e.state, rfl, .refl _, rfl⟩
  | cons entry logs ih =>
    obtain ⟨level, message⟩ := entry
    obtain ⟨state, heq, hevolves, hstatus⟩ := ih (e.log now level message)
    have hlog := ExecutorState.evolves_log e.state now level message
    exact ⟨state, heq, hlog.trans hevolves, hstatus⟩

/-- When the work has ended the status is terminal. It is a success only if the work was one and
its outputs were taken, and nothing had latched the status before. -/
theorem finish_eq (now : Nat) (outcome : Outcome) (taken : Except Error Unit) (e : Executor) :
    ∃ state, finish now outcome taken e = { e with work := none, done := true, state } ∧
      e.state.Evolves state ∧ state.status.isTerminal = true ∧
      (state.status = .succeed → e.state.status = .succeed ∨
        e.state.status.isTerminal = false ∧ outcome.result = .ok () ∧ taken = .ok ()) := by
  obtain ⟨logged, heq, hevolves, hstatus⟩ := logAll_eq now outcome.logs { e with work := none }
  have hbefore : logged.status = e.state.status := hstatus
  rw [finish, heq]
  rcases hresult : (outcome.result >>= fun _ => taken) with fault | ⟨⟩
  · obtain ⟨hterminal, hsucceed⟩ := (ExecutorState.evolves_fail logged now fault.message).latch
      (fun h => ExecutorState.status_fail h now fault.message) rfl
    rw [hbefore] at hsucceed
    refine ⟨_, rfl, hevolves.trans (ExecutorState.evolves_fail _ _ _), hterminal,
      fun h => (hsucceed h).imp_right nofun⟩
  · obtain ⟨hterminal, hsucceed⟩ := (ExecutorState.evolves_succeed logged now).latch
      (fun h => ExecutorState.status_succeed h now) rfl
    rw [hbefore] at hsucceed
    obtain ⟨⟨⟩, hok, htaken⟩ := Result.bind_eq_ok.mp hresult
    refine ⟨_, rfl, hevolves.trans (ExecutorState.evolves_succeed _ _), hterminal,
      fun h => (hsucceed h).imp_right fun h => ⟨h.1, hok, htaken⟩⟩

end StagedQuery.Executor
