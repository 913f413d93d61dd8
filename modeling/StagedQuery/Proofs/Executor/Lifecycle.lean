import StagedQuery.Proofs.Executor.Calls

/-!
# One life of an executor

Calls on an executor come in any order, and while one of them waits others come in between; the
operator returns when it does, and its outputs are handed over to their readers when these have
come. `Lifecycle.step` says what can happen next: calls, parts of calls, and the ends of what an
operator began. A call is not interrupted between the points where it waits.

`Lifecycle.Happens` lists what a step can do. Most steps do little: a call that is refused, or that
only begins to wait, leaves everything alone but the log and what is set up (`Lifecycle.Quiet`).
-/

namespace StagedQuery

/-! ### What can happen -/

/-- What became of an output that was closed. -/
inductive Handover
  /-- Its reader got everything. -/
  | delivered
  /-- The executor was done before a reader had come. -/
  | unclaimed
  /-- It broke on the way to its reader. -/
  | failed (fault : Error)

namespace Handover

/-- Nobody gives up waiting for a reader before the executor is done. -/
def isPossible (done : Bool) : Handover → Bool
  | delivered | failed _ => true
  | unclaimed => done

/-- What waiting for the end of each comes to. -/
def awaitAll : List Handover → Except Error Unit
  | [] => .ok ()
  | failed fault :: _ => .error fault
  | delivered :: rest | unclaimed :: rest => awaitAll rest

end Handover

/-- How the work ends on some inputs. -/
def Work.outcomeOn (work : Work) (inputs : List Delivery) : Outcome :=
  work.operator.perform work.job inputs work.writers

/-- Work that has ended: what its inputs brought, and what became of its outputs. -/
structure Ending where
  work : Work
  inputs : List Delivery
  handovers : List Handover

/-- An executor, the calls on it that wait, and what has happened so far. -/
structure Lifecycle where
  executor : Executor
  /-- The jobs for which outputs are being offered. -/
  opening : List (StageJob × QuerySettings) := []
  /-- The jobs for which inputs are being reached. -/
  dialing : List (StageJob × QuerySettings) := []
  /-- The number of calls that wait to clear. -/
  clearing : Nat := 0
  /-- Where the outputs are found that are set up and not yet in the operator's hands. -/
  offered : List Location := []
  /-- Where those are found that are in the operator's hands. -/
  awaited : List Location := []
  /-- What the inputs had brought when the operator returned. -/
  returned : Option (List Delivery) := none
  /-- The jobs that were accepted. -/
  accepted : List (StageJob × QuerySettings) := []
  /-- The work that was started. -/
  started : List Work := []
  /-- How often the completion signal was given. -/
  signals : Nat := 0
  ending : Option Ending := none

namespace Lifecycle

/-- An executor to which nothing has happened. -/
def start (location : Location) : Lifecycle where
  executor := { location }

/-- What can happen. -/
inductive Event
  | accept (now : Nat) (job : StageJob) (config : QuerySettings)
  | beginWriters (now : Nat)
  /-- One of the calls that offer outputs goes on. -/
  | endWriters (now i : Nat) (transport : Transport)
  | beginReaders (now : Nat)
  /-- One of the calls that reach inputs goes on. -/
  | endReaders (now i : Nat) (transport : Transport)
  | run (now : Nat)
  /-- The operator returns, and its outputs are closed or aborted. -/
  | operatorEnds (inputs : List Delivery)
  /-- The outputs are handed over, and the work ends. -/
  | outputsEnd (now : Nat) (handovers : List Handover)
  | beginClear
  | endClear (now : Nat)
  /-- Something is logged. -/
  | note (now : Nat) (level : LogLevel) (message : String)

/-- Call the executor; `next` is what else happens if that goes well. -/
def call {α : Type} (p : Lifecycle) (x : Action Executor α) (next : α → Lifecycle → Lifecycle) :
    Except Error Unit × Lifecycle :=
  match x p.executor with
  | (.ok a, executor) => (.ok (), next a { p with executor })
  | (.error fault, executor) => (.error fault, { p with executor })

/-- What comes of an event, if it can happen, and what whoever called is answered. -/
def step (registry : Registry) (p : Lifecycle) : Event → Option (Except Error Unit × Lifecycle)
  | .accept now job config =>
    some (p.call (Executor.accept registry now job config) fun _ p =>
      { p with accepted := p.accepted ++ [(job, config)] })
  | .beginWriters now =>
    some (p.call (Executor.beginWriters now) fun held p =>
      { p with opening := p.opening ++ [held] })
  | .endWriters now i transport =>
    p.opening[i]?.map fun held =>
      { p with opening := p.opening.eraseIdx i }.call (Executor.endWriters transport now held)
        fun _ p => { p with offered := p.executor.published.getD [] }
  | .beginReaders now =>
    some (p.call (Executor.beginReaders now) fun held p =>
      { p with dialing := p.dialing ++ [held] })
  | .endReaders now i transport =>
    p.dialing[i]?.map fun held =>
      { p with dialing := p.dialing.eraseIdx i }.call (Executor.endReaders transport now held)
        fun _ p => p
  | .run now =>
    some (p.call (Executor.run registry now) fun _ p =>
      { p with
        started := p.started ++ p.executor.work.toList, awaited := p.offered, offered := [] })
  | .operatorEnds inputs =>
    match p.executor.work, p.returned with
    | some work, none =>
      if inputs.length = work.readers.length ∧ (work.outcomeOn inputs).isWaiting = false then
        some (.ok (), { p with returned := some inputs })
      else none
    | _, _ => none
  | .outputsEnd now handovers =>
    match p.executor.work, p.returned with
    | some work, some inputs =>
      if handovers.length = p.awaited.length ∧
          handovers.all (·.isPossible p.executor.done) = true then
        some (.ok (), { p with
          executor := p.executor.finish now (work.outcomeOn inputs) (Handover.awaitAll handovers)
          returned := none
          signals := p.signals + (!p.executor.done).toNat
          ending := some { work, inputs, handovers } })
      else none
    | _, _ => none
  | .beginClear =>
    some (.ok (), { p with executor := p.executor.beginClear, clearing := p.clearing + 1 })
  | .endClear now =>
    if p.clearing = 0 then none
    else
      some (.ok (), { p with
        executor := p.executor.endClear now
        clearing := p.clearing - 1
        offered := []
        signals := p.signals + (!p.executor.done).toNat })
  | .note now level message =>
    some (.ok (), { p with executor := p.executor.log now level message })

/-- What comes of some events, one after the other. -/
def run (registry : Registry) (p : Lifecycle) (events : List Event) : Option Lifecycle :=
  events.foldlM (fun p event => (p.step registry event).map (·.2)) p

variable {registry : Registry} {p p' : Lifecycle} {answer : Except Error Unit}

/-! ### What a step can do -/

/-- Whether an event begins a call that waits. -/
def Event.begins : Event → Bool
  | .beginWriters _ | .beginReaders _ => true
  | _ => false

/-- What was set up may be lost and the log may grow, and calls may have come up that wait, for the
job that is held. -/
structure Quiet (p p' : Lifecycle) : Prop where
  held : ∀ held, p.executor.held = some held → p'.executor.held = some held
  accepted : p.accepted = p.executor.held.toList → p'.accepted = p'.executor.held.toList
  evolves : p.executor.state.Evolves p'.executor.state
  status : p'.executor.state.status = p.executor.state.status
  writers : p'.executor.writers = p.executor.writers ∨ p'.executor.writers = []
  readers : p'.executor.readers = p.executor.readers ∨ p'.executor.readers = []
  opening : ∀ held ∈ p'.opening, held ∈ p.opening ∨ p.executor.held = some held
  dialing : ∀ held ∈ p'.dialing, held ∈ p.dialing ∨ p.executor.held = some held
  done : p'.executor.done = p.executor.done
  work : p'.executor.work = p.executor.work
  offered : p'.offered = p.offered
  awaited : p'.awaited = p.awaited
  returned : p'.returned = p.returned
  started : p'.started = p.started
  signals : p'.signals = p.signals
  ending : p'.ending = p.ending

/-- The transitions of `Lifecycle.step`. -/
inductive Happens (registry : Registry) (p : Lifecycle) :
    Event → Except Error Unit → Lifecycle → Prop
  | refused {event : Event} {now : Nat} {fault : Error} {p' : Lifecycle} (h : p.Quiet p')
    (hstate : p'.executor.state = p.executor.state.log now .error fault.message) :
    Happens registry p event (.error fault) p'
  | quiet {event : Event} {p' : Lifecycle} (h : p.Quiet p')
    (hbegins : event.begins = true → p'.executor = p.executor) :
    Happens registry p event (.ok ()) p'
  | endWriters {now i : Nat} {transport : Transport} {held : StageJob × QuerySettings}
    {opened : List (Location × RowWriter)} {message : String} (hheld : p.opening[i]? = some held)
    (hopened : Executor.listenAll transport held.2 held.1.schema held.1.outputs = .ok opened) :
    Happens registry p (.endWriters now i transport) (.ok ())
      { p with
        executor := Executor.log
          { p.executor with writers := opened.map (·.2), published := some (opened.map (·.1)) } now
          .info message
        opening := p.opening.eraseIdx i
        offered := opened.map (·.1) }
  | endReaders {now i : Nat} {transport : Transport} {held : StageJob × QuerySettings}
    {readers : List RowReader} {message : String} (hheld : p.dialing[i]? = some held)
    (hreaders : Executor.dialAll transport held.2 held.1.inputs = .ok readers) :
    Happens registry p (.endReaders now i transport) (.ok ())
      { p with
        executor := Executor.log { p.executor with readers } now .info message
        dialing := p.dialing.eraseIdx i }
  | run {now : Nat} {work : Work} (hheld : p.executor.held = some (work.job, work.config))
    (hoperator : registry.get? work.job.tag = some work.operator)
    (hwriters : work.writers = p.executor.writers)
    (houtputs : p.executor.writers.length = work.job.outputs.length)
    (hreaders : work.readers = p.executor.readers)
    (hinputs : p.executor.readers.length = work.job.inputs.length)
    (htodo : p.executor.state.status = .todo) :
    Happens registry p (.run now) (.ok ())
      { p with
        executor := { p.executor with
          state := p.executor.state.start.2, writers := [], readers := [], work := some work }
        started := p.started ++ [work]
        awaited := p.offered
        offered := [] }
  | operatorEnds {inputs : List Delivery} {work : Work} (hwork : p.executor.work = some work)
    (hinputs : inputs.length = work.readers.length) :
    Happens registry p (.operatorEnds inputs) (.ok ()) { p with returned := some inputs }
  | outputsEnd {now : Nat} {handovers : List Handover} {work : Work} {inputs : List Delivery}
    (hwork : p.executor.work = some work) (hreturned : p.returned = some inputs)
    (hlength : handovers.length = p.awaited.length)
    (hpossible : handovers.all (·.isPossible p.executor.done) = true) :
    Happens registry p (.outputsEnd now handovers) (.ok ())
      { p with
        executor := p.executor.finish now (work.outcomeOn inputs) (Handover.awaitAll handovers)
        returned := none
        signals := p.signals + (!p.executor.done).toNat
        ending := some { work, inputs, handovers } }
  | endClear {now : Nat} :
    Happens registry p (.endClear now) (.ok ())
      { p with
        executor := p.executor.endClear now
        clearing := p.clearing - 1
        offered := []
        signals := p.signals + (!p.executor.done).toNat }

theorem Quiet.refl (p : Lifecycle) : p.Quiet p where
  held := fun _ h => h
  accepted := id
  evolves := .refl _
  status := rfl
  writers := .inl rfl
  readers := .inl rfl
  opening := fun _ h => .inl h
  dialing := fun _ h => .inl h
  done := rfl
  work := rfl
  offered := rfl
  awaited := rfl
  returned := rfl
  started := rfl
  signals := rfl
  ending := rfl

/-- Something is logged. -/
theorem Quiet.log (h : p.Quiet p') (now : Nat) (level : LogLevel) (message : String) :
    p.Quiet { p' with executor := p'.executor.log now level message } :=
  { h with evolves := h.evolves.trans (ExecutorState.evolves_log _ now level message) }

/-- What was set up is lost. -/
theorem Quiet.drop (h : p.Quiet p') :
    p.Quiet { p' with executor := { p'.executor with writers := [], readers := [] } } :=
  { h with writers := .inr rfl, readers := .inr rfl }

/-- A call that offers outputs waits no more. -/
theorem Quiet.opened (h : p.Quiet p') (i : Nat) :
    p.Quiet { p' with opening := p'.opening.eraseIdx i } :=
  { h with opening := fun held hheld => h.opening held (List.mem_of_mem_eraseIdx hheld) }

/-- A call that reaches inputs waits no more. -/
theorem Quiet.dialed (h : p.Quiet p') (i : Nat) :
    p.Quiet { p' with dialing := p'.dialing.eraseIdx i } :=
  { h with dialing := fun held hheld => h.dialing held (List.mem_of_mem_eraseIdx hheld) }

/-- A call that fails has logged its error, and one that succeeds has done what comes next. -/
theorem call_cases {α : Type} {x : Action Executor α} {next : α → Lifecycle → Lifecycle}
    (h : p.call x next = (answer, p')) :
    (∃ a executor, x p.executor = (.ok a, executor) ∧ answer = .ok () ∧
      p' = next a { p with executor }) ∨
    ∃ fault executor, x p.executor = (.error fault, executor) ∧ answer = .error fault ∧
      p' = { p with executor } := by
  rw [call] at h
  split at h
  case h_1 a executor hcall =>
    cases h
    exact .inl ⟨a, executor, hcall, rfl, rfl⟩
  case h_2 fault executor hcall =>
    cases h
    exact .inr ⟨fault, executor, hcall, rfl, rfl⟩

theorem happens_of_step {event : Event} (h : p.step registry event = some (answer, p')) :
    Happens registry p event answer p' := by
  have hquiet := Quiet.refl p
  cases event with
  | accept now job config =>
    obtain ⟨⟨⟩, executor, hcall, rfl, rfl⟩ | ⟨fault, executor, hcall, rfl, rfl⟩ :=
      call_cases (Option.some.inj h)
    · obtain ⟨-, -, -, hheld, message, rfl⟩ := Executor.accept_eq_ok hcall
      refine .quiet { hquiet with held := ?_, accepted := ?_, evolves := ?_ } nofun
      · intro held h
        rw [hheld] at h
        cases h
      · intro h
        rw [h, hheld]
        rfl
      · exact ExecutorState.evolves_log _ now .info message
    · obtain rfl := Executor.accept_refused hcall
      exact .refused (hquiet.log now .error fault.message) rfl
  | beginWriters now =>
    obtain ⟨held, executor, hcall, rfl, rfl⟩ | ⟨fault, executor, hcall, rfl, rfl⟩ :=
      call_cases (Option.some.inj h)
    · obtain ⟨hheld, rfl⟩ := Executor.beginWriters_eq_ok hcall
      refine .quiet { hquiet with opening := ?_ } fun _ => rfl
      intro other hother
      rcases List.mem_append.mp hother with hother | hother
      · exact .inl hother
      · exact .inr (List.mem_singleton.mp hother ▸ hheld)
    · obtain rfl := Executor.beginWriters_refused hcall
      exact .refused (hquiet.log now .error fault.message) rfl
  | endWriters now i transport =>
    obtain ⟨held, hheld, h⟩ := Option.map_eq_some_iff.mp h
    obtain ⟨⟨⟩, executor, hcall, rfl, rfl⟩ | ⟨fault, executor, hcall, rfl, rfl⟩ := call_cases h
    · obtain ⟨opened, message, hopened, rfl⟩ := Executor.endWriters_eq_ok hcall
      exact .endWriters hheld hopened
    · obtain rfl := Executor.endWriters_refused hcall
      exact .refused ((hquiet.opened i).log now .error fault.message) rfl
  | beginReaders now =>
    obtain ⟨held, executor, hcall, rfl, rfl⟩ | ⟨fault, executor, hcall, rfl, rfl⟩ :=
      call_cases (Option.some.inj h)
    · obtain ⟨hheld, rfl⟩ := Executor.beginReaders_eq_ok hcall
      refine .quiet { hquiet with dialing := ?_ } fun _ => rfl
      intro other hother
      rcases List.mem_append.mp hother with hother | hother
      · exact .inl hother
      · exact .inr (List.mem_singleton.mp hother ▸ hheld)
    · obtain rfl := Executor.beginReaders_refused hcall
      exact .refused (hquiet.log now .error fault.message) rfl
  | endReaders now i transport =>
    obtain ⟨held, hheld, h⟩ := Option.map_eq_some_iff.mp h
    obtain ⟨⟨⟩, executor, hcall, rfl, rfl⟩ | ⟨fault, executor, hcall, rfl, rfl⟩ := call_cases h
    · obtain ⟨readers, message, hreaders, rfl⟩ := Executor.endReaders_eq_ok hcall
      exact .endReaders hheld hreaders
    · obtain rfl := Executor.endReaders_refused hcall
      exact .refused ((hquiet.dialed i).log now .error fault.message) rfl
  | run now =>
    obtain ⟨⟨⟩, executor, hcall, rfl, rfl⟩ | ⟨fault, executor, hcall, rfl, rfl⟩ :=
      call_cases (Option.some.inj h)
    · obtain ⟨work, hheld, hoperator, hwriters, houtputs, hreaders, hinputs, htodo, rfl⟩ :=
        Executor.run_eq_ok hcall
      exact .run hheld hoperator hwriters houtputs hreaders hinputs htodo
    · obtain rfl | rfl := Executor.run_refused hcall
      · exact .refused (hquiet.log now .error fault.message) rfl
      · exact .refused (hquiet.drop.log now .error fault.message) rfl
  | operatorEnds inputs =>
    simp only [step] at h
    split at h
    case h_1 work hwork hreturned =>
      obtain ⟨⟨hinputs, -⟩, h⟩ := Option.ite_none_right_eq_some.mp h
      cases h
      exact .operatorEnds hwork hinputs
    case h_2 => cases h
  | outputsEnd now handovers =>
    simp only [step] at h
    split at h
    case h_1 work inputs hwork hreturned =>
      obtain ⟨⟨hlength, hpossible⟩, h⟩ := Option.ite_none_right_eq_some.mp h
      cases h
      exact .outputsEnd hwork hreturned hlength hpossible
    case h_2 => cases h
  | beginClear =>
    cases h
    exact .quiet { hquiet with writers := .inr rfl } nofun
  | endClear now =>
    obtain ⟨-, h⟩ := Option.ite_none_left_eq_some.mp h
    cases h
    exact .endClear
  | note now level message =>
    cases h
    exact .quiet (hquiet.log now level message) nofun

end Lifecycle

end StagedQuery
