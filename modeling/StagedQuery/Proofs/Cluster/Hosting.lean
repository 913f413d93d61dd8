import StagedQuery.Proofs.Cluster.Asking

/-!
# Hosting executors

A worker serves requests, its executors end and are cleared on their own, and from time to time it
prunes. `Worker.step` says what comes of each of these events, and `Worker.Happens` what can come of
it: a job that is accepted adds an executor, pruning removes those that are finished, and nothing
else changes which executors there are or what they hold (`Worker.happens_step`).

As an executor is only added under a name that is free, a name is given again only when a pruning
has made it free (`Worker.trace_happens`).
-/

namespace StagedQuery

/-! ### What happens to an executor on its own -/

/-- What happens to an executor without a request. A call that waits for the network goes on some
time later, whatever happens meanwhile. -/
inductive Executor.Happening
  /-- The operator returns, and its outputs are taken or are not. -/
  | ends (now : Nat) (inputs : List Delivery) (taken : Except Error Unit)
  /-- The last report is delivered. -/
  | reports
  | beginClear
  | endClear (now : Nat)
  /-- A call that offers outputs goes on. -/
  | endWriters (transport : Transport) (now : Nat) (held : StageJob × QuerySettings)
  /-- A call that reaches inputs goes on. -/
  | endReaders (transport : Transport) (now : Nat) (held : StageJob × QuerySettings)
  /-- Something is logged. -/
  | note (now : Nat) (level : LogLevel) (message : String)

/-- An executor afterwards. What cannot happen changes nothing. -/
def Executor.Happening.apply : Happening → Executor → Executor
  | ends now inputs taken, e =>
    match e.work with
    | some work => e.finish now (work.outcomeOn inputs) taken
    | none => e
  | reports, e => if e.done then { e with reporting := false } else e
  | beginClear, e => e.beginClear
  | endClear now, e => e.endClear now
  | endWriters transport now held, e => (Executor.endWriters transport now held e).2
  | endReaders transport now held, e => (Executor.endReaders transport now held e).2
  | note now level message, e => e.log now level message

namespace Executor

/-- Whose job it is, and which. -/
def assignment (e : Executor) : Location × Option (StageJob × QuerySettings) := (e.location, e.held)

/-- The job is the one from before. -/
def JobKept (e e' : Executor) : Prop := e'.assignment = e.assignment

instance : IsPreorder Executor JobKept where
  refl _ := rfl
  trans _ _ _ h h' := h'.trans h

theorem jobKept_record {α : Type} {x : Action Executor α} (now : Nat)
    (hx : Action.Always JobKept x) : Action.Always JobKept (record now x) := by
  intro e
  have hkept := hx e
  rcases h : x e with ⟨fault | a, e'⟩
  · rw [h] at hkept
    rw [record_error h]
    exact hkept
  · rw [h] at hkept
    rw [record_ok h]
    exact hkept

theorem jobKept_heldJob : Action.Always JobKept heldJob := fun e =>
  congrArg assignment (heldJob_looks e)

theorem jobKept_beginWriters (now : Nat) : Action.Always JobKept (beginWriters now) := by
  refine jobKept_record now (jobKept_heldJob.bind fun held => Action.always_get.bind fun e => ?_)
  split
  · exact (Action.always_fail _).bind fun _ => Action.always_pure held
  · exact Action.always_pure held

theorem jobKept_endWriters (transport : Transport) (now : Nat) (held : StageJob × QuerySettings) :
    Action.Always JobKept (endWriters transport now held) :=
  jobKept_record now ((Action.always_ofExcept _).bind fun _ => Action.always_modify fun _ => rfl)

theorem jobKept_endReaders (transport : Transport) (now : Nat) (held : StageJob × QuerySettings) :
    Action.Always JobKept (endReaders transport now held) :=
  jobKept_record now ((Action.always_ofExcept _).bind fun _ => Action.always_modify fun _ => rfl)

theorem jobKept_setupWriters (transport : Transport) (now : Nat) :
    Action.Always JobKept (setupWriters transport now) := by
  rw [setupWriters_eq]
  exact (jobKept_beginWriters now).bind (jobKept_endWriters transport now)

theorem jobKept_setupReaders (transport : Transport) (now : Nat) :
    Action.Always JobKept (setupReaders transport now) := by
  rw [setupReaders_eq]
  exact (jobKept_record now jobKept_heldJob).bind (jobKept_endReaders transport now)

theorem jobKept_run (registry : Registry) (now : Nat) :
    Action.Always JobKept (run registry now) := by
  intro e
  rcases h : run registry now e with ⟨fault | ⟨⟩, e'⟩
  · obtain rfl | rfl := run_refused h
    · rfl
    · rfl
  · obtain ⟨work, -, -, -, -, -, -, -, rfl⟩ := run_eq_ok h
    rfl

/-- Nothing that happens to an executor takes its job away or gives it another one. -/
theorem jobKept_apply (h : Happening) (e : Executor) : JobKept e (h.apply e) := by
  cases h with
  | ends now inputs taken =>
    rw [Happening.apply]
    split
    · obtain ⟨state, heq, -⟩ := finish_eq now (Work.outcomeOn _ inputs) taken e
      rw [heq]
      rfl
    · rfl
  | reports =>
    rw [Happening.apply]
    split
    · rfl
    · rfl
  | beginClear => rfl
  | endClear now => rfl
  | endWriters transport now held => exact jobKept_endWriters transport now held e
  | endReaders transport now held => exact jobKept_endReaders transport now held e
  | note now level message => rfl

end Executor

namespace Worker

/-! ### Events -/

/-- What can happen to a worker. -/
inductive Event
  /-- A request is served. -/
  | request (transport : Transport) (now : Nat) (request : ControlRequest)
  /-- Something happens to the executor of a name. -/
  | inside (name : String) (h : Executor.Happening)
  | prune

/-- What an event is answered, and the worker afterwards. -/
def step (w : Worker) : Event → Option ControlResponse × Worker
  | .request transport now request =>
    let served := w.handle transport now request
    (some served.1, served.2)
  | .inside name h =>
    match w.executor? name with
    | some e => (none, w.update (h.apply e))
    | none => (none, w)
  | .prune => (none, w.prune)

/-- Whose jobs the executors hold, and which. -/
def assignments (w : Worker) : List (Location × Option (StageJob × QuerySettings)) :=
  w.executors.map (·.assignment)

/-- The executors have names of their own, and each of them holds a job that is its own. -/
structure Hosts (w : Worker) : Prop where
  distinct : (w.assignments.map (·.1.name)).Nodup
  holds : ∀ assignment ∈ w.assignments,
    ∃ job config, assignment = (job.location, some (job, config))

/-- What can come of an event. -/
inductive Happens (w : Worker) : Event → Option ControlResponse → Worker → Prop
  /-- A job is accepted under a name that is free. It gets an executor, which holds it and waits to
  be set up. -/
  | accepted {transport : Transport} {now : Nat} {job : StageJob} {config : QuerySettings}
    {e : Executor} (hfree : w.executor? job.location.name = none)
    (hassigned : e.assignment = (job.location, some (job, config)))
    (htodo : e.state.status = .todo) (hreporting : e.reporting = config.coordinator.isSome) :
    Happens w (.request transport now (.accept job config)) (some .ok)
      { w with executors := w.executors ++ [e] }
  /-- A job is refused: there is an executor of this name, or a new one does not take the job, and
  does not begin to report. -/
  | refused {transport : Transport} {now : Nat} {job : StageJob} {config : QuerySettings}
    {message : String} (hsilent : w.executor? job.location.name ≠ none ∨
      ∃ fault e, Executor.accept w.registry now job config { location := job.location } =
        (.error fault, e) ∧ e.reporting = false) :
    Happens w (.request transport now (.accept job config)) (some (.error message)) w
  /-- Another request is about an executor that is not there. -/
  | missing {transport : Transport} {now : Nat} {request : ControlRequest}
    (hother : ∀ job config, request ≠ .accept job config)
    (hmissing : w.executor? request.executor = none) :
    Happens w (.request transport now request)
      (some (.error (Error.executorNotFound request.executor).message)) w
  /-- Another request is about an executor that is there. -/
  | served {transport : Transport} {now : Nat} {request : ControlRequest}
    {answer : ControlResponse} {w' : Worker} (hother : ∀ job config, request ≠ .accept job config)
    (hhosted : w.executor? request.executor ≠ none) (hkept : w'.assignments = w.assignments) :
    Happens w (.request transport now request) (some answer) w'
  /-- Something happens to an executor. -/
  | inside {name : String} {h : Executor.Happening} {w' : Worker}
    (hkept : w'.assignments = w.assignments) : Happens w (.inside name h) none w'
  /-- Those that are done and have delivered their last report are removed. -/
  | pruned {w' : Worker} (hsublist : w'.executors.Sublist w.executors)
    (hfinished : ∀ e, e ∈ w'.executors ↔
      e ∈ w.executors ∧ ¬ (e.done = true ∧ e.reporting = false)) :
    Happens w .prune none w'

variable {w w' : Worker} {name : String} {e e' : Executor}

theorem Hosts.of_eq (h : w.Hosts) (hkept : w'.assignments = w.assignments) : w'.Hosts where
  distinct := hkept ▸ h.distinct
  holds := hkept ▸ h.holds

theorem executor?_eq_none : w.executor? name = none ↔ name ∉ w.assignments.map (·.1.name) := by
  rw [executor?, List.find?_eq_none, assignments, List.map_map]
  simp only [List.mem_map, not_exists, not_and, beq_iff_eq]
  rfl

/-- An executor may be replaced by one of the same assignment. -/
theorem assignments_update (hw : w.Hosts) (he : w.executor? name = some e)
    (hkept : Executor.JobKept e e') : (w.update e').assignments = w.assignments := by
  rw [assignments, assignments, update, List.map_map]
  refine List.map_congr_left fun old hold => ?_
  rw [Function.comp_apply]
  split
  case isFalse => rfl
  case isTrue hname =>
    have hnames : (w.executors.map (·.name)).Nodup := by
      have hdistinct := hw.distinct
      rwa [assignments, List.map_map] at hdistinct
    have hsame : e'.name = e.name := congrArg (·.1.name) hkept
    rw [List.inj_on_of_nodup_map hnames hold (List.mem_of_find?_eq_some he) (hname.trans hsame),
      hkept]

/-- Executors and jobs are as before, if the worker was in order. -/
def Steady (w w' : Worker) : Prop := w.Hosts → w'.assignments = w.assignments

instance : IsPreorder Worker Steady where
  refl _ _ := rfl
  trans _ _ _ h h' hw := (h' (hw.of_eq (h hw))).trans (h hw)

theorem steady_onExecutor {α : Type} {x : Action Executor α} (name : String)
    (hx : Action.Always Executor.JobKept x) : Action.Always Steady (onExecutor name x) := by
  intro w hw
  rw [onExecutor]
  split
  case h_1 => rfl
  case h_2 e he => exact assignments_update hw he (hx e)

theorem onExecutor_missing {α : Type} {x : Action Executor α} (h : w.executor? name = none) :
    onExecutor name x w = (.error (.executorNotFound name), w) := by
  rw [onExecutor, h]

variable {transport : Transport} {now : Nat} {request : ControlRequest} {job : StageJob}
  {config : QuerySettings} {fault : Error}

/-- Whatever is requested other than to accept a job, and whether or not it can be done. -/
theorem steady_dispatch (hother : ∀ job config, request ≠ .accept job config) :
    Action.Always Steady (dispatch transport now request) := by
  cases request with
  | accept job config => exact absurd rfl (hother job config)
  | setupWriters name =>
    exact Action.always_get.bind fun _ =>
      (steady_onExecutor name (Executor.jobKept_setupWriters transport now)).bind fun _ =>
        Action.always_pure _
  | setupReaders name =>
    exact Action.always_get.bind fun _ =>
      (steady_onExecutor name (Executor.jobKept_setupReaders transport now)).bind fun _ =>
        Action.always_pure _
  | run name =>
    exact Action.always_get.bind fun w =>
      (steady_onExecutor name (Executor.jobKept_run w.registry now)).bind fun _ =>
        Action.always_pure _
  | resolveOutputLocation name channel =>
    exact Action.always_get.bind fun _ =>
      (steady_onExecutor name fun e => refl_of Executor.JobKept e).bind fun _ =>
        Action.always_pure _

theorem dispatch_missing (hother : ∀ job config, request ≠ .accept job config)
    (h : w.executor? request.executor = none) :
    dispatch transport now request w = (.error (.executorNotFound request.executor), w) := by
  cases request with
  | accept job config => exact absurd rfl (hother job config)
  | setupWriters name | setupReaders name | run name | resolveOutputLocation name channel =>
    rw [dispatch, Action.get_bind]
    exact Action.bind_error (onExecutor_missing h)

theorem handle_of_error (h : dispatch transport now request w = (.error fault, w')) :
    handle transport now request w = (.error fault.message, w') := by
  rw [handle, h]

theorem handle_of_ok {answer : ControlResponse}
    (h : dispatch transport now request w = (.ok answer, w')) :
    handle transport now request w = (answer, w') := by
  rw [handle, h]

theorem handle_snd (transport : Transport) (now : Nat) (request : ControlRequest) (w : Worker) :
    (handle transport now request w).2 = (dispatch transport now request w).2 := by
  rcases h : dispatch transport now request w with ⟨fault | answer, w'⟩
  · rw [handle_of_error h]
  · rw [handle_of_ok h]

/-- A job that is not accepted leaves nothing behind. -/
theorem accept_eq_error (h : accept now job config w = (.error fault, w')) :
    w' = w ∧ (w.executor? job.location.name ≠ none ∨ ∃ e,
      Executor.accept w.registry now job config { location := job.location } =
        (.error fault, e) ∧ e.reporting = false) := by
  rw [accept] at h
  cases hhosted : w.executor? job.location.name with
  | some e =>
    rw [hhosted] at h
    cases h
    exact ⟨rfl, .inl (Option.some_ne_none e)⟩
  | none =>
    rw [hhosted] at h
    rcases haccept : Executor.accept w.registry now job config { location := job.location } with
      ⟨fault' | ⟨⟩, e⟩
    · rw [haccept] at h
      cases h
      obtain rfl := Executor.accept_refused haccept
      exact ⟨rfl, .inr ⟨_, rfl, rfl⟩⟩
    · rw [haccept] at h
      cases h

theorem happens_accept (w : Worker) (transport : Transport) (now : Nat) (job : StageJob)
    (config : QuerySettings) :
    w.Happens (.request transport now (.accept job config))
      (some (w.handle transport now (.accept job config)).1)
      (w.handle transport now (.accept job config)).2 := by
  have hdispatch : dispatch transport now (.accept job config) w =
      (accept now job config >>= fun _ => pure .ok) w := rfl
  rcases h : accept now job config w with ⟨fault | ⟨⟩, w'⟩
  · rw [handle_of_error (hdispatch.trans (Action.bind_error h))]
    obtain ⟨rfl, hsilent⟩ := accept_eq_error h
    exact .refused (hsilent.imp_right fun ⟨e, he⟩ => ⟨fault, e, he⟩)
  · rw [handle_of_ok (hdispatch.trans (Action.bind_ok h))]
    obtain ⟨hfree, message, rfl⟩ := accept_eq_ok h
    exact .accepted hfree rfl rfl rfl

/-- This is what can come of an event. -/
theorem happens_step (hw : w.Hosts) (event : Event) :
    w.Happens event (w.step event).1 (w.step event).2 := by
  cases event with
  | request transport now request =>
    by_cases haccept : ∃ job config, request = .accept job config
    · obtain ⟨job, config, rfl⟩ := haccept
      exact happens_accept w transport now job config
    · have hother (job : StageJob) (config : QuerySettings) : request ≠ .accept job config :=
        fun heq => haccept ⟨job, config, heq⟩
      cases hhosted : w.executor? request.executor with
      | none =>
        rw [step, handle_of_error (dispatch_missing hother hhosted)]
        exact .missing hother hhosted
      | some e =>
        refine .served hother (hhosted ▸ Option.some_ne_none e) ?_
        rw [step, handle_snd]
        exact steady_dispatch hother w hw
  | inside name h =>
    rw [step]
    split
    case h_1 e he => exact .inside (assignments_update hw he (Executor.jobKept_apply h e))
    case h_2 => exact .inside rfl
  | prune =>
    refine .pruned List.filter_sublist fun e => ?_
    rw [step, prune, List.mem_filter, Executor.isFinished]
    refine and_congr_right' ?_
    cases e.done <;> cases e.reporting <;> decide

/-- A worker stays in order. -/
theorem Happens.hosts {event : Event} {answer : Option ControlResponse} (hw : w.Hosts)
    (h : w.Happens event answer w') : w'.Hosts := by
  cases h with
  | @accepted transport now job config e hfree hassigned =>
    have hassignments : Worker.assignments { w with executors := w.executors ++ [e] } =
        w.assignments ++ [(job.location, some (job, config))] := by
      rw [assignments, assignments, List.map_append, ← hassigned]
      rfl
    refine ⟨?_, ?_⟩
    · rw [hassignments, List.map_append]
      exact hw.distinct.append (List.nodup_singleton _)
        (List.disjoint_singleton.mpr (executor?_eq_none.mp hfree))
    · rw [hassignments]
      exact List.forall_mem_append.mpr ⟨hw.holds, List.forall_mem_singleton.mpr ⟨job, config, rfl⟩⟩
  | refused | missing => exact hw
  | served _ _ hkept | inside hkept => exact hw.of_eq hkept
  | pruned hsublist =>
    have hassignments := hsublist.map Executor.assignment
    exact ⟨(hassignments.map _).nodup hw.distinct,
      fun assignment hmem => hw.holds assignment (hassignments.subset hmem)⟩

/-- A worker that is new hosts nothing. -/
theorem hosts_nil (h : w.executors = []) : w.Hosts := by
  have hassignments : w.assignments = [] := by
    rw [assignments, h]
    rfl
  constructor
  · rw [hassignments]
    exact List.nodup_nil
  · rw [hassignments]
    exact nofun

/-- Who connects makes the worker prune, and is served if a request can be read. -/
theorem serve_eq (transport : Transport) (now : Nat) (fresh : Identifier) (received : Bytes)
    (w : Worker) :
    (w.serve transport now fresh received).2 = (w.step .prune).2 ∨ ∃ request,
      (w.serve transport now fresh received).2 =
        ((w.step .prune).2.step (.request transport now request)).2 := by
  rw [serve]
  dsimp only
  split
  case h_1 request _ => exact .inr ⟨request, rfl⟩
  case h_2 => exact .inl rfl
  case h_3 => exact .inl rfl

/-! ### Names are given again -/

theorem executor?_ne_none_of_subset {w' : Worker} (h : w.executor? name ≠ none)
    (hsubset : w.assignments ⊆ w'.assignments) : w'.executor? name ≠ none := by
  rw [Ne, executor?_eq_none, not_not] at h ⊢
  exact List.map_subset _ hsubset h

/-- An executor stays until it is finished and the worker prunes. -/
theorem Happens.stays {event : Event} {answer : Option ControlResponse}
    (h : w.Happens event answer w') (hhosted : w.executor? name ≠ none) :
    w'.executor? name ≠ none ∨ event = .prune ∧ w'.executor? name = none ∧
      ∃ e ∈ w.executors, e.name = name ∧ e.done = true ∧ e.reporting = false := by
  cases h with
  | accepted =>
    refine .inl (executor?_ne_none_of_subset hhosted ?_)
    exact List.map_subset _ (List.subset_append_left _ _)
  | refused | missing => exact .inl hhosted
  | served _ _ hkept | inside hkept =>
    exact .inl (executor?_ne_none_of_subset hhosted (hkept ▸ List.Subset.refl _))
  | pruned hsublist hfinished =>
    refine or_iff_not_imp_left.mpr fun hgone => ?_
    obtain ⟨e, he⟩ := Option.ne_none_iff_exists'.mp hhosted
    have hmem : e ∈ w.executors := List.mem_of_find?_eq_some he
    have hname : e.name = name := name_of_executor? he
    rw [Ne, not_not] at hgone
    refine ⟨rfl, hgone, e, hmem, hname, ?_⟩
    by_contra hlive
    have hstill : e ∈ w'.executors := (hfinished e).mpr ⟨hmem, hlive⟩
    exact List.find?_eq_none.mp hgone e hstill (beq_iff_eq.mpr hname)

/-- An event, with what it was answered and the worker before and after. -/
structure Occurrence where
  before : Worker
  event : Event
  answer : Option ControlResponse
  after : Worker

namespace Occurrence

/-- A job is accepted under a name. -/
def Accepts (name : String) (o : Occurrence) : Prop :=
  ∃ transport now job config, o.event = .request transport now (.accept job config) ∧
    job.location.name = name ∧ o.answer = some .ok

/-- An executor of a name is finished, and is pruned. -/
def Frees (name : String) (o : Occurrence) : Prop :=
  o.event = .prune ∧ o.after.executor? name = none ∧
    ∃ e ∈ o.before.executors, e.name = name ∧ e.done = true ∧ e.reporting = false

end Occurrence

/-- What comes of some events, one after the other. -/
def trace (w : Worker) : List Event → List Occurrence
  | [] => []
  | event :: events =>
    { before := w, event, answer := (w.step event).1, after := (w.step event).2 } ::
      trace (w.step event).2 events

/-- The name was free, and is taken. -/
theorem Occurrence.Accepts.takes {o : Occurrence} (haccepts : o.Accepts name)
    (h : o.before.Happens o.event o.answer o.after) :
    o.before.executor? name = none ∧ o.after.executor? name ≠ none := by
  obtain ⟨before, event, answer, after⟩ := o
  obtain ⟨transport, now, job, config, hevent, rfl, hanswer⟩ := haccepts
  dsimp only at hevent hanswer h ⊢
  subst hevent hanswer
  cases h with
  | @accepted _ _ _ _ e hfree hassigned =>
    refine ⟨hfree, ?_⟩
    rw [Ne, executor?_eq_none, not_not, assignments, List.map_append, List.map_append,
      List.mem_append]
    exact .inr (List.mem_singleton.mpr (congrArg (·.1.name) hassigned.symm))
  | served hother => exact absurd rfl (hother job config)

variable {events : List Event} {earlier rest between later : List Occurrence}
  {o first second : Occurrence}

/-- At each moment the worker is in order, and goes on from there. -/
theorem trace_split (hw : w.Hosts) (h : w.trace events = earlier ++ o :: rest) :
    o.before.Hosts ∧ o.before.Happens o.event o.answer o.after ∧ o.after.Hosts ∧
      ∃ events', rest = o.after.trace events' := by
  induction events generalizing w earlier with
  | nil => simp [trace] at h
  | cons event events ih =>
    have hstep := happens_step hw event
    rw [trace] at h
    cases earlier with
    | nil =>
      obtain ⟨rfl, rfl⟩ := List.cons.inj h
      exact ⟨hw, hstep, hstep.hosts hw, events, rfl⟩
    | cons _ earlier => exact ih (hstep.hosts hw) (List.cons.inj h).2

/-- A name that is taken is given again only when it was made free. -/
theorem trace_frees (hw : w.Hosts) (hhosted : w.executor? name ≠ none)
    (h : w.trace events = between ++ second :: later) (hsecond : second.Accepts name) :
    ∃ o ∈ between, o.Frees name := by
  induction events generalizing w between with
  | nil => simp [trace] at h
  | cons event events ih =>
    have hstep := happens_step hw event
    rw [trace] at h
    cases between with
    | nil =>
      obtain ⟨rfl, -⟩ := List.cons.inj h
      exact absurd (hsecond.takes hstep).1 hhosted
    | cons o between =>
      obtain ⟨rfl, hrest⟩ := List.cons.inj h
      obtain hstill | hfrees := hstep.stays hhosted
      · obtain ⟨o, hmem, ho⟩ := ih (hstep.hosts hw) hstill hrest
        exact ⟨o, List.mem_cons_of_mem _ hmem, ho⟩
      · exact ⟨_, List.mem_cons_self, hfrees⟩

/-- Whatever happens to a worker, executors have names of their own and hold jobs of their own. A
job is accepted and gets an executor, or is refused and leaves nothing behind; nothing else adds an
executor or takes its job away, and nothing but pruning removes one, and only those that are
finished. Between two jobs that are accepted under one name, an executor of this name is pruned. -/
theorem trace_happens (hw : w.Hosts) (events : List Event) :
    (∀ o ∈ w.trace events,
      o.before.Hosts ∧ o.before.Happens o.event o.answer o.after ∧ o.after.Hosts) ∧
    ∀ name earlier first between second later,
      w.trace events = earlier ++ first :: (between ++ second :: later) →
      first.Accepts name → second.Accepts name → ∃ o ∈ between, o.Frees name := by
  constructor
  · intro o ho
    obtain ⟨earlier, rest, hsplit⟩ := List.append_of_mem ho
    obtain ⟨hbefore, hhappens, hafter, -⟩ := trace_split hw hsplit
    exact ⟨hbefore, hhappens, hafter⟩
  · intro name earlier first between second later hsplit hfirst hsecond
    obtain ⟨-, hhappens, hafter, events', hrest⟩ := trace_split hw hsplit
    exact trace_frees hafter (hfirst.takes hhappens).2 hrest.symm hsecond

/-- A job is sent to a new worker four times, another executor is asked for, and the one that is
there is cleared. It is not pruned before its last report was delivered. -/
def sentAgain : List Event :=
  let transport : Transport :=
    { listen := fun _ output => .ok (output, {}), dial := fun config _ => .ok (config.reader {}) }
  let accept : Event := .request transport 1
    (.accept Lifecycle.firstRow { queryId := default, coordinator := some "localhost:3" })
  [accept, accept, .request transport 2 (.run "w0-2"), .inside "w0-1" .beginClear,
    .inside "w0-1" (.endClear 3), .prune, accept, .inside "w0-1" .reports, .prune, accept]

theorem trace_happens_again :
    let w : Worker := {
      info := { name := "w0", host := "localhost", controlPort := 7000, dataPort := 7001 }
      registry := .builtins }
    (w.trace sentAgain).map (·.answer) =
      [some .ok, some (.error "Invalid stage job: executor w0-1 already exists on w0"),
        some (.error "Executor not found: w0-2"), none, none, none,
        some (.error "Invalid stage job: executor w0-1 already exists on w0"), none, none,
        some .ok] ∧
    w.Hosts ∧ (∀ o ∈ w.trace sentAgain, o.before.Happens o.event o.answer o.after) ∧
    ∃ o ∈ ((w.trace sentAgain).drop 1).take 8, o.Frees "w0-1" := by
  intro w
  have hw : w.Hosts := hosts_nil rfl
  obtain ⟨hhappens, hagain⟩ := trace_happens hw sentAgain
  refine ⟨by decide +kernel, hw, fun o ho => (hhappens o ho).2.1, ?_⟩
  obtain ⟨first, second, hsplit, hfirst, hsecond⟩ : ∃ first second,
      w.trace sentAgain = [] ++ first :: (((w.trace sentAgain).drop 1).take 8 ++ second :: []) ∧
        first.Accepts "w0-1" ∧ second.Accepts "w0-1" := by
    refine ⟨_, _, rfl, ⟨_, _, _, _, rfl, rfl, ?_⟩, ⟨_, _, _, _, rfl, rfl, ?_⟩⟩
    · decide +kernel
    · decide +kernel
  exact hagain "w0-1" [] first _ second [] hsplit hfirst hsecond

end Worker

end StagedQuery
