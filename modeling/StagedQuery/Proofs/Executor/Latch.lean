import StagedQuery.Proofs.Executor.State

/-!
# A latch and a log

The calls on the state of an executor may come in any order. Between any two moments the status has
stayed or moved forward, the log was only appended to, and the version tells whether there was a
change (`ExecutorState.Forward`). A version is marked when a report of its snapshot was delivered,
and reports may be delivered late: the state is dirty exactly if it is not what it was in the newest
snapshot that was marked (`ExecutorState.History.run_latches`).
-/

namespace StagedQuery

/-- How far a job has come: it waits, runs, and ends in one way or the other. -/
def JobStatus.stage : JobStatus → Nat
  | todo => 0
  | running => 1
  | succeed | error => 2

theorem JobStatus.stage_eq {status : JobStatus} : status.stage = 2 ↔ status.isTerminal = true := by
  cases status <;> decide

theorem JobStatus.stage_le (status : JobStatus) : status.stage ≤ 2 := by
  cases status <;> decide

namespace ExecutorState

/-- The second state is the first one or a later one. -/
structure Forward (s s' : ExecutorState) : Prop where
  status : s'.status = s.status ∨ s.status.stage < s'.status.stage
  logs_prefix : s.logs <+: s'.logs
  version_le : s.version ≤ s'.version
  /-- A change of the status or of the log has a version of its own, and nothing else has. -/
  version_eq_iff : s'.version = s.version ↔ s'.status = s.status ∧ s'.logs = s.logs

namespace Forward

variable {s s' s'' : ExecutorState}

/-- Nothing but the mark has changed. -/
theorem of_eq (hstatus : s'.status = s.status) (hlogs : s'.logs = s.logs)
    (hversion : s'.version = s.version) : Forward s s' where
  status := .inl hstatus
  logs_prefix := hlogs ▸ List.prefix_refl _
  version_le := Nat.le_of_eq hversion.symm
  version_eq_iff := iff_of_true hversion ⟨hstatus, hlogs⟩

theorem of_log (s : ExecutorState) (now : Nat) (level : LogLevel) (message : String) :
    Forward s (s.log now level message) where
  status := .inl rfl
  logs_prefix := List.prefix_append _ _
  version_le := Nat.le_succ _
  version_eq_iff := iff_of_false (Nat.succ_ne_self _) fun h => by simp [log, touch] at h

theorem of_stage {status : JobStatus} (h : s.status.stage < status.stage) :
    Forward s (touch { s with status }) where
  status := .inr h
  logs_prefix := List.prefix_refl _
  version_le := Nat.le_succ _
  version_eq_iff := by
    refine iff_of_false (Nat.succ_ne_self _) fun ⟨hsame, _⟩ => ?_
    rw [← hsame] at h
    exact Nat.lt_irrefl _ h

theorem stage_le (h : Forward s s') : s.status.stage ≤ s'.status.stage := by
  obtain hsame | hlt := h.status
  · exact hsame ▸ Nat.le_refl _
  · exact Nat.le_of_lt hlt

/-- A status that is there again had not changed. -/
theorem status_eq (h : Forward s s') (h' : Forward s' s'') (hsame : s''.status = s.status) :
    s'.status = s.status := by
  have hback := h'.stage_le
  rw [hsame] at hback
  exact h.status.resolve_right (Nat.not_lt.mpr hback)

/-- Nor had a log that is there again. -/
theorem logs_eq (h : Forward s s') (h' : Forward s' s'') (hsame : s''.logs = s.logs) :
    s'.logs = s.logs := by
  have hback := h'.logs_prefix.length_le
  rw [hsame] at hback
  exact (h.logs_prefix.eq_of_length_le hback).symm

theorem trans (h : Forward s s') (h' : Forward s' s'') : Forward s s'' where
  status := by
    obtain hsame | hlt := h.status
    · rw [← hsame]
      exact h'.status
    · exact .inr (Nat.lt_of_lt_of_le hlt h'.stage_le)
  logs_prefix := h.logs_prefix.trans h'.logs_prefix
  version_le := Nat.le_trans h.version_le h'.version_le
  version_eq_iff := by
    have hle := h.version_le
    have hle' := h'.version_le
    constructor
    · intro hversion
      obtain ⟨hstatus, hlogs⟩ := h.version_eq_iff.mp (by omega)
      obtain ⟨hstatus', hlogs'⟩ := h'.version_eq_iff.mp (by omega)
      exact ⟨hstatus'.trans hstatus, hlogs'.trans hlogs⟩
    · rintro ⟨hstatus, hlogs⟩
      have hstatus' := h.status_eq h' hstatus
      have hlogs' := h.logs_eq h' hlogs
      have hversion := h.version_eq_iff.mpr ⟨hstatus', hlogs'⟩
      have hversion' := h'.version_eq_iff.mpr ⟨hstatus.trans hstatus'.symm, hlogs.trans hlogs'.symm⟩
      exact hversion'.trans hversion

end Forward

/-! ### Calls -/

/-- A call on the state. -/
inductive Call
  | change (c : Change)
  | snapshot (cursor : Nat)
  | markReported (version : Nat)
  deriving DecidableEq

namespace Call

/-- The state after a call. -/
def apply : Call → ExecutorState → ExecutorState
  | change c, s => c.apply s
  | snapshot _, s => s
  | markReported version, s => s.markReported version

/-- Whether a call starts the job, as it answers. -/
def starts : Call → ExecutorState → Bool
  | change .start, s => s.start.1
  | _, _ => false

/-- Whether a call latches a terminal status, as it answers. -/
def ends : Call → ExecutorState → Bool
  | change (.succeed now), s => (s.succeed now).1
  | change (.fail now message), s => (s.fail now message).1
  | _, _ => false

/-- A job is started from the first status only. -/
theorem starts_iff {s : ExecutorState} :
    (change .start).starts s = true ↔ s.status = .todo := by
  rw [starts, ExecutorState.start]
  split <;> simp_all

end Call

variable (s : ExecutorState)

/-- What a call to start does. -/
theorem start_cases :
    s.status = .todo ∧ s.start = (true, touch { s with status := .running }) ∨
      s.status ≠ .todo ∧ s.start = (false, s) := by
  by_cases h : s.status = .todo
  · exact .inl ⟨h, by rw [start, if_pos h]⟩
  · exact .inr ⟨h, by rw [start, if_neg h]⟩

/-- What a call to succeed does. -/
theorem succeed_cases (now : Nat) :
    s.status.isTerminal = false ∧ s.succeed now = (true, touch { s with status := .succeed }) ∨
      s.status.isTerminal = true ∧ ∃ message, s.succeed now = (false, s.log now .warn message) := by
  cases h : s.status.isTerminal with
  | false => exact .inl ⟨rfl, by rw [succeed, h]; rfl⟩
  | true => exact .inr ⟨rfl, _, by rw [succeed, if_pos h]⟩

/-- What a call to fail does. -/
theorem fail_cases (now : Nat) (message : String) :
    s.status.isTerminal = false ∧
        s.fail now message = (true, touch { s.log now .error message with status := .error }) ∨
      s.status.isTerminal = true ∧ s.fail now message = (false, s.log now .error message) := by
  have hlog : (s.log now .error message).status = s.status := rfl
  cases h : s.status.isTerminal with
  | false => exact .inl ⟨rfl, by simp [fail, hlog, h]⟩
  | true => exact .inr ⟨rfl, by simp [fail, hlog, h]⟩

/-- What a call does to the status: it starts the job, ends it, or leaves it alone. -/
inductive Moves (s : ExecutorState) (call : Call) (s' : ExecutorState) : Prop
  | starts (hstarts : call.starts s = true) (hends : call.ends s = false)
    (hbefore : s.status = .todo) (hafter : s'.status = .running)
  | ends (hstarts : call.starts s = false) (hends : call.ends s = true)
    (hbefore : s.status.isTerminal = false) (hafter : s'.status.isTerminal = true)
  | stays (hstarts : call.starts s = false) (hends : call.ends s = false)
    (hsame : s'.status = s.status)

variable {s}

theorem moves_apply (call : Call) : Moves s call (call.apply s) := by
  cases call with
  | change c =>
    cases c with
    | start =>
      obtain ⟨htodo, hstart⟩ | ⟨-, hstart⟩ := start_cases s
      · exact .starts (congrArg (·.1) hstart) rfl htodo (congrArg (·.2.status) hstart)
      · exact .stays (congrArg (·.1) hstart) rfl (congrArg (·.2.status) hstart)
    | succeed now =>
      obtain ⟨hopen, hsucceed⟩ | ⟨-, message, hsucceed⟩ := succeed_cases s now
      · exact .ends rfl (congrArg (·.1) hsucceed) hopen
          (congrArg (·.2.status.isTerminal) hsucceed)
      · exact .stays rfl (congrArg (·.1) hsucceed) (congrArg (·.2.status) hsucceed)
    | fail now message =>
      obtain ⟨hopen, hfail⟩ | ⟨-, hfail⟩ := fail_cases s now message
      · exact .ends rfl (congrArg (·.1) hfail) hopen (congrArg (·.2.status.isTerminal) hfail)
      · exact .stays rfl (congrArg (·.1) hfail) (congrArg (·.2.status) hfail)
    | log now level message => exact .stays rfl rfl rfl
  | snapshot cursor => exact .stays rfl rfl rfl
  | markReported version => exact .stays rfl rfl rfl

theorem stage_lt_of_open {s : ExecutorState} (hopen : s.status.isTerminal = false)
    {status : JobStatus} (hterminal : status.isTerminal = true) :
    s.status.stage < status.stage := by
  rw [JobStatus.stage_eq.mpr hterminal]
  refine Nat.lt_of_le_of_ne s.status.stage_le fun hstage => ?_
  rw [JobStatus.stage_eq.mp hstage] at hopen
  cases hopen

theorem forward_apply (call : Call) : Forward s (call.apply s) := by
  cases call with
  | change c =>
    cases c with
    | start =>
      show Forward s s.start.2
      obtain ⟨htodo, hstart⟩ | ⟨-, hstart⟩ := start_cases s
      · rw [hstart]
        exact .of_stage (by rw [htodo]; decide)
      · rw [hstart]
        exact .of_eq rfl rfl rfl
    | succeed now =>
      show Forward s (s.succeed now).2
      obtain ⟨hopen, hsucceed⟩ | ⟨-, message, hsucceed⟩ := succeed_cases s now
      · rw [hsucceed]
        exact .of_stage (stage_lt_of_open hopen rfl)
      · rw [hsucceed]
        exact .of_log s now .warn message
    | fail now message =>
      show Forward s (s.fail now message).2
      have hlog := Forward.of_log s now .error message
      obtain ⟨hopen, hfail⟩ | ⟨-, hfail⟩ := fail_cases s now message
      · rw [hfail]
        exact hlog.trans (.of_stage (stage_lt_of_open hopen rfl))
      · rw [hfail]
        exact hlog
    | log now level message => exact .of_log s now level message
  | snapshot cursor => exact .of_eq rfl rfl rfl
  | markReported version => exact .of_eq rfl rfl rfl

/-- A message of a failure is logged in any case. -/
theorem logs_fail (now : Nat) (message : String) :
    (s.fail now message).2.logs = s.logs ++ [⟨now, .error, message⟩] := by
  obtain ⟨-, hfail⟩ | ⟨-, hfail⟩ := fail_cases s now message
  · rw [hfail]
    rfl
  · rw [hfail]
    rfl

/-! ### Histories -/

/-- A state, and what has happened to it. -/
structure History where
  state : ExecutorState := {}
  /-- The states of which a snapshot was taken, the newest one first. -/
  snapshots : List ExecutorState := []
  /-- The versions that were marked. -/
  marked : List Nat := []
  /-- How often a call has started the job. -/
  starts : Nat := 0
  /-- How often a call has latched a terminal status. -/
  ends : Nat := 0

namespace History

/-- A call more. -/
def step (h : History) (call : Call) : History where
  state := call.apply h.state
  snapshots := match call with
    | .snapshot _ => h.state :: h.snapshots
    | _ => h.snapshots
  marked := match call with
    | .markReported version => version :: h.marked
    | _ => h.marked
  starts := h.starts + (call.starts h.state).toNat
  ends := h.ends + (call.ends h.state).toNat

/-- Calls one after the other. -/
def run (h : History) (calls : List Call) : History := calls.foldl step h

/-- The newest state that was marked as reported, or a new state if there is none. -/
def lastReported (h : History) : ExecutorState :=
  (h.snapshots.find? fun s => s.version ∈ h.marked).getD {}

/-- Whether a version is marked only if a snapshot was taken of it before. -/
def marksSnapshots (h : History) : List Call → Bool
  | [] => true
  | .markReported version :: calls =>
    h.snapshots.any (·.version = version) && marksSnapshots (h.step (.markReported version)) calls
  | call :: calls => marksSnapshots (h.step call) calls

variable {h : History}

theorem forward_run (h : History) (calls : List Call) : Forward h.state (h.run calls).state := by
  induction calls generalizing h with
  | nil => exact .of_eq rfl rfl rfl
  | cons call calls ih => exact (forward_apply call).trans (ih (h.step call))

/-! ### Once -/

/-- Nothing starts or ends twice. -/
structure Once (h : History) : Prop where
  starts : h.starts ≤ 1
  starts_todo : h.state.status = .todo → h.starts = 0
  ends : h.ends = h.state.status.isTerminal.toNat

theorem Once.step (ho : h.Once) (call : Call) : (h.step call).Once := by
  have hstate : (h.step call).state = call.apply h.state := rfl
  cases moves_apply (s := h.state) call with
  | starts hstarts hends hbefore hafter =>
    have hnone := ho.starts_todo hbefore
    have hopen := ho.ends
    rw [hbefore] at hopen
    refine ⟨?_, fun htodo => ?_, ?_⟩
    · simp [History.step, hstarts, hnone]
    · cases hafter.symm.trans (hstate ▸ htodo)
    · simp only [History.step, hends, hafter, hopen]
      rfl
  | ends hstarts hends hbefore hafter =>
    have hopen := ho.ends
    rw [hbefore] at hopen
    refine ⟨?_, fun htodo => ?_, ?_⟩
    · simpa [History.step, hstarts] using ho.starts
    · rw [← hstate, htodo] at hafter
      cases hafter
    · simp [History.step, hends, hafter, hopen]
  | stays hstarts hends hsame =>
    refine ⟨?_, ?_, ?_⟩
    · simpa [History.step, hstarts] using ho.starts
    · simpa [History.step, hstarts, hsame] using ho.starts_todo
    · simpa [History.step, hends, hsame] using ho.ends

theorem Once.run (ho : h.Once) (calls : List Call) : (h.run calls).Once := by
  induction calls generalizing h with
  | nil => exact ho
  | cons call calls ih => exact ih (ho.step call)

/-! ### What was reported -/

/-- Snapshots and marks as they come. -/
structure Reports (h : History) : Prop where
  new : Forward {} h.state
  snapshots : ∀ s ∈ h.snapshots, Forward s h.state
  newest_first : h.snapshots.Pairwise fun newer older => Forward older newer
  marked : ∀ version ∈ h.marked, ∃ s ∈ h.snapshots, s.version = version
  marked_le : ∀ version ∈ h.marked, version ≤ h.state.reported
  reported : h.state.reported = 0 ∨ h.state.reported ∈ h.marked

theorem reported_change (c : Change) (s : ExecutorState) : (c.apply s).reported = s.reported :=
  (c.evolves s).reported_eq

theorem Reports.mark (hr : h.Reports) {version : Nat}
    (hversion : ∃ s ∈ h.snapshots, s.version = version) :
    (h.step (.markReported version)).Reports where
  new := hr.new.trans (.of_eq rfl rfl rfl)
  snapshots s hs := (hr.snapshots s hs).trans (.of_eq rfl rfl rfl)
  newest_first := hr.newest_first
  marked := List.forall_mem_cons.mpr ⟨hversion, hr.marked⟩
  marked_le := by
    refine List.forall_mem_cons.mpr ⟨Nat.le_max_right _ _, fun other hother => ?_⟩
    exact Nat.le_trans (hr.marked_le other hother) (Nat.le_max_left _ _)
  reported := by
    show max h.state.reported version = 0 ∨ max h.state.reported version ∈ version :: h.marked
    by_cases hle : h.state.reported ≤ version
    · rw [Nat.max_eq_right hle]
      exact .inr List.mem_cons_self
    · rw [Nat.max_eq_left (by omega)]
      exact hr.reported.imp_right (List.mem_cons_of_mem _)

theorem Reports.snapshot (hr : h.Reports) (cursor : Nat) : (h.step (.snapshot cursor)).Reports where
  new := hr.new
  snapshots := List.forall_mem_cons.mpr ⟨.of_eq rfl rfl rfl, hr.snapshots⟩
  newest_first := List.pairwise_cons.mpr ⟨hr.snapshots, hr.newest_first⟩
  marked version hmarked := by
    obtain ⟨s, hs, hversion⟩ := hr.marked version hmarked
    exact ⟨s, List.mem_cons_of_mem _ hs, hversion⟩
  marked_le := hr.marked_le
  reported := hr.reported

theorem Reports.change (hr : h.Reports) (c : Change) : (h.step (.change c)).Reports where
  new := hr.new.trans (forward_apply (.change c))
  snapshots s hs := (hr.snapshots s hs).trans (forward_apply (.change c))
  newest_first := hr.newest_first
  marked := hr.marked
  marked_le := by
    show ∀ version ∈ h.marked, version ≤ (c.apply h.state).reported
    rw [reported_change]
    exact hr.marked_le
  reported := by
    show (c.apply h.state).reported = 0 ∨ (c.apply h.state).reported ∈ h.marked
    rw [reported_change]
    exact hr.reported

theorem Reports.run (hr : h.Reports) {calls : List Call} (hmarks : h.marksSnapshots calls = true) :
    (h.run calls).Reports := by
  induction calls generalizing h with
  | nil => exact hr
  | cons call calls ih =>
    cases call with
    | change c => exact ih (hr.change c) hmarks
    | snapshot cursor => exact ih (hr.snapshot cursor) hmarks
    | markReported version =>
      obtain ⟨hversion, hmarks⟩ := (Bool.and_eq_true _ _).mp hmarks
      exact ih (hr.mark (by simpa using hversion)) hmarks

/-- The version that counts as reported is that of the newest snapshot that was marked, also if an
older one was marked behind it. -/
theorem Reports.lastReported (hr : h.Reports) :
    h.state.reported = h.lastReported.version ∧ Forward h.lastReported h.state := by
  rw [History.lastReported]
  cases hfind : h.snapshots.find? fun s => s.version ∈ h.marked with
  | none =>
    refine ⟨hr.reported.resolve_right fun hmarked => ?_, hr.new⟩
    obtain ⟨s, hs, hversion⟩ := hr.marked _ hmarked
    have hnone := List.find?_eq_none.mp hfind s hs
    simp [hversion, hmarked] at hnone
  | some newest =>
    obtain ⟨hnewest, before, after, hsplit, hbefore⟩ := List.find?_eq_some_iff_append.mp hfind
    have hmarked : newest.version ∈ h.marked := by simpa using hnewest
    refine ⟨Nat.le_antisymm ?_ (hr.marked_le _ hmarked),
      hr.snapshots newest (List.mem_of_find?_eq_some hfind)⟩
    obtain hnone | hreported := hr.reported
    · rw [hnone]
      exact Nat.zero_le _
    obtain ⟨s, hs, hversion⟩ := hr.marked _ hreported
    have hsorted := hr.newest_first
    rw [hsplit] at hs hsorted
    rw [← hversion, Option.getD_some]
    rcases List.mem_append.mp hs with hs | hs
    · have hunmarked := hbefore s hs
      simp [hversion, hreported] at hunmarked
    · obtain ⟨hafter, -⟩ := List.pairwise_cons.mp (List.pairwise_append.mp hsorted).2.1
      obtain rfl | hs := List.mem_cons.mp hs
      · exact Nat.le_refl _
      · exact (hafter s hs).version_le

/-- Whatever is called on a new state: between two moments it has gone forward, the job is started
once at most and from the first status only, a terminal status is latched once at most, and a
message of a failure is logged in any case. If only versions of earlier snapshots are marked, then
it is dirty exactly if the status or the log is not what it was in the newest snapshot that was
marked. -/
theorem run_latches (calls : List Call) :
    let h : History := run {} calls
    (∀ n, Forward (run {} (calls.take n)).state h.state) ∧
    h.starts ≤ 1 ∧ ((Call.change .start).starts h.state = true → h.state.status = .todo) ∧
    h.ends ≤ 1 ∧
    (∀ now message, ((Call.change (.fail now message)).apply h.state).logs =
      h.state.logs ++ [⟨now, .error, message⟩]) ∧
    (marksSnapshots {} calls = true → (h.state.isDirty = true ↔
      h.state.status ≠ h.lastReported.status ∨ h.state.logs ≠ h.lastReported.logs)) := by
  intro h
  have honce : h.Once := Once.run ⟨Nat.zero_le _, fun _ => rfl, rfl⟩ calls
  refine ⟨fun n => ?_, honce.starts, Call.starts_iff.mp, ?_, fun now message => logs_fail now message,
    fun hmarks => ?_⟩
  · have hsplit : h = (run {} (calls.take n)).run (calls.drop n) := by
      rw [run, run, ← List.foldl_append, List.take_append_drop]
      rfl
    rw [hsplit]
    exact forward_run _ _
  · rw [honce.ends]
    exact Bool.toNat_le _
  · have hnew : Reports {} := ⟨.of_eq rfl rfl rfl, nofun, .nil, nofun, nofun, .inl rfl⟩
    obtain ⟨hreported, hforward⟩ := (hnew.run hmarks).lastReported
    rw [isDirty, bne_iff_ne, hreported, Ne, hforward.version_eq_iff, Decidable.not_and_iff_not_or_not]

/-- Two snapshots are reported, and the older one is marked behind the newer one. -/
def lateMark : List Call :=
  [.change .start, .snapshot 0, .change (.log 1 .info "reading"), .snapshot 0, .markReported 2,
    .markReported 1]

theorem run_latches_late_mark :
    marksSnapshots {} lateMark = true ∧
    (run {} lateMark).lastReported.version = 2 ∧
    ((run {} lateMark).state.status = (run {} lateMark).lastReported.status ∧
      (run {} lateMark).state.logs = (run {} lateMark).lastReported.logs) := by
  have hmarks : marksSnapshots {} lateMark = true := by decide
  have hclean : (run {} lateMark).state.isDirty = false := by decide
  have hdirty := (run_latches lateMark).2.2.2.2.2 hmarks
  rw [hclean] at hdirty
  refine ⟨hmarks, by decide, ?_⟩
  simpa using hdirty

end History

end ExecutorState

end StagedQuery
