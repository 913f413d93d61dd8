import StagedQuery.Cluster.Coordinator
import StagedQuery.Proofs.Executor.State

/-!
# Reports keep up

An executor changes while its reporter sends, and the transport may break. A reporter takes a
snapshot of the state, sends it, and only when it was delivered moves its cursor and marks the
version of the snapshot as reported; meanwhile the state may have changed. `Reporting.step` says
what can happen next.

What carries the proofs is `Reporting.Tracks`: the report has the log up to the cursor, and it has
everything if nothing happened since the version that was marked last. A snapshot that is on its
way has the log behind the cursor, and what the state had at its version. Every step keeps this
(`Reporting.step_tracks`), and so does every run.
-/

namespace StagedQuery

/-! ### What the coordinator remembers -/

namespace Coordinator

theorem lookup_setReport (name : String) (report : JobReport)
    (reports : List (String × JobReport)) :
    (setReport name report reports).lookup name = some report := by
  fun_induction setReport name report reports with
  | case1 => simp
  | case2 r reports => simp
  | case3 n r reports hne ih => rwa [List.lookup_cons, beq_eq_false_iff_ne.mpr (Ne.symm hne)]

theorem lookup_setReport_of_ne {name other : String} (h : other ≠ name) (report : JobReport)
    (reports : List (String × JobReport)) :
    (setReport name report reports).lookup other = reports.lookup other := by
  fun_induction setReport name report reports with
  | case1 => rw [List.lookup_cons, beq_eq_false_iff_ne.mpr h]
  | case2 r reports => rw [List.lookup_cons, List.lookup_cons, beq_eq_false_iff_ne.mpr h]
  | case3 n r reports hne ih => rw [List.lookup_cons, List.lookup_cons, ih]

variable {c : Coordinator} {report : JobReport}

/-- A heartbeat is folded into the report of its executor. -/
theorem report?_record {h : Heartbeat} (hc : c.report? h.location.name = some report) (now : Nat) :
    (record now h c).report? h.location.name = some (report.fold now h) := by
  rw [record, hc]
  exact lookup_setReport ..

/-- The other reports stay as they are. -/
theorem report?_record_of_ne {h : Heartbeat} {name : String} (hne : name ≠ h.location.name)
    (now : Nat) : (record now h c).report? name = c.report? name :=
  lookup_setReport_of_ne hne ..

end Coordinator

/-! ### A reporter at work -/

/-- What is written onto a stream of reports. -/
inductive ReportItem
  | heartbeat (h : Heartbeat)
  | marker

/-- What a reporter is about. -/
inductive ReportPhase
  | waiting
  /-- A snapshot is on its way; it is the last one if the executor is done. -/
  | sending (snapshot : Snapshot) (last : Bool)
  /-- A snapshot was delivered, but its version is not marked yet. -/
  | delivered (snapshot : Snapshot) (last : Bool)
  /-- The last snapshot was reported. -/
  | closing
  | ended

/-- An executor, its reporter and the coordinator. -/
structure Reporting where
  state : ExecutorState := {}
  reporter : Reporter
  coordinator : Coordinator
  /-- The executor has said that it is done. -/
  fired : Bool := false
  phase : ReportPhase := .waiting
  /-- What was written onto the stream. -/
  stream : List ReportItem := []
  /-- What was written onto the streams that broke. -/
  broken : List (List ReportItem) := []

namespace Reporting

/-- Why a report is sent. -/
inductive Tick
  /-- Something may have changed. -/
  | fast
  /-- It is time. -/
  | slow
  /-- The executor is done. -/
  | done
  deriving DecidableEq

/-- Whether there is a reason. -/
def Tick.due (p : Reporting) : Tick → Bool
  | .fast => p.state.isDirty
  | .slow => true
  | .done => p.fired

/-- Whether it is the last report. -/
def Tick.last : Tick → Bool
  | .fast | .slow => false
  | .done => true

/-- What can happen. -/
inductive Event
  /-- The executor changes. -/
  | change (c : ExecutorState.Change)
  /-- The executor says that it is done. -/
  | fire
  /-- A report is begun. -/
  | tick (t : Tick)
  /-- It arrives, and the cursor moves. -/
  | deliver (now : Nat)
  /-- Its version is marked. -/
  | mark
  /-- The stream breaks: what was on its way is lost, and there is a new stream. -/
  | lose
  /-- The stream is closed behind the last report, which may fail when the marker is written. -/
  | close (clean : Bool)
  /-- The coordinator hears of another executor. -/
  | other (now : Nat) (h : Heartbeat)
  deriving DecidableEq

/-- Take a snapshot. -/
def begin (p : Reporting) (last : Bool) : Reporting :=
  { p with phase := .sending (p.state.snapshot p.reporter.cursor) last }

/-- The heartbeat of a snapshot arrives. -/
def deliver (p : Reporting) (now : Nat) (snapshot : Snapshot) (last : Bool) : Reporting :=
  let h := p.reporter.heartbeat snapshot
  { p with
    reporter := (p.reporter.delivered snapshot p.state).1
    coordinator := p.coordinator.record now h
    phase := .delivered snapshot last
    stream := p.stream ++ [.heartbeat h] }

/-- The version of a snapshot is marked. -/
def mark (p : Reporting) (snapshot : Snapshot) (last : Bool) : Reporting :=
  { p with
    state := (p.reporter.delivered snapshot p.state).2
    phase := if last then .closing else .waiting }

/-- Connect again. -/
def reconnect (p : Reporting) : Reporting :=
  { p with phase := .waiting, stream := [], broken := p.stream :: p.broken }

/-- Write the marker, and connect again if the transport could not be shut down. -/
def close (p : Reporting) (clean : Bool) : Reporting :=
  let p := { p with phase := .ended, stream := p.stream ++ [.marker] }
  if clean then p else p.reconnect

/-- What comes of an event, if it can happen. -/
def step (p : Reporting) : Event → Option Reporting
  | .change c => some { p with state := c.apply p.state }
  | .fire => some { p with fired := true }
  | .tick t =>
    match p.phase with
    | .waiting => if t.due p then some (p.begin t.last) else none
    | _ => none
  | .deliver now =>
    match p.phase with
    | .sending snapshot last => some (p.deliver now snapshot last)
    | _ => none
  | .mark =>
    match p.phase with
    | .delivered snapshot last => some (p.mark snapshot last)
    | _ => none
  | .lose =>
    match p.phase with
    | .waiting | .sending _ _ | .closing => some p.reconnect
    | _ => none
  | .close clean =>
    match p.phase with
    | .closing => some (p.close clean)
    | _ => none
  | .other now h =>
    if h.location.name = p.reporter.location.name then none
    else some { p with coordinator := p.coordinator.record now h }

/-- What comes of some events, one after the other. -/
def run (p : Reporting) (events : List Event) : Option Reporting := events.foldlM step p

/-- An executor to which nothing happened yet. -/
def start (location : Location) (taskId : Identifier) (coordinator : Coordinator) : Reporting where
  reporter := { location, taskId }
  coordinator

/-- With nothing in between, this is `Reporter.report`. -/
theorem run_report {p : Reporting} (hphase : p.phase = .waiting) (now : Nat) :
    p.run [.tick .slow, .deliver now, .mark] =
      some { p with
        reporter := (p.reporter.report p.state).2.1
        state := (p.reporter.report p.state).2.2
        coordinator := p.coordinator.record now (p.reporter.report p.state).1
        stream := p.stream ++ [.heartbeat (p.reporter.report p.state).1] } := by
  cases p
  subst hphase
  rfl

/-- The transitions of `Reporting.step`. -/
inductive Happens (p : Reporting) : Event → Reporting → Prop
  | change (c : ExecutorState.Change) : Happens p (.change c) { p with state := c.apply p.state }
  | fire : Happens p .fire { p with fired := true }
  | tick {t : Tick} (hphase : p.phase = .waiting) (hdue : t.due p = true) :
    Happens p (.tick t) (p.begin t.last)
  | deliver {now : Nat} {snapshot : Snapshot} {last : Bool}
    (hphase : p.phase = .sending snapshot last) :
    Happens p (.deliver now) (p.deliver now snapshot last)
  | mark {snapshot : Snapshot} {last : Bool} (hphase : p.phase = .delivered snapshot last) :
    Happens p .mark (p.mark snapshot last)
  | lose (hphase : p.phase ≠ .ended) : Happens p .lose p.reconnect
  | close {clean : Bool} (hphase : p.phase = .closing) : Happens p (.close clean) (p.close clean)
  | other {now : Nat} {h : Heartbeat} (hne : ¬ h.location.name = p.reporter.location.name) :
    Happens p (.other now h) { p with coordinator := p.coordinator.record now h }

theorem happens_of_step {p p' : Reporting} {e : Event} (h : p.step e = some p') :
    Happens p e p' := by
  cases e with
  | change c =>
    cases h
    exact .change c
  | fire =>
    cases h
    exact .fire
  | tick t =>
    simp only [step] at h
    split at h
    case h_1 hphase =>
      obtain ⟨hdue, h⟩ := Option.ite_none_right_eq_some.mp h
      cases h
      exact .tick hphase hdue
    case h_2 => cases h
  | deliver now =>
    simp only [step] at h
    split at h
    case h_1 hphase =>
      cases h
      exact .deliver hphase
    case h_2 => cases h
  | mark =>
    simp only [step] at h
    split at h
    case h_1 hphase =>
      cases h
      exact .mark hphase
    case h_2 => cases h
  | lose =>
    simp only [step] at h
    split at h
    case h_1 | h_3 =>
      rename_i hphase
      cases h
      exact .lose (by simp [hphase])
    case h_2 hphase =>
      cases h
      exact .lose (by simp [hphase])
    case h_4 => cases h
  | close clean =>
    simp only [step] at h
    split at h
    case h_1 hphase =>
      cases h
      exact .close hphase
    case h_2 => cases h
  | other now heartbeat =>
    obtain ⟨hne, h⟩ := Option.ite_none_left_eq_some.mp h
    cases h
    exact .other hne

/-! ### The report keeps up -/

end Reporting

/-- The report says all there is to say. -/
def JobReport.UpToDate (report : JobReport) (s : ExecutorState) : Prop :=
  report.status = s.status ∧ report.logs = s.logs

/-- A snapshot that was taken of the state, or of the state before some changes. -/
structure Snapshot.Of (snapshot : Snapshot) (s : ExecutorState) (cursor : Nat) : Prop where
  logs_prefix : snapshot.logs <+: s.logs.drop cursor
  reported_le : s.reported ≤ snapshot.version
  version_le : snapshot.version ≤ s.version
  current : s.version = snapshot.version →
    snapshot.status = s.status ∧ snapshot.logs = s.logs.drop cursor

/-- What is known of the snapshot that is on its way or has just arrived. -/
def ReportPhase.Holds (s : ExecutorState) (cursor : Nat) (report : JobReport) : ReportPhase → Prop
  | .sending snapshot _ => snapshot.Of s cursor
  | .delivered snapshot _ => snapshot.version ≤ s.version ∧
      (s.version = snapshot.version → report.UpToDate s)
  | .waiting | .closing | .ended => True

/-- What is known stays known: after a change the version is another one. -/
theorem ReportPhase.Holds.evolves {phase : ReportPhase} {s s' : ExecutorState} {cursor : Nat}
    {report : JobReport} (h : phase.Holds s cursor report) (hs : s.Evolves s')
    (hcursor : cursor ≤ s.logs.length) : phase.Holds s' cursor report := by
  cases phase with
  | sending snapshot last =>
    refine ⟨?_, ?_, Nat.le_trans h.version_le hs.version_le, fun hversion => ?_⟩
    · obtain ⟨more, hmore⟩ := hs.logs_prefix
      rw [← hmore, List.drop_append_of_le_length hcursor]
      exact h.logs_prefix.trans (List.prefix_append _ _)
    · rw [hs.reported_eq]
      exact h.reported_le
    · obtain rfl := hs.eq_of_version_le (hversion ▸ h.version_le)
      exact h.current hversion
  | delivered snapshot last =>
    obtain ⟨hle, hcurrent⟩ := h
    refine ⟨Nat.le_trans hle hs.version_le, fun hversion => ?_⟩
    obtain rfl := hs.eq_of_version_le (hversion ▸ hle)
    exact hcurrent hversion
  | waiting | closing | ended => trivial

namespace Reporting

/-- The report of the executor of a name. -/
structure Tracks (name : String) (p : Reporting) (report : JobReport) : Prop where
  name_eq : p.reporter.location.name = name
  known : p.coordinator.report? name = some report
  cursor_le : p.reporter.cursor ≤ p.state.logs.length
  logs_eq : report.logs = p.state.logs.take p.reporter.cursor
  reported_le : p.state.reported ≤ p.state.version
  clean : p.state.version = p.state.reported → report.UpToDate p.state
  phase : p.phase.Holds p.state p.reporter.cursor report

variable {name : String} {p p' : Reporting} {report : JobReport}

/-- A change has a version of its own, so nothing was known of it before. -/
theorem Tracks.change (h : Tracks name p report) (c : ExecutorState.Change) :
    Tracks name { p with state := c.apply p.state } report := by
  have hs := c.evolves p.state
  refine ⟨h.name_eq, h.known, Nat.le_trans h.cursor_le hs.logs_prefix.length_le, ?_, ?_, ?_,
    h.phase.evolves hs h.cursor_le⟩
  · obtain ⟨more, hmore⟩ := hs.logs_prefix
    rw [h.logs_eq, ← hmore, List.take_append_of_le_length h.cursor_le]
  · rw [hs.reported_eq]
    exact Nat.le_trans h.reported_le hs.version_le
  · intro hclean
    rw [hs.reported_eq] at hclean
    have hsame := hs.eq_of_version_le (hclean ▸ h.reported_le)
    rw [hsame] at hclean ⊢
    exact h.clean hclean

/-- The heartbeats of others are not folded into this report. -/
theorem Tracks.other (h : Tracks name p report) {now : Nat} {heartbeat : Heartbeat}
    (hne : ¬ heartbeat.location.name = p.reporter.location.name) :
    Tracks name { p with coordinator := p.coordinator.record now heartbeat } report := by
  rw [h.name_eq] at hne
  refine { h with known := ?_ }
  exact (Coordinator.report?_record_of_ne (Ne.symm hne) now).trans h.known

theorem Tracks.begin (h : Tracks name p report) (last : Bool) :
    Tracks name (p.begin last) report :=
  { h with
    phase := ⟨List.prefix_refl _, h.reported_le, Nat.le_refl _, fun _ => ⟨rfl, rfl⟩⟩ }

/-- What arrives continues what is there. -/
theorem Tracks.deliver (h : Tracks name p report) {snapshot : Snapshot} {last : Bool}
    (hphase : p.phase = .sending snapshot last) (now : Nat) :
    Tracks name (p.deliver now snapshot last)
      (report.fold now (p.reporter.heartbeat snapshot)) := by
  have hof : snapshot.Of p.state p.reporter.cursor := by
    have hholds := h.phase
    rwa [hphase] at hholds
  have hlogs : report.logs ++ snapshot.logs =
      p.state.logs.take (p.reporter.cursor + snapshot.logs.length) := by
    rw [h.logs_eq, List.take_add, ← List.prefix_iff_eq_take.mp hof.logs_prefix]
  have hlength := hof.logs_prefix.length_le
  rw [List.length_drop] at hlength
  have hcursor := h.cursor_le
  have hcurrent : p.state.version = snapshot.version →
      (report.fold now (p.reporter.heartbeat snapshot)).UpToDate p.state := by
    intro hversion
    obtain ⟨hstatus, hall⟩ := hof.current hversion
    refine ⟨hstatus, ?_⟩
    show report.logs ++ snapshot.logs = p.state.logs
    rw [h.logs_eq, hall, List.take_append_drop]
  refine ⟨h.name_eq, ?_, ?_, hlogs, h.reported_le, ?_, hof.version_le, hcurrent⟩
  · have hknown := h.known
    rw [← h.name_eq] at hknown ⊢
    exact Coordinator.report?_record (h := p.reporter.heartbeat snapshot) hknown now
  · show p.reporter.cursor + snapshot.logs.length ≤ p.state.logs.length
    omega
  · intro (hclean : p.state.version = p.state.reported)
    have hreported := hof.reported_le
    have hversion := hof.version_le
    exact hcurrent (by omega)

/-- What is marked has arrived, and if nothing happened since then there is nothing else. -/
theorem Tracks.mark (h : Tracks name p report) {snapshot : Snapshot} {last : Bool}
    (hphase : p.phase = .delivered snapshot last) : Tracks name (p.mark snapshot last) report := by
  obtain ⟨hversion, hcurrent⟩ : snapshot.version ≤ p.state.version ∧
      (p.state.version = snapshot.version → report.UpToDate p.state) := by
    have hholds := h.phase
    rwa [hphase] at hholds
  refine ⟨h.name_eq, h.known, h.cursor_le, h.logs_eq, Nat.max_le.mpr ⟨h.reported_le, hversion⟩,
    ?_, ?_⟩
  · intro (hclean : p.state.version = max p.state.reported snapshot.version)
    show report.UpToDate p.state
    by_cases hbefore : p.state.version = p.state.reported
    · exact h.clean hbefore
    · exact hcurrent (by omega)
  · unfold Reporting.mark
    cases last <;> trivial

theorem Tracks.reconnect (h : Tracks name p report) : Tracks name p.reconnect report :=
  { h with phase := trivial }

theorem Tracks.close (h : Tracks name p report) (clean : Bool) :
    Tracks name (p.close clean) report := by
  unfold Reporting.close
  cases clean with
  | true => exact { h with phase := trivial }
  | false => exact { h with phase := trivial }

/-- Whatever happens, the report keeps up. -/
theorem step_tracks (h : Tracks name p report) {e : Event} (hstep : p.step e = some p') :
    ∃ report', Tracks name p' report' := by
  cases happens_of_step hstep with
  | change c => exact ⟨report, h.change c⟩
  | fire => exact ⟨report, { h with }⟩
  | tick hphase hdue => exact ⟨report, h.begin _⟩
  | deliver hphase => exact ⟨_, h.deliver hphase _⟩
  | mark hphase => exact ⟨report, h.mark hphase⟩
  | lose hphase => exact ⟨report, h.reconnect⟩
  | close hphase => exact ⟨report, h.close _⟩
  | other hne => exact ⟨report, h.other hne⟩

theorem run_cons {e : Event} {events : List Event} (h : p.run (e :: events) = some p') :
    ∃ q, p.step e = some q ∧ q.run events = some p' := Option.bind_eq_some_iff.mp h

theorem run_tracks (h : Tracks name p report) {events : List Event}
    (hrun : p.run events = some p') : ∃ report', Tracks name p' report' := by
  induction events generalizing p report with
  | nil =>
    cases hrun
    exact ⟨report, h⟩
  | cons e events ih =>
    obtain ⟨q, hstep, hrest⟩ := run_cons hrun
    obtain ⟨report', hq⟩ := step_tracks h hstep
    exact ih hq hrest

/-! ### The last report -/

/-- A heartbeat with a terminal status was written last. -/
def EndsTerminal (stream : List ReportItem) : Prop :=
  ∃ before h, stream = before ++ [.heartbeat h] ∧ h.status.isTerminal = true

/-- If there is a marker on the stream, then it is the last item, and behind a heartbeat with a
terminal status. -/
def EndsWell (stream : List ReportItem) : Prop :=
  ∀ front back, stream = front ++ .marker :: back → back = [] ∧ EndsTerminal front

theorem EndsWell.of_not_mem {stream : List ReportItem} (h : .marker ∉ stream) :
    EndsWell stream := by
  rintro front back rfl
  exact absurd (List.mem_append_right _ List.mem_cons_self) h

theorem EndsWell.of_marker {stream : List ReportItem} (h : .marker ∉ stream)
    (hlast : EndsTerminal stream) : EndsWell (stream ++ [.marker]) := by
  intro front back hsplit
  obtain rfl | ⟨middle, item, rfl⟩ := List.eq_nil_or_concat back
  · exact ⟨rfl, List.append_cancel_right hsplit ▸ hlast⟩
  · -- a marker with something behind it would be on the stream already
    rw [List.concat_eq_append, ← List.cons_append, ← List.append_assoc] at hsplit
    obtain rfl := List.append_inj_left' hsplit rfl
    exact absurd (List.mem_append_right _ List.mem_cons_self) h

/-- The executor has a terminal status when it is done, and so has the last snapshot. -/
structure Finishes (p : Reporting) : Prop where
  fired : p.fired = true → p.state.status.isTerminal = true
  sending : ∀ snapshot, p.phase = .sending snapshot true → snapshot.status.isTerminal = true
  delivered : ∀ snapshot, p.phase = .delivered snapshot true → EndsTerminal p.stream
  closing : p.phase = .closing → EndsTerminal p.stream
  unended : p.phase ≠ .ended → .marker ∉ p.stream
  stream : EndsWell p.stream
  broken : ∀ stream ∈ p.broken, EndsWell stream

/-- A new stream begins. -/
theorem Finishes.reconnect (hfired : p.fired = true → p.state.status.isTerminal = true)
    (hstream : EndsWell p.stream) (hbroken : ∀ stream ∈ p.broken, EndsWell stream) :
    Finishes p.reconnect where
  fired := hfired
  sending := nofun
  delivered := nofun
  closing := nofun
  unended _ := List.not_mem_nil
  stream := .of_not_mem List.not_mem_nil
  broken := List.forall_mem_cons.mpr ⟨hstream, hbroken⟩

/-- A step keeps it so, unless the executor says that it is done before it is. -/
theorem step_finishes (h : Finishes p) {e : Event} (hstep : p.step e = some p')
    (hfire : e = .fire → p.state.status.isTerminal = true) : Finishes p' := by
  cases happens_of_step hstep with
  | change c =>
    refine { h with fired := fun hfired => ?_ }
    rw [(c.evolves p.state).terminal (h.fired hfired)]
    exact h.fired hfired
  | fire => exact { h with fired := fun _ => hfire rfl }
  | @tick t hphase hdue =>
    refine { h with sending := ?_, delivered := nofun, closing := nofun, unended := ?_ }
    · rintro snapshot hlast
      cases t with
      | fast | slow => cases hlast
      | done =>
        cases hlast
        exact h.fired hdue
    · intro _
      exact h.unended (by simp [hphase])
  | @deliver now snapshot last hphase =>
    have hplain : .marker ∉ p.stream ++ [.heartbeat (p.reporter.heartbeat snapshot)] := by
      have hstream := h.unended (by simp [hphase])
      simpa using hstream
    refine { h with
      sending := nofun, delivered := ?_, closing := nofun
      unended := fun _ => hplain, stream := .of_not_mem hplain }
    rintro _ ⟨⟩
    exact ⟨p.stream, _, rfl, h.sending snapshot hphase⟩
  | @mark snapshot last hphase =>
    have hplain := h.unended (by simp [hphase])
    cases last with
    | true =>
      exact { h with
        sending := nofun, delivered := nofun, closing := fun _ => h.delivered snapshot hphase
        unended := fun _ => hplain }
    | false =>
      exact { h with
        sending := nofun, delivered := nofun, closing := nofun, unended := fun _ => hplain }
  | lose hphase => exact .reconnect h.fired h.stream h.broken
  | @close clean hphase =>
    have hends := EndsWell.of_marker (h.unended (by simp [hphase])) (h.closing hphase)
    cases clean with
    | true =>
      exact { h with
        sending := nofun, delivered := nofun, closing := nofun
        unended := fun hphase => absurd rfl hphase, stream := hends }
    | false => exact .reconnect h.fired hends h.broken
  | other hne => exact { h with }

/-- The executor says that it is done only when it is. -/
def FiresDone (p : Reporting) (events : List Event) : Prop :=
  ∀ k < events.length, events[k]? = some .fire →
    ∀ q ∈ p.run (events.take k), q.state.status.isTerminal = true

instance (p : Reporting) (events : List Event) : Decidable (p.FiresDone events) :=
  inferInstanceAs (Decidable (∀ k < events.length, events[k]? = some .fire →
    ∀ q ∈ p.run (events.take k), q.state.status.isTerminal = true))

theorem FiresDone.tail {e : Event} {events : List Event} (h : p.FiresDone (e :: events))
    (hstep : p.step e = some p') : p'.FiresDone events := by
  intro k hk hfire q hrun
  refine h (k + 1) (Nat.succ_lt_succ hk) hfire q ?_
  exact Option.bind_eq_some_iff.mpr ⟨p', hstep, hrun⟩

theorem run_finishes (h : Finishes p) {events : List Event} (hrun : p.run events = some p')
    (hfires : p.FiresDone events) : Finishes p' := by
  induction events generalizing p with
  | nil =>
    cases hrun
    exact h
  | cons e events ih =>
    obtain ⟨q, hstep, hrest⟩ := run_cons hrun
    refine ih (step_finishes h hstep ?_) hrest (hfires.tail hstep)
    rintro rfl
    exact hfires 0 (Nat.succ_pos _) rfl p rfl

/-! ### From the start -/

variable {location : Location} {taskId : Identifier} {coordinator : Coordinator}
  {initial : JobReport}

theorem tracks_start (hknown : coordinator.report? location.name = some initial)
    (hstatus : initial.status = .todo) (hlogs : initial.logs = []) :
    Tracks location.name (start location taskId coordinator) initial :=
  ⟨rfl, hknown, Nat.le_refl _, hlogs, Nat.le_refl _, fun _ => ⟨hstatus, hlogs⟩, trivial⟩

theorem finishes_start : Finishes (start location taskId coordinator) where
  fired := nofun
  sending := nofun
  delivered := nofun
  closing := nofun
  unended _ := List.not_mem_nil
  stream := .of_not_mem List.not_mem_nil
  broken := nofun

/-- Whatever happens, the log of the report is the log of the executor up to the cursor, and a
report of a state that is not dirty says all there is to say. If the executor says that it is done
only when it is, then what stands before a marker is a heartbeat with a terminal status. -/
theorem run_reports (hknown : coordinator.report? location.name = some initial)
    (hstatus : initial.status = .todo) (hlogs : initial.logs = []) {events : List Event}
    (hrun : (start location taskId coordinator).run events = some p) :
    (∃ report, p.coordinator.report? location.name = some report ∧
      p.reporter.cursor ≤ p.state.logs.length ∧
      report.logs = p.state.logs.take p.reporter.cursor ∧
      (p.state.isDirty = false → report.status = p.state.status ∧ report.logs = p.state.logs)) ∧
    ((start location taskId coordinator).FiresDone events →
      ∀ stream ∈ p.stream :: p.broken, EndsWell stream) := by
  obtain ⟨report, h⟩ := run_tracks (tracks_start hknown hstatus hlogs) hrun
  refine ⟨⟨report, h.known, h.cursor_le, h.logs_eq, fun hdirty => h.clean ?_⟩, fun hfires => ?_⟩
  · simpa [ExecutorState.isDirty] using hdirty
  · have hends := run_finishes finishes_start hrun hfires
    exact List.forall_mem_cons.mpr ⟨hends.stream, hends.broken⟩

/-- An executor that fails: a message is logged while a report is on its way, and the connection is
lost before the last report. -/
def failing : List Event :=
  [.change .start, .tick .fast, .change (.log 1 .info "working"), .deliver 2, .mark,
    .change (.fail 3 "gone"), .tick .slow, .lose, .fire, .tick .done, .deliver 4, .mark,
    .close true]

theorem run_reports_failing :
    let location : Location :=
      { name := "w0", host := "localhost", controlPort := 1, dataPort := 2 }
    let coordinator : Coordinator := { reports := [("w0", .initial location default 0)] }
    ∃ p report, (start location default coordinator).run failing = some p ∧
      p.coordinator.report? "w0" = some report ∧ report.status = .error ∧
      report.logs = p.state.logs ∧
      ∃ front, p.stream = front ++ [.marker] ∧ EndsTerminal front := by
  intro location coordinator
  obtain ⟨p, hrun⟩ : ∃ p, (start location default coordinator).run failing = some p := ⟨_, rfl⟩
  obtain ⟨⟨report, hknown, -, -, hclean⟩, hends⟩ := run_reports rfl rfl rfl hrun
  obtain ⟨hstatus, hlogs⟩ := hclean (by cases hrun; rfl)
  have hfires : (start location default coordinator).FiresDone failing := by decide
  obtain ⟨front, hfront⟩ : ∃ front, p.stream = front ++ [.marker] := by
    cases hrun
    exact ⟨[_], rfl⟩
  obtain ⟨-, hlast⟩ := hends hfires p.stream List.mem_cons_self front [] hfront
  refine ⟨p, report, hrun, hknown, ?_, hlogs, front, hfront, hlast⟩
  rw [hstatus]
  cases hrun
  rfl

end Reporting

end StagedQuery
