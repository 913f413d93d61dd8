import Mathlib.Data.List.Basic
import StagedQuery.Cluster.Run
import StagedQuery.Proofs.Action
import StagedQuery.Proofs.Cluster.Reporting

/-!
# Where a query stands

Graphs are dispatched and released, and heartbeats come in. What becomes of the report of an
executor depends on the acts that concern this executor, in their order, and on nothing else
(`Coordinator.report?_perform`). So heartbeats of different executors may change places
(`Coordinator.Alike`).

The status of a query says something about the reports of its jobs (`Coordinator.Says`). It is the
only status of which that is true (`Coordinator.queryStatus_perform`).
-/

namespace StagedQuery

namespace Coordinator

/-! ### What becomes of a report -/

/-- What changes reports. -/
inductive Act
  /-- A graph is dispatched. -/
  | dispatch (now : Nat) (graph : StageGraph) (config : QuerySettings)
  /-- A heartbeat is recorded. -/
  | heartbeat (now : Nat) (h : Heartbeat)
  /-- A graph is released. -/
  | release (graph : StageGraph)

namespace Act

/-- The coordinator after an act. Reports are only expected when there is somebody to report to. -/
def apply : Act → Coordinator → Coordinator
  | dispatch now graph config, c => if config.coordinator.isSome then c.expect now graph else c
  | heartbeat now h, c => c.record now h
  | release graph, c => c.release graph

/-- Whether an act has to do with the executor of a name. -/
def concerns (name : String) : Act → Bool
  | dispatch _ graph config =>
    config.coordinator.isSome && graph.jobs.any (·.location.name == name)
  | heartbeat _ h => h.location.name == name
  | release graph => graph.jobs.any (·.location.name == name)

/-- The report of the executor of a name after an act. -/
def onReport (name : String) : Act → Option JobReport → Option JobReport
  | dispatch now graph config, report =>
    if config.coordinator.isSome then
      ((graph.jobs.reverse.find? (·.location.name == name)).map fun job =>
        JobReport.initial job.location job.taskId now).or report
    else report
  | heartbeat now h, report =>
    if h.location.name = name then
      some ((report.getD (.initial h.location h.taskId 0)).fold now h)
    else report
  | release graph, report => if graph.jobs.any (·.location.name == name) then none else report

/-- An act that has nothing to do with an executor leaves its report alone. -/
theorem onReport_of_not_concerns {name : String} {act : Act} (h : act.concerns name = false)
    (report : Option JobReport) : act.onReport name report = report := by
  cases act with
  | dispatch now graph config =>
    rw [onReport]
    split
    case isTrue hreports =>
      rw [concerns, hreports, Bool.true_and] at h
      have hnone : graph.jobs.reverse.find? (·.location.name == name) = none := by
        simpa using h
      rw [hnone]
      rfl
    case isFalse => rfl
  | heartbeat now beat =>
    rw [concerns, beq_eq_false_iff_ne] at h
    exact if_neg h
  | release graph =>
    rw [concerns] at h
    rw [onReport, h]
    rfl

end Act

/-- Acts one after the other. -/
def perform (acts : List Act) (c : Coordinator) : Coordinator :=
  acts.foldl (fun c act => act.apply c) c

theorem report?_expect (now : Nat) (graph : StageGraph) (c : Coordinator) (name : String) :
    (c.expect now graph).report? name =
      ((graph.jobs.reverse.find? (·.location.name == name)).map fun job =>
        JobReport.initial job.location job.taskId now).or (c.report? name) := by
  obtain ⟨jobs, sink⟩ := graph
  rw [report?, report?, expect]
  dsimp only
  induction jobs generalizing c with
  | nil => rfl
  | cons job jobs ih =>
    rw [List.foldl_cons, List.reverse_cons, List.find?_append]
    -- a later job of the name takes the place of this one
    refine (ih { c with reports := setReport _ _ c.reports }).trans ?_
    cases jobs.reverse.find? (·.location.name == name) with
    | some later => rfl
    | none =>
      by_cases hname : job.location.name = name
      · subst hname
        simp [lookup_setReport]
      · simp [lookup_setReport_of_ne (Ne.symm hname), hname]

theorem report?_release (graph : StageGraph) (c : Coordinator) (name : String) :
    (c.release graph).report? name =
      if graph.jobs.any (·.location.name == name) then none else c.report? name := by
  rw [report?, report?, release]
  induction c.reports with
  | nil => simp
  | cons entry reports ih =>
    obtain ⟨n, report⟩ := entry
    by_cases hname : name = n
    · subst hname
      by_cases hany : graph.jobs.any (·.location.name == name) = true
      · simpa [List.filter_cons, hany] using ih
      · simp [hany]
    · have hne : (name == n) = false := beq_eq_false_iff_ne.mpr hname
      cases hany : graph.jobs.any (·.location.name == n) with
      | true => simpa [List.filter_cons, hany, List.lookup_cons, hne] using ih
      | false => simpa [List.filter_cons, hany, List.lookup_cons, hne] using ih

/-- What an act makes of a report. -/
theorem report?_apply (act : Act) (c : Coordinator) (name : String) :
    (act.apply c).report? name = act.onReport name (c.report? name) := by
  cases act with
  | dispatch now graph config =>
    rw [Act.apply, Act.onReport]
    split
    · exact report?_expect now graph c name
    · rfl
  | heartbeat now h =>
    rw [Act.apply, Act.onReport]
    split
    case isTrue hname =>
      subst hname
      exact lookup_setReport ..
    case isFalse hname => exact report?_record_of_ne (Ne.symm hname) now
  | release graph => exact report?_release graph c name

/-- A report has seen what concerns its executor, in this order, and nothing else. -/
theorem report?_perform (acts : List Act) (c : Coordinator) (name : String) :
    (c.perform acts).report? name =
      (acts.filter (·.concerns name)).foldl (fun report act => act.onReport name report)
        (c.report? name) := by
  induction acts generalizing c with
  | nil => rfl
  | cons act acts ih =>
    have hnext := ih (act.apply c)
    rw [report?_apply] at hnext
    rw [List.filter_cons]
    split
    case isTrue => exact hnext
    case isFalse hother =>
      rw [Act.onReport_of_not_concerns (Bool.eq_false_iff.mpr hother)] at hnext
      exact hnext

theorem config_perform (acts : List Act) (c : Coordinator) : (c.perform acts).config = c.config := by
  induction acts generalizing c with
  | nil => rfl
  | cons act acts ih =>
    refine (ih (act.apply c)).trans ?_
    cases act with
    | dispatch now graph config =>
      rw [Act.apply]
      split
      · rfl
      · rfl
    | heartbeat now h => rfl
    | release graph => rfl

end Coordinator

/-! ### Dispatching is an act -/

namespace Cluster

/-- The coordinator is the same before and after. -/
def CoordinatorKept (c c' : Cluster) : Prop := c'.coordinator = c.coordinator

instance : IsPreorder Cluster CoordinatorKept where
  refl _ := rfl
  trans _ _ _ h h' := h'.trans h

theorem ask_coordinatorKept (now : Nat) (fresh : Identifier) (address : String)
    (request : ControlRequest) : Action.Always CoordinatorKept (ask now fresh address request) := by
  intro c
  rw [ask]
  split
  · rfl
  · rcases request.send {} with ⟨_ | ⟨⟩, sent⟩
    · rfl
    · rfl

theorem handOut_coordinatorKept (now : Nat) (fresh : Identifier) (graph : StageGraph)
    (config : QuerySettings) :
    Action.Always CoordinatorKept (Coordinator.handOut (ask now fresh) graph config) := by
  have hphase (request : StageJob → ControlRequest) : Action.Always CoordinatorKept
      (Action.each (fun job => ask now fresh job.location.controlAddress (request job))
        graph.jobs) :=
    Action.always_each (fun job =>
      ask_coordinatorKept now fresh job.location.controlAddress (request job)) _
  exact (hphase _).bind fun _ => (hphase _).bind fun _ => (hphase _).bind fun _ => hphase _

/-- Whether or not the workers take the jobs, the reports are expected. -/
theorem coordinator_dispatch (now : Nat) (graph : StageGraph) (config : QuerySettings)
    (c : Cluster) : (dispatch now graph config c).2.coordinator =
      (Coordinator.Act.dispatch now graph config).apply c.coordinator := by
  rw [dispatch, Coordinator.Act.apply]
  split
  · exact handOut_coordinatorKept now config.queryId graph config _
  · exact handOut_coordinatorKept now config.queryId graph config c

end Cluster

/-! ### Changing places -/

namespace Coordinator

/-- The same has happened to each executor, in the same order. -/
def Alike (acts acts' : List Act) : Prop :=
  ∀ name, acts.filter (·.concerns name) = acts'.filter (·.concerns name)

/-- Heartbeats of different executors may change places. -/
theorem alike_swap {h h' : Heartbeat} (hne : h.location.name ≠ h'.location.name) (now now' : Nat)
    (before after : List Act) :
    Alike (before ++ .heartbeat now h :: .heartbeat now' h' :: after)
      (before ++ .heartbeat now' h' :: .heartbeat now h :: after) := by
  intro name
  rw [List.filter_append, List.filter_append]
  refine congrArg (before.filter (·.concerns name) ++ ·) ?_
  -- no executor is concerned by both
  by_cases hname : h.location.name = name
  · have hother : h'.location.name ≠ name := fun hname' => hne (hname.trans hname'.symm)
    simp [Act.concerns, hname, hother]
  · simp [List.filter_cons, Act.concerns, hname]

end Coordinator

/-! ### What a status says -/

namespace JobReport

variable {report : JobReport} {message : String}

/-- The last error of a log: the entries behind it are none. -/
theorem lastError?_eq_some : report.lastError? = some message ↔
    ∃ before entry after, report.logs = before ++ entry :: after ∧ entry.level = .error ∧
      (∀ later ∈ after, later.level ≠ .error) ∧ entry.message = message := by
  rw [lastError?, Option.map_eq_some_iff]
  constructor
  · rintro ⟨entry, hfound, rfl⟩
    obtain ⟨hlevel, after, before, hsplit, hafter⟩ := List.find?_eq_some_iff_append.mp hfound
    refine ⟨before.reverse, entry, after.reverse, ?_, by simpa using hlevel, ?_, rfl⟩
    · simpa using congrArg List.reverse hsplit
    · simpa using hafter
  · rintro ⟨before, entry, after, hlogs, hlevel, hafter, rfl⟩
    refine ⟨entry, List.find?_eq_some_iff_append.mpr ⟨by simpa using hlevel, after.reverse,
      before.reverse, by simp [hlogs], by simpa using hafter⟩, rfl⟩

theorem lastError?_eq_none :
    report.lastError? = none ↔ ∀ entry ∈ report.logs, entry.level ≠ .error := by
  simp [lastError?]

theorem isStale_iff {now timeout : Nat} : report.isStale now timeout = true ↔
    report.status.isTerminal = false ∧ report.lastSeen + timeout < now := by
  rw [isStale, Bool.and_eq_true, Bool.not_eq_true', decide_eq_true_iff]
  exact and_congr_right' ⟨fun h => by omega, fun h => by omega⟩

end JobReport

namespace Coordinator

/-- What is wrong with a job, going by its report. -/
inductive Troubled (c : Coordinator) (now : Nat) (job : StageJob) : QueryFault → Prop
  /-- It has failed, and the last error in its log says why. -/
  | failed {report : JobReport} {before after : List LogEntry} {entry : LogEntry}
    (hreport : c.report? job.location.name = some report) (hstatus : report.status = .error)
    (hlogs : report.logs = before ++ entry :: after) (hlevel : entry.level = .error)
    (hlast : ∀ later ∈ after, later.level ≠ .error) :
    Troubled c now job (.failed job.location.name entry.message)
  /-- It has failed, and its log does not say why. -/
  | unexplained {report : JobReport} (hreport : c.report? job.location.name = some report)
    (hstatus : report.status = .error) (hlogs : ∀ entry ∈ report.logs, entry.level ≠ .error) :
    Troubled c now job (.failed job.location.name "unknown error")
  /-- It has not ended, and was not heard of for longer than the timeout. -/
  | silent {report : JobReport} (hreport : c.report? job.location.name = some report)
    (hopen : report.status.isTerminal = false)
    (hsilent : report.lastSeen + c.config.heartbeatTimeout < now) :
    Troubled c now job (.silent job.location.name c.config.heartbeatTimeout)

variable {c c' : Coordinator} {now : Nat} {job : StageJob} {graph : StageGraph} {fault : QueryFault}
  {report : JobReport}

theorem trouble?_of_none (h : c.report? job.location.name = none) : c.trouble? now job = none := by
  rw [trouble?, h]
  rfl

theorem trouble?_of_error (h : c.report? job.location.name = some report)
    (hstatus : report.status = .error) : c.trouble? now job =
      some (.failed job.location.name (report.lastError?.getD "unknown error")) := by
  rw [trouble?, h]
  exact if_pos hstatus

theorem trouble?_of_ne_error (h : c.report? job.location.name = some report)
    (hstatus : report.status ≠ .error) : c.trouble? now job =
      if report.isStale now c.config.heartbeatTimeout then
        some (.silent job.location.name c.config.heartbeatTimeout)
      else none := by
  rw [trouble?, h]
  exact if_neg hstatus

theorem trouble?_eq_some : c.trouble? now job = some fault ↔ c.Troubled now job fault := by
  constructor
  · intro h
    cases hreport : c.report? job.location.name with
    | none =>
      rw [trouble?_of_none hreport] at h
      cases h
    | some report =>
      by_cases hstatus : report.status = .error
      · rw [trouble?_of_error hreport hstatus] at h
        cases h
        cases hreason : report.lastError? with
        | none => exact .unexplained hreport hstatus (JobReport.lastError?_eq_none.mp hreason)
        | some message =>
          obtain ⟨_, _, _, hlogs, hlevel, hlast, rfl⟩ := JobReport.lastError?_eq_some.mp hreason
          exact .failed hreport hstatus hlogs hlevel hlast
      · rw [trouble?_of_ne_error hreport hstatus, Option.ite_none_right_eq_some] at h
        obtain ⟨hstale, ⟨⟩⟩ := h
        obtain ⟨hopen, hsilent⟩ := JobReport.isStale_iff.mp hstale
        exact .silent hreport hopen hsilent
  · rintro (⟨hreport, hstatus, hlogs, hlevel, hlast⟩ | ⟨hreport, hstatus, hlogs⟩ |
      ⟨hreport, hopen, hsilent⟩)
    · have hreason := JobReport.lastError?_eq_some.mpr ⟨_, _, _, hlogs, hlevel, hlast, rfl⟩
      rw [trouble?_of_error hreport hstatus, hreason]
      rfl
    · rw [trouble?_of_error hreport hstatus, JobReport.lastError?_eq_none.mpr hlogs]
      rfl
    · refine (trouble?_of_ne_error hreport fun herror => ?_).trans
        (if_pos (JobReport.isStale_iff.mpr ⟨hopen, hsilent⟩))
      rw [herror] at hopen
      cases hopen

theorem trouble?_eq_none : c.trouble? now job = none ↔ ∀ fault, ¬ c.Troubled now job fault := by
  rw [Option.eq_none_iff_forall_ne_some]
  exact forall_congr' fun fault => not_congr trouble?_eq_some

/-- What a status says about the reports of the jobs of a query. -/
def Says (c : Coordinator) (now : Nat) (graph : StageGraph) : QueryStatus → Prop
  | .failed fault =>
    ∃ before job after, graph.jobs = before ++ job :: after ∧ c.Troubled now job fault ∧
      ∀ earlier ∈ before, ∀ other, ¬ c.Troubled now earlier other
  | .pending => ∀ job ∈ graph.jobs, c.report? job.location.name = none
  | .completed =>
    ∀ job ∈ graph.jobs, ∃ report, c.report? job.location.name = some report ∧
      report.status = .succeed
  | .running =>
    (∀ job ∈ graph.jobs, ∀ fault, ¬ c.Troubled now job fault) ∧
      (∃ job ∈ graph.jobs, c.report? job.location.name ≠ none) ∧
      ∃ job ∈ graph.jobs, ∀ report, c.report? job.location.name = some report →
        report.status ≠ .succeed

theorem findSome?_trouble?_eq_none : graph.jobs.findSome? (c.trouble? now) = none ↔
    ∀ job ∈ graph.jobs, ∀ fault, ¬ c.Troubled now job fault := by
  rw [List.findSome?_eq_none_iff]
  exact forall₂_congr fun job _ => trouble?_eq_none

theorem findSome?_trouble?_eq_some :
    graph.jobs.findSome? (c.trouble? now) = some fault ↔ c.Says now graph (.failed fault) := by
  rw [List.findSome?_eq_some_iff]
  refine exists₃_congr fun before job after => and_congr_right' (and_congr trouble?_eq_some ?_)
  exact forall₂_congr fun earlier _ => trouble?_eq_none

theorem not_troubled_of_none (h : c.report? job.location.name = none) :
    ¬ c.Troubled now job fault := by
  rw [← trouble?_eq_some, trouble?_of_none h]
  exact nofun

theorem not_troubled_of_succeed (h : c.report? job.location.name = some report)
    (hstatus : report.status = .succeed) : ¬ c.Troubled now job fault := by
  have hstale : report.isStale now c.config.heartbeatTimeout = false := by
    rw [JobReport.isStale, hstatus]
    rfl
  rw [← trouble?_eq_some, trouble?_of_ne_error h (by rw [hstatus]; decide), hstale]
  exact nofun

/-- The reports of a query. -/
def reportsOf (c : Coordinator) (graph : StageGraph) : List JobReport :=
  graph.jobs.filterMap fun job => c.report? job.location.name

theorem reportsOf_eq_nil :
    c.reportsOf graph = [] ↔ ∀ job ∈ graph.jobs, c.report? job.location.name = none :=
  List.filterMap_eq_nil_iff

/-- There are as many reports of success as there are jobs if every job has succeeded: a job without
a report, or with another one, is missing in the count. -/
theorem length_succeeded : ((c.reportsOf graph).filter (·.status = .succeed)).length = graph.size ↔
    ∀ job ∈ graph.jobs, ∃ report, c.report? job.location.name = some report ∧
      report.status = .succeed := by
  rw [reportsOf, List.filter_filterMap, StageGraph.size, List.filterMap_length_eq_length]
  refine forall₂_congr fun job _ => ?_
  cases c.report? job.location.name with
  | none => simp
  | some report => simp [Option.filter]

/-- The status of a query no job of which is in trouble. -/
theorem queryStatus_of_none (h : graph.jobs.findSome? (c.trouble? now) = none) :
    c.queryStatus now graph =
      if (c.reportsOf graph).isEmpty then .pending
      else if ((c.reportsOf graph).filter (·.status = .succeed)).length = graph.size then .completed
      else .running := by
  rw [queryStatus, h]
  rfl

theorem queryStatus_of_some (h : graph.jobs.findSome? (c.trouble? now) = some fault) :
    c.queryStatus now graph = .failed fault := by
  rw [queryStatus, h]

/-- What the status of a query says is so. -/
theorem says_queryStatus (c : Coordinator) (now : Nat) (graph : StageGraph) :
    c.Says now graph (c.queryStatus now graph) := by
  cases htrouble : graph.jobs.findSome? (c.trouble? now) with
  | some fault =>
    rw [queryStatus_of_some htrouble]
    exact findSome?_trouble?_eq_some.mp htrouble
  | none =>
    rw [queryStatus_of_none htrouble]
    split
    case isTrue hempty => exact reportsOf_eq_nil.mp (List.isEmpty_iff.mp hempty)
    case isFalse hreported =>
      split
      case isTrue hall => exact length_succeeded.mp hall
      case isFalse hsome =>
        refine ⟨findSome?_trouble?_eq_none.mp htrouble, ?_, ?_⟩
        · rw [List.isEmpty_iff, reportsOf_eq_nil] at hreported
          simpa using hreported
        · rw [length_succeeded] at hsome
          simpa using hsome

/-- Of a query with jobs, nothing else is so. -/
theorem queryStatus_eq (hjobs : graph.jobs ≠ []) {status : QueryStatus}
    (h : c.Says now graph status) : c.queryStatus now graph = status := by
  cases status with
  | failed fault => exact queryStatus_of_some (findSome?_trouble?_eq_some.mpr h)
  | pending =>
    have hwell : graph.jobs.findSome? (c.trouble? now) = none :=
      findSome?_trouble?_eq_none.mpr fun job hjob _ => not_troubled_of_none (h job hjob)
    rw [queryStatus_of_none hwell, reportsOf_eq_nil.mpr h]
    rfl
  | completed =>
    have hwell : graph.jobs.findSome? (c.trouble? now) = none := by
      refine findSome?_trouble?_eq_none.mpr fun job hjob _ => ?_
      obtain ⟨report, hreport, hstatus⟩ := h job hjob
      exact not_troubled_of_succeed hreport hstatus
    have hreported : ¬ (c.reportsOf graph).isEmpty = true := by
      rw [List.isEmpty_iff, reportsOf_eq_nil]
      intro hnone
      obtain ⟨job, hjob⟩ := List.exists_mem_of_ne_nil _ hjobs
      obtain ⟨report, hreport, -⟩ := h job hjob
      cases (hnone job hjob).symm.trans hreport
    rw [queryStatus_of_none hwell, if_neg hreported, if_pos (length_succeeded.mpr h)]
  | running =>
    obtain ⟨hwell, ⟨job, hjob, hreport⟩, other, hother, hopen⟩ := h
    have hreported : ¬ (c.reportsOf graph).isEmpty = true := by
      rw [List.isEmpty_iff, reportsOf_eq_nil]
      exact fun hnone => hreport (hnone job hjob)
    have hsome : ¬ ((c.reportsOf graph).filter (·.status = .succeed)).length = graph.size := by
      rw [length_succeeded]
      intro hall
      obtain ⟨report, hsucceed, hstatus⟩ := hall other hother
      exact hopen report hsucceed hstatus
    rw [queryStatus_of_none (findSome?_trouble?_eq_none.mpr hwell), if_neg hreported, if_neg hsome]

/-- A status only depends on the timeout and on the reports of the jobs. -/
theorem queryStatus_congr (hconfig : c'.config = c.config)
    (hreports : ∀ job ∈ graph.jobs, c'.report? job.location.name = c.report? job.location.name)
    (now : Nat) : c'.queryStatus now graph = c.queryStatus now graph := by
  have htrouble : graph.jobs.findSome? (c'.trouble? now) = graph.jobs.findSome? (c.trouble? now) := by
    rw [← List.head?_filterMap, ← List.head?_filterMap]
    refine congrArg List.head? (List.filterMap_congr fun job hjob => ?_)
    rw [trouble?, trouble?, hreports job hjob, hconfig]
  have hreportsOf : c'.reportsOf graph = c.reportsOf graph := List.filterMap_congr hreports
  rw [queryStatus, queryStatus, htrouble]
  cases graph.jobs.findSome? (c.trouble? now) with
  | some fault => rfl
  | none =>
    dsimp only
    rw [← reportsOf, ← reportsOf, hreportsOf]

/-- The status of a query with jobs is the one that says what is so of the latest reports. These are
what the acts have made of them, each by those that concern its executor; so the status is the same
if heartbeats of different executors were recorded in another order. -/
theorem queryStatus_perform (hjobs : graph.jobs ≠ []) (c : Coordinator) {acts acts' : List Act}
    (halike : Alike acts acts') (now : Nat) :
    (c.perform acts').queryStatus now graph = (c.perform acts).queryStatus now graph ∧
    (∀ name, (c.perform acts).report? name =
      (acts.filter (·.concerns name)).foldl (fun report act => act.onReport name report)
        (c.report? name)) ∧
    ∀ status, (c.perform acts).queryStatus now graph = status ↔
      (c.perform acts).Says now graph status := by
  refine ⟨?_, fun name => report?_perform acts c name, fun status => ⟨?_, queryStatus_eq hjobs⟩⟩
  · refine queryStatus_congr ?_ (fun job _ => ?_) now
    · rw [config_perform, config_perform]
    · rw [report?_perform, report?_perform, halike]
  · rintro rfl
    exact says_queryStatus _ now graph

/-- One executor works; the other one has failed, and its log has two errors and something behind
them. -/
theorem queryStatus_perform_swapped :
    let location (name : String) : Location :=
      { name, host := "localhost", controlPort := 1, dataPort := 2 }
    let job (name : String) : StageJob :=
      { taskId := default, location := location name, kind := .scan "t" [] [], inputs := []
        outputs := [], schema := { fields := [] }, payload := [] }
    let graph : StageGraph := { jobs := [job "w0", job "w1"], sink := 1 }
    let working : Heartbeat :=
      { location := location "w0", status := .running, taskId := default, logs := [] }
    let gone : Heartbeat :=
      { location := location "w1", status := .error, taskId := default
        logs := [⟨2, .error, "retrying"⟩, ⟨3, .error, "gone"⟩, ⟨4, .info, "closed"⟩] }
    let sent : Act := .dispatch 1 graph { queryId := default, coordinator := some "localhost:3" }
    let after : Coordinator := perform [sent, .heartbeat 5 working, .heartbeat 6 gone] {}
    let swapped : Coordinator := perform [sent, .heartbeat 6 gone, .heartbeat 5 working] {}
    let status : QueryStatus := .failed (.failed "w1" "gone")
    swapped.queryStatus 7 graph = status ∧ after.Says 7 graph status := by
  intro location job graph working gone sent after swapped status
  have hne : working.location.name ≠ gone.location.name := by decide
  have halike := alike_swap hne 5 6 [sent] []
  have hjobs : graph.jobs ≠ [] := by simp [graph]
  obtain ⟨hsame, -, hmeaning⟩ := queryStatus_perform hjobs {} halike 7
  have hfailed : after.queryStatus 7 graph = status := by decide
  exact ⟨hsame.trans hfailed, (hmeaning status).mp hfailed⟩

end Coordinator

end StagedQuery
