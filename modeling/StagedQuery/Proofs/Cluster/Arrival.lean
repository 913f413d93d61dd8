import StagedQuery.Proofs.Cluster.Reporting

/-!
# The order of arrival

The coordinator reads each stream of reports for itself, so heartbeats of one executor that came
over two streams may be taken in either order. Each of them is folded into the report of its
executor, whatever the report says already. What a report said stays exactly if nothing else comes
in behind it (`Coordinator.recordAll_keeps_status`). That is so when the heartbeats are taken in
the order in which the executor changed, since its terminal status stays; a heartbeat that is late
takes a terminal status back (`Coordinator.late_heartbeat_resets`).
-/

namespace StagedQuery

/-- Heartbeats of an executor that is in a state now, sent one after the other. -/
inductive SentInOrder : ExecutorState → List Heartbeat → Prop
  | nil (s : ExecutorState) : SentInOrder s []
  | cons {s s' : ExecutorState} {rest : List Heartbeat} (hs : s.Evolves s') (r : Reporter)
    (hrest : SentInOrder s' rest) :
    SentInOrder s (r.heartbeat (s'.snapshot r.cursor) :: rest)

/-- Behind a terminal status, an executor reports nothing else. -/
theorem SentInOrder.status_eq {s : ExecutorState} {sent : List Heartbeat}
    (h : SentInOrder s sent) (hterminal : s.status.isTerminal = true) :
    ∀ heartbeat ∈ sent, heartbeat.status = s.status := by
  induction h with
  | nil s => simp
  | @cons s s' rest hs r hrest ih =>
    have hsame : s'.status = s.status := hs.terminal hterminal
    rintro heartbeat (_ | ⟨_, hmem⟩)
    · exact hsame
    · exact (ih (hsame ▸ hterminal) heartbeat hmem).trans hsame

namespace Coordinator

/-- Take heartbeats, each at its time. -/
def recordAll (arrivals : List (Nat × Heartbeat)) (c : Coordinator) : Coordinator :=
  arrivals.foldl (fun c arrival => c.record arrival.1 arrival.2) c

/-- What concerns the executor of a name. -/
def ofName (name : String) (arrivals : List (Nat × Heartbeat)) : List (Nat × Heartbeat) :=
  arrivals.filter fun arrival => arrival.2.location.name = name

/-- The heartbeats of an executor and task, in the order in which they are taken. -/
def heartbeatsOf (name : String) (taskId : Identifier) (arrivals : List (Nat × Heartbeat)) :
    List Heartbeat :=
  (arrivals.map (·.2)).filter fun h => h.location.name = name ∧ h.taskId = taskId

variable {c : Coordinator} {name : String} {report : JobReport}

/-- A report has folded what concerns its executor, and nothing else. -/
theorem report?_recordAll (hc : c.report? name = some report) (arrivals : List (Nat × Heartbeat)) :
    (c.recordAll arrivals).report? name =
      some ((ofName name arrivals).foldl (fun r arrival => r.fold arrival.1 arrival.2) report) := by
  induction arrivals generalizing c report with
  | nil => exact hc
  | cons arrival arrivals ih =>
    obtain ⟨now, h⟩ := arrival
    by_cases hname : h.location.name = name
    · subst hname
      have hnext := ih (report?_record hc now)
      simpa [recordAll, ofName] using hnext
    · have hnext := ih ((report?_record_of_ne (Ne.symm hname) now).trans hc)
      simpa [recordAll, ofName, hname] using hnext

/-- A status that every heartbeat of a task repeats is what the report of that task says. -/
theorem status_foldl {taskId : Identifier} {status : JobStatus}
    {arrivals : List (Nat × Heartbeat)}
    (hsame : ∀ arrival ∈ arrivals, arrival.2.taskId = taskId → arrival.2.status = status)
    (hreport : report.taskId = taskId → report.status = status) :
    let later := arrivals.foldl (fun r arrival => r.fold arrival.1 arrival.2) report
    later.taskId = taskId → later.status = status := by
  induction arrivals generalizing report with
  | nil => exact hreport
  | cons arrival arrivals ih =>
    exact ih (fun a ha => hsame a (List.mem_cons_of_mem _ ha))
      (hsame arrival List.mem_cons_self)

/-- The report right after a heartbeat says what the heartbeat says. -/
theorem report?_recordAll_concat (hc : c.report? name = some report)
    (before : List (Nat × Heartbeat)) (now : Nat) {h : Heartbeat} (hname : h.location.name = name) :
    ∃ later, (c.recordAll (before ++ [(now, h)])).report? name = some later ∧
      later.taskId = h.taskId ∧ later.status = h.status := by
  subst hname
  obtain ⟨r, hr⟩ : ∃ r, (c.recordAll before).report? h.location.name = some r :=
    ⟨_, report?_recordAll hc before⟩
  refine ⟨r.fold now h, ?_, rfl, rfl⟩
  rw [recordAll, List.foldl_append]
  exact report?_record hr now

theorem mem_heartbeatsOf {taskId : Identifier} {arrivals : List (Nat × Heartbeat)}
    {h : Heartbeat} : h ∈ heartbeatsOf name taskId arrivals ↔
      (∃ now, (now, h) ∈ arrivals) ∧ h.location.name = name ∧ h.taskId = taskId := by
  simp [heartbeatsOf]

/-- The reports of an executor and task keep a status, whatever is taken in whatever order, exactly
if every heartbeat of that executor and task has this status. If the status is terminal, and the
heartbeats are taken in the order in which the executor sent them, then it stays. -/
theorem recordAll_keeps_status (hc : c.report? name = some report)
    (arrivals : List (Nat × Heartbeat)) :
    ((∀ k, ∀ later ∈ (c.recordAll (arrivals.take k)).report? name,
        later.taskId = report.taskId → later.status = report.status) ↔
      ∀ h ∈ heartbeatsOf name report.taskId arrivals, h.status = report.status) ∧
    (report.status.isTerminal = true →
      (∃ s : ExecutorState, s.status = report.status ∧
        SentInOrder s (heartbeatsOf name report.taskId arrivals)) →
      ∀ k, ∀ later ∈ (c.recordAll (arrivals.take k)).report? name,
        later.taskId = report.taskId → later.status = report.status) := by
  have hkept : (∀ h ∈ heartbeatsOf name report.taskId arrivals, h.status = report.status) →
      ∀ k, ∀ later ∈ (c.recordAll (arrivals.take k)).report? name,
        later.taskId = report.taskId → later.status = report.status := by
    intro hsame k later hlater
    rw [report?_recordAll hc] at hlater
    cases hlater
    refine status_foldl (fun arrival harrival htask => ?_) fun _ => rfl
    obtain ⟨harrival, hname⟩ := List.mem_filter.mp harrival
    have hmem : (arrival.1, arrival.2) ∈ arrivals := List.mem_of_mem_take harrival
    exact hsame arrival.2
      (mem_heartbeatsOf.mpr ⟨⟨arrival.1, hmem⟩, of_decide_eq_true hname, htask⟩)
  refine ⟨⟨fun hstays h hmem => ?_, hkept⟩, fun hterminal ⟨s, hs, hsent⟩ => hkept ?_⟩
  · -- the heartbeat decides what the report says right behind it
    obtain ⟨⟨now, harrival⟩, hname, htask⟩ := mem_heartbeatsOf.mp hmem
    obtain ⟨before, after, rfl⟩ := List.append_of_mem harrival
    obtain ⟨later, hlater, htask', hstatus⟩ := report?_recordAll_concat hc before now hname
    have htake : (before ++ (now, h) :: after).take (before.length + 1) = before ++ [(now, h)] := by
      simp [List.take_append, List.take_of_length_le]
    rw [← hstatus]
    exact hstays (before.length + 1) later (htake ▸ hlater) (htask'.trans htask)
  · rw [← hs] at hterminal ⊢
    exact hsent.status_eq hterminal

/-! ### A heartbeat that is late -/

/-- What an executor reports when it runs, and when it has ended. -/
def twoReports : Heartbeat × Heartbeat :=
  let r : Reporter := {
    location := { name := "w0", host := "localhost", controlPort := 1, dataPort := 2 }
    taskId := default }
  let s : ExecutorState := {}
  (r.heartbeat (s.start.2.snapshot 0), r.heartbeat ((s.start.2.succeed 1).2.snapshot 0))

theorem recordAll_keeps_status_in_order :
    let c : Coordinator := recordAll [(1, twoReports.1), (2, twoReports.2)] {}
    ∃ report, c.report? "w0" = some report ∧ report.status = .succeed ∧
      ∀ later ∈ (c.recordAll [(3, twoReports.2)]).report? "w0", later.status = .succeed := by
  intro c
  obtain ⟨report, hreport⟩ : ∃ report, c.report? "w0" = some report := ⟨_, rfl⟩
  have hstatus : report.status = .succeed := by
    cases hreport
    rfl
  have hof : heartbeatsOf "w0" report.taskId [(3, twoReports.2)] = [twoReports.2] := by
    cases hreport
    rfl
  have hsent : SentInOrder (({} : ExecutorState).start.2.succeed 1).2 [twoReports.2] :=
    .cons (.refl _) { location := twoReports.2.location, taskId := default } (.nil _)
  have hkept := (recordAll_keeps_status hreport [(3, twoReports.2)]).2
    (by rw [hstatus]; rfl) ⟨_, hstatus.symm, hof ▸ hsent⟩
  refine ⟨report, hreport, hstatus, fun later hlater => ?_⟩
  rw [← hstatus]
  refine hkept 1 later hlater ?_
  cases hreport
  cases hlater
  rfl

/-- The report of an executor that has ended says that it runs, once the heartbeat that was sent
first is taken behind the one that was sent last. -/
theorem late_heartbeat_resets :
    let c : Coordinator := recordAll [(1, twoReports.2)] {}
    let late := c.recordAll [(2, twoReports.1)]
    SentInOrder {} [twoReports.1, twoReports.2] ∧
    (c.report? "w0").map (·.status) = some .succeed ∧
    (late.report? "w0").map (·.status) = some .running ∧
    (late.report? "w0").map (·.taskId) = (c.report? "w0").map (·.taskId) := by
  refine ⟨?_, rfl, rfl, rfl⟩
  have hstart := ExecutorState.evolves_start {}
  have hend := ExecutorState.evolves_succeed ({} : ExecutorState).start.2 1
  exact .cons hstart { location := twoReports.1.location, taskId := default }
    (.cons hend { location := twoReports.1.location, taskId := default } (.nil _))

end Coordinator

end StagedQuery
