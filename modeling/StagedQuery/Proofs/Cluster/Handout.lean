import Mathlib.Data.List.Nodup
import StagedQuery.Cluster.Coordinator
import StagedQuery.Proofs.Action

/-!
# Jobs are handed out in phases

`StageGraph.requests` is the list of everything that is asked when the jobs of a graph are handed
out. However the workers answer, and whatever goes on between two requests, the requests that are
sent are the first ones of this list, and the first answer that is not Ok is the last one
(`Handed.phased`).

To say so, `Coordinator.recorded` keeps a record of each request, of what it comes upon, and of how
it is answered. `Handed` has one rule for each thing that can happen next; a property that holds
before the first request, and outlasts whatever goes on in between and each answer that is Ok, holds
of all that the requests come upon (`Handed.holds`).
-/

namespace StagedQuery

/-- A request, and the address to which it is sent. -/
structure Envelope where
  address : String
  request : ControlRequest
  deriving DecidableEq

/-- A request to the worker of a job. -/
def StageJob.envelope (job : StageJob) (request : ControlRequest) : Envelope :=
  ⟨job.location.controlAddress, request⟩

/-- All requests, in the order in which they are sent. -/
def StageGraph.requests (graph : StageGraph) (config : QuerySettings) : List Envelope :=
  graph.jobs.map (fun job => job.envelope (.accept job config)) ++
    (graph.jobs.map (fun job => job.envelope (.setupWriters job.location.name)) ++
      (graph.jobs.map (fun job => job.envelope (.setupReaders job.location.name)) ++
        graph.jobs.map fun job => job.envelope (.run job.location.name)))

/-- The phase in which a request is sent, if it is. -/
def ControlRequest.phase : ControlRequest → Nat
  | accept .. => 0
  | setupWriters _ => 1
  | setupReaders _ => 2
  | run _ => 3
  | resolveOutputLocation .. => 4

section Requests

variable {graph : StageGraph} {config : QuerySettings} {done rest : List Envelope}
  {e other : Envelope}

theorem StageGraph.mem_requests :
    e ∈ graph.requests config ↔ ∃ job ∈ graph.jobs,
      e = job.envelope (.accept job config) ∨ e = job.envelope (.setupWriters job.location.name) ∨
        e = job.envelope (.setupReaders job.location.name) ∨
          e = job.envelope (.run job.location.name) := by
  simp only [requests, List.mem_append, List.mem_map, ← exists_or, ← and_or_left, eq_comm]

/-- A request is sent to the worker of some job, and is about its executor. -/
theorem StageGraph.of_mem_requests (h : e ∈ graph.requests config) :
    ∃ job ∈ graph.jobs, e.address = job.location.controlAddress ∧
      e.request.executor = job.location.name ∧
      (e = job.envelope (.accept job config) ∨ e = job.envelope (.setupWriters job.location.name) ∨
        e = job.envelope (.setupReaders job.location.name) ∨
          e = job.envelope (.run job.location.name)) := by
  obtain ⟨job, hjob, hcases⟩ := mem_requests.mp h
  refine ⟨job, hjob, ?_, ?_, hcases⟩
  all_goals rcases hcases with rfl | rfl | rfl | rfl <;> rfl

/-- A phase begins when the one before has ended. -/
theorem StageGraph.requests_sorted (graph : StageGraph) (config : QuerySettings) :
    (graph.requests config).Pairwise fun a b => a.request.phase ≤ b.request.phase := by
  have hlayer (request : StageJob → ControlRequest) (n : Nat) (hn : ∀ job, (request job).phase = n) :
      (graph.jobs.map fun job => job.envelope (request job)).Pairwise
        fun a b => a.request.phase ≤ b.request.phase := by
    refine List.pairwise_map.mpr (List.pairwise_of_forall fun a b => ?_)
    exact Nat.le_of_eq ((hn a).trans (hn b).symm)
  refine List.pairwise_append.mpr ⟨hlayer _ 0 fun _ => rfl, List.pairwise_append.mpr
    ⟨hlayer _ 1 fun _ => rfl, List.pairwise_append.mpr
      ⟨hlayer _ 2 fun _ => rfl, hlayer _ 3 fun _ => rfl, ?_⟩, ?_⟩, ?_⟩
  all_goals
    simp only [List.mem_append, List.mem_map]
    grind [StageJob.envelope, ControlRequest.phase]

/-- No request is sent twice. -/
theorem StageGraph.requests_nodup (hn : (graph.jobs.map (·.location.name)).Nodup)
    (config : QuerySettings) : (graph.requests config).Nodup := by
  have hlayer (request : StageJob → ControlRequest)
      (hname : ∀ job, (request job).executor = job.location.name) :
      (graph.jobs.map fun job => job.envelope (request job)).Nodup := by
    have hnames : (graph.jobs.map fun job => job.envelope (request job)).map (·.request.executor) =
        graph.jobs.map (·.location.name) := by
      rw [List.map_map]
      exact List.map_congr_left fun job _ => hname job
    exact List.Nodup.of_map _ (hnames ▸ hn)
  have hapart {as bs : List Envelope} (ha : as.Nodup) (hb : bs.Nodup)
      (hlt : ∀ a ∈ as, ∀ b ∈ bs, a.request.phase < b.request.phase) : (as ++ bs).Nodup :=
    List.nodup_append.mpr ⟨ha, hb, fun a hmem b hmem' heq =>
      Nat.lt_irrefl _ (heq ▸ hlt a hmem b hmem')⟩
  refine hapart (hlayer _ fun _ => rfl) (hapart (hlayer _ fun _ => rfl)
    (hapart (hlayer _ fun _ => rfl) (hlayer _ fun _ => rfl) ?_) ?_) ?_
  all_goals
    simp only [List.mem_append, List.mem_map]
    grind [StageJob.envelope, ControlRequest.phase]

/-- What belongs to an earlier phase has been sent. -/
theorem StageGraph.sent_of_phase_lt (h : graph.requests config = done ++ e :: rest)
    (hother : other ∈ graph.requests config) (hlt : other.request.phase < e.request.phase) :
    other ∈ done := by
  have hsorted := graph.requests_sorted config
  rw [h] at hsorted hother
  have hbehind := (List.pairwise_cons.mp (List.pairwise_append.mp hsorted).2.1).1
  rcases List.mem_append.mp hother with hdone | hrest
  · exact hdone
  · rcases List.mem_cons.mp hrest with rfl | hrest
    · exact absurd hlt (Nat.lt_irrefl _)
    · exact absurd (hbehind other hrest) (Nat.not_le_of_lt hlt)

/-- What has been sent does not belong to a later phase. -/
theorem StageGraph.phase_le_of_sent (h : graph.requests config = done ++ e :: rest)
    (hother : other ∈ done) : other.request.phase ≤ e.request.phase := by
  have hsorted := graph.requests_sorted config
  rw [h] at hsorted
  exact (List.pairwise_append.mp hsorted).2.2 other hother e List.mem_cons_self

variable {job : StageJob}

theorem StageGraph.accept_sent (h : graph.requests config = done ++ e :: rest)
    (hjob : job ∈ graph.jobs) (hphase : 0 < e.request.phase) :
    job.envelope (.accept job config) ∈ done :=
  sent_of_phase_lt h (mem_requests.mpr ⟨job, hjob, .inl rfl⟩) hphase

theorem StageGraph.setupWriters_sent (h : graph.requests config = done ++ e :: rest)
    (hjob : job ∈ graph.jobs) (hphase : 1 < e.request.phase) :
    job.envelope (.setupWriters job.location.name) ∈ done :=
  sent_of_phase_lt h (mem_requests.mpr ⟨job, hjob, .inr (.inl rfl)⟩) hphase

theorem StageGraph.setupReaders_sent (h : graph.requests config = done ++ e :: rest)
    (hjob : job ∈ graph.jobs) (hphase : 2 < e.request.phase) :
    job.envelope (.setupReaders job.location.name) ∈ done :=
  sent_of_phase_lt h (mem_requests.mpr ⟨job, hjob, .inr (.inr (.inl rfl))⟩) hphase

theorem StageGraph.run_not_sent (h : graph.requests config = done ++ e :: rest)
    (hphase : e.request.phase < 3) : job.envelope (.run job.location.name) ∉ done := fun hmem =>
  Nat.not_le_of_lt hphase (phase_le_of_sent h hmem)

end Requests

/-- A request that was sent. -/
structure Exchange (σ : Type) where
  sent : Envelope
  /-- What the request came upon. -/
  before : σ
  answer : Except Error Unit

/-- Ask after something else has gone on, and keep a record of it. -/
def Coordinator.recorded {σ : Type} (meanwhile : List (Exchange σ) → σ → σ)
    (ask : String → ControlRequest → Action σ Unit) (address : String) (request : ControlRequest) :
    Action (σ × List (Exchange σ)) Unit := fun (s, exchanges) =>
  let before := meanwhile exchanges s
  let (answer, after) := ask address request before
  (answer, after, exchanges ++ [⟨⟨address, request⟩, before, answer⟩])

/-- Requests are sent one after the other, up to the first answer that is not Ok: the exchanges so
far, the state, what is still to be sent, and then how it ends and the further exchanges. -/
inductive Handed {σ : Type} (meanwhile : List (Exchange σ) → σ → σ)
    (ask : String → ControlRequest → Action σ Unit) : List (Exchange σ) → σ → List Envelope →
      Except Error Unit → σ → List (Exchange σ) → Prop
  /-- Everything is sent. -/
  | done {exchanges : List (Exchange σ)} {s : σ} : Handed meanwhile ask exchanges s [] (.ok ()) s []
  /-- The answer is Ok. -/
  | next {exchanges further : List (Exchange σ)} {s t s' : σ} {e : Envelope} {es : List Envelope}
    {result : Except Error Unit}
    (h : ask e.address e.request (meanwhile exchanges s) = (.ok (), t))
    (hr : Handed meanwhile ask (exchanges ++ [⟨e, meanwhile exchanges s, .ok ()⟩]) t es result s'
      further) :
    Handed meanwhile ask exchanges s (e :: es) result s'
      (⟨e, meanwhile exchanges s, .ok ()⟩ :: further)
  /-- The answer is not Ok. -/
  | stop {exchanges : List (Exchange σ)} {s t : σ} {e : Envelope} {es : List Envelope}
    {fault : Error} (h : ask e.address e.request (meanwhile exchanges s) = (.error fault, t)) :
    Handed meanwhile ask exchanges s (e :: es) (.error fault) t
      [⟨e, meanwhile exchanges s, .error fault⟩]

/-- The requests that were sent are the first ones, and only the last answer may be an error, which
is then what the whole ends with. -/
structure Phased {σ : Type} (requests : List Envelope) (result : Except Error Unit)
    (exchanges : List (Exchange σ)) : Prop where
  sent : exchanges.map (·.sent) <+: requests
  answered : ∀ x ∈ exchanges.dropLast, x.answer = .ok ()
  ok_iff : result = .ok () ↔
    exchanges.map (·.sent) = requests ∧ ∀ x ∈ exchanges, x.answer = .ok ()
  refused : ∀ fault, result = .error fault →
    ∃ x, exchanges.getLast? = some x ∧ x.answer = .error fault

namespace Phased

variable {σ : Type} {requests : List Envelope} {result : Except Error Unit}
  {exchanges : List (Exchange σ)}

theorem nil : Phased [] (.ok ()) ([] : List (Exchange σ)) where
  sent := List.prefix_refl []
  answered := by simp
  ok_iff := by simp
  refused := by simp

/-- The first request was answered Ok. -/
theorem cons (h : Phased requests result exchanges) (e : Envelope) (before : σ) :
    Phased (e :: requests) result (⟨e, before, .ok ()⟩ :: exchanges) where
  sent := List.cons_prefix_cons.mpr ⟨rfl, h.sent⟩
  answered := by
    cases exchanges with
    | nil => simp
    | cons x exchanges => exact List.forall_mem_cons.mpr ⟨rfl, h.answered⟩
  ok_iff := by simp [h.ok_iff]
  refused := by
    intro fault hresult
    obtain ⟨x, hlast, hx⟩ := h.refused fault hresult
    exact ⟨x, by simp [List.getLast?_cons, hlast], hx⟩

/-- The first request was answered with an error. -/
theorem stop (e : Envelope) (requests : List Envelope) (before : σ) (fault : Error) :
    Phased (e :: requests) (.error fault) [⟨e, before, .error fault⟩] where
  sent := List.cons_prefix_cons.mpr ⟨rfl, List.nil_prefix⟩
  answered := by simp
  ok_iff := by simp
  refused := by
    rintro _ ⟨⟩
    exact ⟨_, rfl, rfl⟩

end Phased

namespace Handed

variable {σ : Type} {meanwhile : List (Exchange σ) → σ → σ}
  {ask : String → ControlRequest → Action σ Unit} {exchanges further : List (Exchange σ)} {s s' : σ}
  {es : List Envelope} {result : Except Error Unit}

theorem phased (h : Handed meanwhile ask exchanges s es result s' further) :
    Phased es result further := by
  induction h with
  | done => exact .nil
  | next _ _ ih => exact ih.cons _ _
  | stop _ => exact .stop _ _ _ _

/-- If nothing goes on in between, the record is of what happens without one. -/
theorem each_eq (h : Handed (fun _ s => s) ask exchanges s es result s' further) :
    Action.each (fun e => ask e.address e.request) es s = (result, s') := by
  induction h with
  | done => rfl
  | next hok _ ih => exact (Action.bind_ok hok).trans ih
  | stop herror => exact Action.bind_error herror

/-- What is kept, by whatever goes on in between and by each request that is answered Ok, holds of
all that the requests come upon. -/
theorem holds {requests : List Envelope} {I : List Envelope → σ → Prop}
    (hmeanwhile : ∀ done exchanges s, I done s → I done (meanwhile exchanges s))
    (hask : ∀ done e rest s t, requests = done ++ e :: rest → I done s →
      ask e.address e.request s = (.ok (), t) → I (done ++ [e]) t)
    (h : Handed meanwhile ask exchanges s es result s' further) {done : List Envelope}
    (hrequests : requests = done ++ es) (hI : I done s) {earlier later : List (Exchange σ)}
    {x : Exchange σ} (hx : further = earlier ++ x :: later) :
    (∃ rest, requests = done ++ earlier.map (·.sent) ++ x.sent :: rest) ∧
      I (done ++ earlier.map (·.sent)) x.before := by
  induction h generalizing done earlier with
  | done => simp at hx
  | @next exchanges further s t s' e es result hok hr ih =>
    have hbefore := hmeanwhile done exchanges s hI
    cases earlier with
    | nil =>
      obtain ⟨rfl, -⟩ := List.cons.inj hx
      rw [List.map_nil, List.append_nil]
      exact ⟨⟨es, hrequests⟩, hbefore⟩
    | cons first earlier =>
      obtain ⟨rfl, hlater⟩ := List.cons.inj hx
      have hafter := hask done e es _ t hrequests hbefore hok
      have hagain : requests = done ++ [e] ++ es := by rw [hrequests, List.append_assoc]; rfl
      have hrest := ih hagain hafter hlater
      rwa [List.append_assoc] at hrest
  | @stop exchanges s t e es fault _ =>
    cases earlier with
    | nil =>
      obtain ⟨rfl, -⟩ := List.cons.inj hx
      rw [List.map_nil, List.append_nil]
      exact ⟨⟨es, hrequests⟩, hmeanwhile done exchanges s hI⟩
    | cons first earlier => simp at hx

/-- If each request can be done behind those before it, all are. -/
theorem succeeds {requests : List Envelope} {I : List Envelope → σ → Prop}
    (hmeanwhile : ∀ done exchanges s, I done s → I done (meanwhile exchanges s))
    (hask : ∀ done e rest s, requests = done ++ e :: rest → I done s →
      ∃ t, ask e.address e.request s = (.ok (), t) ∧ I (done ++ [e]) t)
    (h : Handed meanwhile ask exchanges s es result s' further) {done : List Envelope}
    (hrequests : requests = done ++ es) (hI : I done s) : result = .ok () := by
  induction h generalizing done with
  | done => rfl
  | @next exchanges further s t s' e es result hok hr ih =>
    obtain ⟨_, hasked, hafter⟩ := hask done e es _ hrequests (hmeanwhile done exchanges s hI)
    cases hok.symm.trans hasked
    exact ih (by rw [hrequests, List.append_assoc]; rfl) hafter
  | @stop exchanges s t e es fault herror =>
    obtain ⟨_, hasked, -⟩ := hask done e es _ hrequests (hmeanwhile done exchanges s hI)
    cases herror.symm.trans hasked

end Handed

namespace Coordinator

variable {σ : Type} {meanwhile : List (Exchange σ) → σ → σ}
  {ask : String → ControlRequest → Action σ Unit}

theorem handOut_eq (ask : String → ControlRequest → Action σ Unit) (graph : StageGraph)
    (config : QuerySettings) :
    handOut ask graph config = Action.each (fun e => ask e.address e.request)
      (graph.requests config) := by
  simp only [StageGraph.requests, Action.each_append, Action.each_map]
  rfl

theorem each_recorded (meanwhile : List (Exchange σ) → σ → σ)
    (ask : String → ControlRequest → Action σ Unit) (es : List Envelope) (s : σ)
    (exchanges : List (Exchange σ)) :
    ∃ result s' further,
      Action.each (fun e => recorded meanwhile ask e.address e.request) es (s, exchanges) =
        (result, s', exchanges ++ further) ∧
      Handed meanwhile ask exchanges s es result s' further := by
  induction es generalizing s exchanges with
  | nil => exact ⟨.ok (), s, [], by simp, .done⟩
  | cons e es ih =>
    rcases h : ask e.address e.request (meanwhile exchanges s) with ⟨fault | ⟨⟩, t⟩
    · have hrecord : recorded meanwhile ask e.address e.request (s, exchanges) =
          (.error fault, t, exchanges ++ [⟨e, meanwhile exchanges s, .error fault⟩]) := by
        simp only [recorded, h]
      exact ⟨.error fault, t, _, Action.bind_error hrecord, .stop h⟩
    · have hrecord : recorded meanwhile ask e.address e.request (s, exchanges) =
          (.ok (), t, exchanges ++ [⟨e, meanwhile exchanges s, .ok ()⟩]) := by
        simp only [recorded, h]
      obtain ⟨result, s', further, heach, hhanded⟩ :=
        ih t (exchanges ++ [⟨e, meanwhile exchanges s, .ok ()⟩])
      refine ⟨result, s', _ :: further, (Action.bind_ok hrecord).trans ?_, .next h hhanded⟩
      rw [heach, List.append_assoc]
      rfl

theorem handed_of_handOut {graph : StageGraph} {config : QuerySettings} {s s' : σ}
    {result : Except Error Unit} {exchanges : List (Exchange σ)}
    (h : handOut (recorded meanwhile ask) graph config (s, []) = (result, s', exchanges)) :
    Handed meanwhile ask [] s (graph.requests config) result s' exchanges := by
  obtain ⟨_, _, _, heach, hhanded⟩ := each_recorded meanwhile ask (graph.requests config) s []
  rw [handOut_eq, heach] at h
  cases h
  exact hhanded

end Coordinator

end StagedQuery
