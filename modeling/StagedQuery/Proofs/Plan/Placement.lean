import Mathlib.Algebra.GroupWithZero.Nat
import Mathlib.Data.List.Rotate
import StagedQuery.Proofs.Plan.Lowering

/-!
# Jobs are placed in turn

The queue of a scheduler is never inspected but at its head, and yet the workers take turns as if
somebody counted. The queue is why: when `k` jobs have been placed on `w` workers, it holds the
turns `k`, `k + 1`, and so on up to `k + w - 1`, where turn `t` is the load of worker `t` modulo `w`
after `t / w` whole rounds (`Scheduler.InTurn`). The worker whose turn it was goes to the end, for
it waits for turn `k + w`. Lowering a plan places one job after the other and does nothing else with
the scheduler, so the jobs of a graph stand in the same order.
-/

namespace StagedQuery

open scoped List

/-! ### Queues -/

namespace Load

theorem before_iff {a b : Load} : a.before b ↔ a.1 < b.1 ∨ a.1 = b.1 ∧ a.2 ≤ b.2 := by
  simp [before]

/-- A load that belongs behind every load of a queue goes to its end. -/
theorem enqueue_last {load : Load} {queue : List Load} (h : ∀ l ∈ queue, ¬ load.before l) :
    load.enqueue queue = queue ++ [load] := by
  induction queue with
  | nil => rfl
  | cons l queue ih =>
    obtain ⟨hfirst, hrest⟩ := List.forall_mem_cons.mp h
    rw [enqueue, if_neg hfirst, ih hrest, List.cons_append]

/-- The load that is first in the queue when turn `t` comes, among `w` workers that take turns: the
whole rounds before it, and whose turn it is. -/
def turn (w t : Nat) : Load := (t / w, t % w)

theorem turn_before_turn {w s t : Nat} : (turn w s).before (turn w t) ↔ s ≤ t := by
  have hs := Nat.div_add_mod s w
  have ht := Nat.div_add_mod t w
  rw [before_iff, turn, turn]
  dsimp only
  constructor
  · rintro (h | ⟨h, hmod⟩)
    · exact Nat.le_of_not_lt fun hlt =>
        absurd (Nat.div_le_div_right (c := w) (Nat.le_of_lt hlt)) (Nat.not_le_of_lt h)
    · rw [h] at hs
      omega
  · intro h
    rcases Nat.lt_or_eq_of_le (Nat.div_le_div_right (c := w) h) with hlt | heq
    · exact .inl hlt
    · rw [heq] at hs
      exact .inr ⟨heq, by omega⟩

/-- The next turn of the same worker. -/
theorem turn_add {w t : Nat} (hw : 0 < w) : turn w (t + w) = (t / w + 1, t % w) := by
  rw [turn, Nat.add_div_right _ hw, Nat.add_mod_right]

end Load

/-! ### Taking turns -/

/-- The jobs of worker `i` when `k` jobs were placed on `w` workers in turn: one for each whole
round, and one more if its turn in this round is over. -/
def share (w k i : Nat) : Nat := k / w + if i < k % w then 1 else 0

theorem share_succ {w k i : Nat} (hi : i < w) :
    share w (k + 1) i = if i = k % w then k / w + 1 else share w k i := by
  have hw := Nat.zero_lt_of_lt hi
  have hmod := Nat.mod_lt k hw
  have hk := Nat.div_add_mod k w
  rw [share, share]
  rcases Nat.lt_or_eq_of_le (Nat.succ_le_of_lt hmod) with hnext | hlast
  · -- the round goes on
    obtain ⟨hdiv, hrest⟩ := (Nat.div_mod_unique hw).mpr
      ⟨(by omega : k % w + 1 + w * (k / w) = k + 1), hnext⟩
    rw [hdiv, hrest]
    split_ifs <;> omega
  · -- a round is over
    have hround : 0 + w * (k / w + 1) = k + 1 := by
      rw [Nat.mul_add_one]
      omega
    obtain ⟨hdiv, hrest⟩ := (Nat.div_mod_unique hw).mpr ⟨hround, hw⟩
    rw [hdiv, hrest]
    split_ifs <;> omega

/-- Until its next turn, a worker has the jobs of the turns that it has had. -/
theorem div_add_eq_share {w k j : Nat} (hj : j < w) :
    (k + j) / w = share w k ((k + j) % w) := by
  have hw := Nat.zero_lt_of_lt hj
  have hmod := Nat.mod_lt k hw
  have hk := Nat.div_add_mod k w
  rw [share]
  by_cases hround : k % w + j < w
  · -- the turn comes in the round of the present one
    obtain ⟨hdiv, hrest⟩ := (Nat.div_mod_unique hw).mpr
      ⟨(by omega : k % w + j + w * (k / w) = k + j), hround⟩
    rw [hdiv, hrest, if_neg (by omega), Nat.add_zero]
  · -- it comes in the next one
    have hnext : k % w + j - w + w * (k / w + 1) = k + j := by
      rw [Nat.mul_add_one]
      omega
    obtain ⟨hdiv, hrest⟩ := (Nat.div_mod_unique hw).mpr ⟨hnext, by omega⟩
    rw [hdiv, hrest, if_pos (by omega)]

/-- No job is counted twice, and none is left out. -/
theorem sum_share (w k : Nat) (hw : 0 < w) : ((List.range w).map (share w k)).sum = k := by
  have hsum (n : Nat) : ((List.range n).map (share w k)).sum = n * (k / w) + min n (k % w) := by
    induction n with
    | zero => simp
    | succ n ih =>
      rw [List.range_succ, List.map_append, List.sum_append, ih, Nat.succ_mul, List.map_singleton,
        List.sum_singleton, share]
      split <;> omega
  rw [hsum, Nat.min_eq_right (Nat.le_of_lt (Nat.mod_lt k hw)), Nat.div_add_mod]

theorem share_le {w k i j : Nat} : share w k i ≤ share w k j + 1 := by
  rw [share, share]
  split <;> omega

namespace Scheduler

/-- The scheduler after so many calls, whether they place a job or fail. -/
def after (s : Scheduler) : Nat → Scheduler
  | 0 => s
  | k + 1 => (allocate (s.after k)).2

/-- The location is that of job `k`: on the worker whose turn it is, under the name that was made up
for it, at the first channel. -/
def Seats (workers : List WorkerInfo) (names : NameSupply) (k : Nat) (location : Location) : Prop :=
  ∃ worker, workers[k % workers.length]? = some worker ∧ location =
    { name := s!"{worker.name}-{names.suffix k}", host := worker.host
      controlPort := worker.controlPort, dataPort := worker.dataPort, channel := 0 }

/-- `k` jobs are shared out evenly among the workers. -/
structure Balanced (workers : List WorkerInfo) (k : Nat) (s : Scheduler) : Prop where
  /-- Each worker is in the queue once, with its number of jobs and its index. -/
  queue_perm : s.queue ~ s.assigned.zipIdx
  /-- The least load comes first. -/
  queue_sorted : s.queue.Pairwise fun a b => a.before b
  length_eq : s.assigned.length = workers.length
  sum_eq : s.assigned.sum = k
  even : ∀ m ∈ s.assigned, ∀ n ∈ s.assigned, m ≤ n + 1

/-- `k` jobs were placed, on one worker after the other. -/
structure InTurn (workers : List WorkerInfo) (names : NameSupply) (k : Nat) (s : Scheduler) :
    Prop where
  workers_eq : s.workers = workers
  names_eq : s.names = names
  placed_eq : s.placed = k
  /-- The workers wait for the turns that come next. -/
  queue_eq : s.queue = (List.range workers.length).map fun j => Load.turn workers.length (k + j)
  assigned_eq : s.assigned = (List.range workers.length).map (share workers.length k)

variable {workers : List WorkerInfo} {names : NameSupply} {k : Nat} {s : Scheduler}

theorem create_inTurn (workers : List WorkerInfo) (names : NameSupply) :
    (create workers names).InTurn workers names 0 where
  workers_eq := rfl
  names_eq := rfl
  placed_eq := rfl
  queue_eq := by
    refine List.map_congr_left fun j hj => ?_
    have hlt := List.mem_range.mp hj
    rw [Load.turn, Nat.zero_add, Nat.div_eq_of_lt hlt, Nat.mod_eq_of_lt hlt]
  assigned_eq := by
    refine List.ext_getElem (by simp [create]) fun i hi _ => ?_
    simp [create, share]

/-- The turns that come next: the first of them, and those behind it. -/
theorem turns_eq_cons {w : Nat} (hw : 0 < w) (k : Nat) :
    ((List.range w).map fun j => Load.turn w (k + j)) =
      Load.turn w k :: (List.range (w - 1)).map fun j => Load.turn w (k + 1 + j) := by
  obtain ⟨n, rfl⟩ := Nat.exists_eq_add_of_lt hw
  simp [List.range_succ_eq_map, Function.comp_def, Nat.add_assoc, Nat.add_comm 1]

/-- One turn later, the worker waits for its next turn behind all others. -/
theorem turns_succ {w : Nat} (hw : 0 < w) (k : Nat) :
    ((List.range (w - 1)).map fun j => Load.turn w (k + 1 + j)) ++ [Load.turn w (k + w)] =
      (List.range w).map fun j => Load.turn w (k + 1 + j) := by
  obtain ⟨n, rfl⟩ := Nat.exists_eq_add_of_lt hw
  simp [List.range_succ, Nat.add_assoc, Nat.add_comm 1]

theorem set_share (w k : Nat) :
    ((List.range w).map (share w k)).set (k % w) (k / w + 1) =
      (List.range w).map (share w (k + 1)) := by
  refine List.ext_getElem (by simp) fun i hi _ => ?_
  have hlt : i < w := by simpa using hi
  rw [List.getElem_set, List.getElem_map, List.getElem_map, List.getElem_range, share_succ hlt]
  simp only [eq_comm]

/-- The next job goes to the worker whose turn it is. -/
theorem InTurn.allocate (h : s.InTurn workers names k) (hw : 0 < workers.length) :
    ∃ location s', Scheduler.allocate s = (.ok location, s') ∧ Seats workers names k location ∧
      s'.InTurn workers names (k + 1) := by
  have hlt : k % workers.length < workers.length := Nat.mod_lt k hw
  have hworker := List.getElem?_eq_getElem hlt
  have hqueue := h.queue_eq.trans (turns_eq_cons hw k)
  have hlast : ∀ l ∈ (List.range (workers.length - 1)).map
        fun j => Load.turn workers.length (k + 1 + j),
      ¬ (Load.turn workers.length (k + workers.length)).before l := by
    intro l hl
    obtain ⟨j, hj, rfl⟩ := List.mem_map.mp hl
    have hj := List.mem_range.mp hj
    rw [Load.turn_before_turn]
    omega
  have hnext := (Load.enqueue_last hlast).trans (turns_succ hw k)
  rw [Load.turn_add hw] at hnext
  rw [Scheduler.allocate]
  simp only [hqueue, Load.turn, h.workers_eq, hworker, h.names_eq, h.placed_eq]
  refine ⟨_, _, rfl, ⟨_, hworker, rfl⟩, rfl, rfl, rfl, hnext, ?_⟩
  rw [h.assigned_eq, set_share]

theorem after_inTurn (hw : 0 < workers.length) (k : Nat) :
    ((create workers names).after k).InTurn workers names k := by
  induction k with
  | zero => exact create_inTurn workers names
  | succ k ih =>
    obtain ⟨location, s', hallocate, -, hnext⟩ := ih.allocate hw
    rw [after, hallocate]
    exact hnext

theorem InTurn.queue_perm (h : s.InTurn workers names k) : s.queue ~ s.assigned.zipIdx := by
  have hrotate : ((List.range workers.length).map fun j => (k + j) % workers.length) =
      (List.range workers.length).rotate k := by
    refine List.ext_getElem (by simp) fun j hj _ => ?_
    simp [List.getElem_rotate, Nat.add_comm]
  have hturn (j : Nat) (hj : j < workers.length) : Load.turn workers.length (k + j) =
      (share workers.length k ((k + j) % workers.length), (k + j) % workers.length) := by
    rw [Load.turn, div_add_eq_share hj]
  have hzip : s.assigned.zipIdx =
      (List.range workers.length).map fun i => (share workers.length k i, i) := by
    rw [h.assigned_eq]
    refine List.ext_getElem (by simp) fun j hj _ => ?_
    simp
  calc s.queue
    _ = ((List.range workers.length).map fun j => (k + j) % workers.length).map
          fun i => (share workers.length k i, i) := by
      rw [h.queue_eq, List.map_map]
      exact List.map_congr_left fun j hj => hturn j (List.mem_range.mp hj)
    _ ~ s.assigned.zipIdx := by
      rw [hrotate, hzip]
      exact (List.rotate_perm _ k).map _

theorem InTurn.queue_sorted (h : s.InTurn workers names k) :
    s.queue.Pairwise fun a b => a.before b := by
  rw [h.queue_eq, List.pairwise_map]
  refine List.pairwise_lt_range.imp fun hlt => ?_
  exact Load.turn_before_turn.mpr (Nat.add_le_add_left (Nat.le_of_lt hlt) k)

theorem InTurn.balanced (h : s.InTurn workers names k) (hw : 0 < workers.length) :
    s.Balanced workers k where
  queue_perm := h.queue_perm
  queue_sorted := h.queue_sorted
  length_eq := by rw [h.assigned_eq, List.length_map, List.length_range]
  sum_eq := by rw [h.assigned_eq, sum_share workers.length k hw]
  even := by
    rw [h.assigned_eq]
    intro m hm n hn
    obtain ⟨i, -, rfl⟩ := List.mem_map.mp hm
    obtain ⟨j, -, rfl⟩ := List.mem_map.mp hn
    exact share_le

/-- With nobody to place jobs on, nothing is placed. -/
theorem after_create_nil (names : NameSupply) (k : Nat) :
    (create [] names).after k = create [] names := by
  induction k with
  | zero => rfl
  | succ k ih => rw [after, ih]; rfl

end Scheduler

/-! ### Lowering -/

namespace Builder

variable {α β : Type} {P : Builder → Prop}

/-- When the action succeeds, what was so before is so after it. -/
abbrev Keeps (P : Builder → Prop) (x : Action Builder α) : Prop :=
  Action.Meets P (fun _ => True) (fun _ => True) x

theorem Keeps.bind {x : Action Builder α} {f : α → Action Builder β} (hx : Keeps P x)
    (hf : ∀ a, Keeps P (f a)) : Keeps P (x >>= f) :=
  Action.Meets.bind hx fun a _ => hf a

theorem keeps_pure (a : α) : Keeps P (pure a) := Action.meets_pure trivial

theorem keeps_ofExcept (x : Except Error α) : Keeps P (.ofExcept x) :=
  (Action.meets_ofExcept fun _ _ => trivial).mono fun _ _ => trivial

theorem keeps_collect {f : α → Action Builder (List β)} (hf : ∀ a, Keeps P (f a)) (as : List α) :
    Keeps P (Action.collect f as) := by
  induction as with
  | nil => exact keeps_pure []
  | cons a as ih => exact (hf a).bind fun bs => ih.bind fun rest => keeps_pure (bs ++ rest)

end Builder

/-- Placing a job keeps the property; so does everything that is made of placing jobs. -/
def Builder.KeptByPlacing (P : Builder → Prop) : Prop :=
  ∀ kind inputs n schema payload, Keeps P (place kind inputs n schema payload)

namespace PlanNode

open Builder

section

variable {P : Builder → Prop} (hP : KeptByPlacing P)
include hP

theorem keeps_placeOne (node : PlanNode) (kind : JobKind) (inputs : List Location) :
    Keeps P (placeOne node kind inputs) :=
  (hP ..).bind fun job => keeps_pure job.outputs

theorem keeps_placeEach (node : PlanNode) (kind : JobKind) (streams : List Location) :
    Keeps P (placeEach node kind streams) :=
  keeps_collect (fun stream => keeps_placeOne hP node kind [stream]) streams

theorem keeps_gather (side : Side) : Keeps P (gather side) := by
  rw [gather]
  split
  · exact (hP ..).bind fun job => keeps_pure job.outputs
  · exact keeps_pure side.streams

theorem keeps_spread (p : Nat) (side : Side) : Keeps P (spread p side) := by
  rw [spread]
  split
  · exact (hP ..).bind fun job => keeps_pure job.outputs
  · exact keeps_pure side.streams

theorem keeps_shuffle (p : Nat) (side : Side) (keys : List Nat) : Keeps P (shuffle p side keys) :=
  keeps_collect (fun _ => (hP ..).bind fun job => keeps_pure [job]) side.streams

theorem keeps_placeScans (node : PlanNode) (p : Nat) (table : TableScan) :
    Keeps P (node.placeScans p table) :=
  (keeps_ofExcept (table.slices p)).bind fun kinds =>
    keeps_collect (fun kind => keeps_placeOne hP node kind []) kinds

theorem keeps_placeJoin (node : PlanNode) (p : Nat) (left right : Side) :
    Keeps P (node.placeJoin p left right) := by
  refine (keeps_spread hP p left).bind fun streams => (hP ..).bind fun copies => ?_
  exact keeps_collect (fun pair : Location × Location =>
    keeps_placeOne hP node (.join 1) [pair.1, pair.2]) _

theorem keeps_placeHashJoin (node : PlanNode) (p : Nat) (leftKeys rightKeys : List Nat)
    (left right : Side) : Keeps P (node.placeHashJoin p leftKeys rightKeys left right) :=
  (keeps_shuffle hP p left leftKeys).bind fun _ => (keeps_shuffle hP p right rightKeys).bind
    fun _ => keeps_collect (fun _ => keeps_placeOne hP node _ _) (List.range p)

theorem keeps_placeUnion (node : PlanNode) (left right : Side) :
    Keeps P (node.placeUnion left right) := by
  rw [placeUnion]
  split
  · exact keeps_collect (fun pair : Location × Location =>
      keeps_placeOne hP node .union [pair.1, pair.2]) _
  · exact keeps_placeOne hP node .union _

theorem keeps_placeJobs (node : PlanNode) (p : Nat) (sides : List Side) :
    Keeps P (node.placeJobs p sides) := by
  unfold placeJobs
  split
  case h_1 table _ => exact keeps_placeScans hP node p table
  case h_2 | h_3 | h_4 | h_5 | h_6 => exact keeps_placeEach hP node _ _
  case h_7 side _ => exact (keeps_gather hP side).bind fun _ => keeps_placeOne hP node _ _
  case h_8 | h_9 | h_10 | h_11 => exact keeps_placeOne hP node _ _
  case h_12 | h_13 =>
    exact (keeps_placeEach hP node _ _).bind fun _ => keeps_placeOne hP node _ _
  case h_14 left right _ => exact keeps_placeJoin hP node p left right
  case h_15 leftKeys rightKeys left right _ =>
    exact keeps_placeHashJoin hP node p leftKeys rightKeys left right
  case h_16 left right _ => exact keeps_placeUnion hP node left right
  case h_17 => exact Action.meets_fail trivial

end

mutual

theorem keeps_lower {P : Builder → Prop} (hP : KeptByPlacing P) (p : Nat) :
    (node : PlanNode) → Keeps P (lower p node)
  | ⟨kind, inputs, schema, payload⟩ => by
    rw [lower]
    split
    · exact Action.meets_fail trivial
    · exact (keeps_lowerInputs hP p inputs).bind (keeps_placeJobs hP _ p)

theorem keeps_lowerInputs {P : Builder → Prop} (hP : KeptByPlacing P) (p : Nat) :
    (nodes : List PlanNode) → Keeps P (lowerInputs p nodes)
  | [] => by
    rw [lowerInputs]
    exact keeps_pure []
  | node :: nodes => by
    rw [lowerInputs]
    exact (keeps_lower hP p node).bind fun streams =>
      (keeps_lowerInputs hP p nodes).bind fun sides => keeps_pure (⟨node.schema, streams⟩ :: sides)

end

theorem keeps_lowerToSink {P : Builder → Prop} (hP : KeptByPlacing P) (plan : PlanNode) (p : Nat) :
    Keeps P (plan.lowerToSink p) := by
  have hget : Keeps P (.get : Action Builder Builder) := Action.meets_get.mono fun _ _ => trivial
  refine (keeps_lower hP p plan).bind fun streams => hget.bind fun builder => ?_
  exact (hP ..).bind fun _ => keeps_pure builder.jobs.length

end PlanNode

namespace Builder

variable {workers : List WorkerInfo} {names : NameSupply}

/-- All jobs so far were placed in turn, and each of them still has its place. -/
structure InTurn (workers : List WorkerInfo) (names : NameSupply) (b : Builder) : Prop where
  scheduler : b.scheduler.InTurn workers names b.jobs.length
  seats : ∀ i job, b.jobs[i]? = some job → Scheduler.Seats workers names i job.location

theorem create_inTurn (workers : List WorkerInfo) (names : NameSupply) :
    InTurn workers names { scheduler := .create workers names } where
  scheduler := Scheduler.create_inTurn workers names
  seats := by
    intro i job h
    cases h

theorem inTurn_keptByPlacing (hw : 0 < workers.length) :
    KeptByPlacing (InTurn workers names) := fun _ _ _ _ _ => {
  ok := by
    intro b job b' hb h
    obtain ⟨location, s, hallocate, hseat, hnext⟩ := hb.scheduler.allocate hw
    rw [place, Action.bind_ok (Action.get_apply b),
      Action.bind_ok (Action.zoom_apply hallocate)] at h
    obtain ⟨_, d, hcheck, hadd⟩ := Action.bind_eq_ok.mp h
    obtain ⟨-, rfl⟩ := Action.ofExcept_eq_ok.mp hcheck
    cases hadd
    refine ⟨trivial, ?_, ?_⟩
    · rwa [List.length_append]
    · intro i job hjob
      rcases Nat.lt_or_ge i b.jobs.length with hi | hi
      · exact hb.seats i job (by rwa [List.getElem?_append_left hi] at hjob)
      · rw [List.getElem?_append_right hi, List.getElem?_singleton] at hjob
        split at hjob
        · cases hjob
          rwa [show i = b.jobs.length by omega]
        · cases hjob
  error := fun _ _ _ _ _ => trivial }

end Builder

/-- The jobs of a graph were placed in turn. -/
theorem StageGraph.ofPlan_inTurn {plan : PlanNode} {p : Nat} {workers : List WorkerInfo}
    {names : NameSupply} {scheduler : Scheduler} {graph : StageGraph}
    (h : StageGraph.ofPlan plan p (.create workers names) = (.ok graph, scheduler)) :
    Builder.InTurn workers names { scheduler, jobs := graph.jobs } := by
  obtain ⟨-, hworkers, hrun⟩ := ofPlan_eq_ok h
  have hplace : Builder.KeptByPlacing (Builder.InTurn workers names) :=
    Builder.inTurn_keptByPlacing (List.length_pos_iff.mpr hworkers)
  have hkept := PlanNode.keeps_lowerToSink hplace plan p
  exact (hkept.ok _ _ _ (Builder.create_inTurn workers names) hrun).2

/-- Jobs are placed on the workers in turn: the `k`-th job, counted from zero, goes to worker `k`
modulo the number of workers, at its host and ports and at the first channel, and the workers are
balanced all the time. So job `i` of a graph is on worker `i` modulo the number of workers. Without
workers no job is ever placed. -/
theorem Scheduler.places_in_turn (workers : List WorkerInfo) (names : NameSupply) :
    (workers ≠ [] → ∀ k, ((create workers names).after k).Balanced workers k ∧
      ∃ location, (allocate ((create workers names).after k)).1 = .ok location ∧
        Seats workers names k location) ∧
    (∀ plan p graph scheduler,
      StageGraph.ofPlan plan p (create workers names) = (.ok graph, scheduler) →
      ∀ i job, graph.jobs[i]? = some job → Seats workers names i job.location) ∧
    (workers = [] → ∀ k, (allocate ((create workers names).after k)).1 = .error .noWorkers) := by
  refine ⟨?_, fun plan p graph scheduler h => (StageGraph.ofPlan_inTurn h).seats, ?_⟩
  · intro hworkers k
    have hw := List.length_pos_iff.mpr hworkers
    have hturn : ((create workers names).after k).InTurn workers names k := after_inTurn hw k
    obtain ⟨location, s', hallocate, hseat, -⟩ := hturn.allocate hw
    exact ⟨hturn.balanced hw, location, by rw [hallocate], hseat⟩
  · rintro rfl k
    rw [after_create_nil]
    rfl

/-- Two workers of one name, three calls, and a graph of three jobs. -/
theorem Scheduler.places_in_turn_same_name :
    let workers : List WorkerInfo :=
      [⟨"w", "localhost", 7000, 7001⟩, ⟨"w", "localhost", 8000, 8001⟩]
    let names : NameSupply := { suffix := toString, task := fun _ => default }
    let plan : PlanNode := ⟨.scan { table := "t", files := ["0"] }, [], { fields := [] }, []⟩
    workers ≠ [] ∧ ((create workers names).after 3).Balanced workers 3 ∧
      ∃ graph scheduler, StageGraph.ofPlan plan 2 (create workers names) = (.ok graph, scheduler) ∧
        graph.jobs.length = 3 ∧
        ∀ i job, graph.jobs[i]? = some job → Seats workers names i job.location := by
  intro workers names plan
  obtain ⟨hbalanced, hseats, -⟩ := places_in_turn workers names
  have hworkers : workers ≠ [] := by decide
  have hgraph : (StageGraph.ofPlan plan 2 (create workers names)).1.toOption.any
      (fun graph => graph.jobs.length = 3) = true := by decide +kernel
  rcases h : StageGraph.ofPlan plan 2 (create workers names) with ⟨_ | graph, scheduler⟩
  · rw [h] at hgraph
    cases hgraph
  · rw [h] at hgraph
    exact ⟨hworkers, (hbalanced hworkers 3).1, graph, scheduler, rfl, of_decide_eq_true hgraph,
      hseats plan 2 graph scheduler h⟩

end StagedQuery
