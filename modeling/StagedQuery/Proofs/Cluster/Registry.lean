import Mathlib.Data.List.Nodup
import Mathlib.Data.List.Pairwise
import StagedQuery.Cluster.Coordinator

/-!
# Who is registered, and in which order

Workers register and are removed. Who is registered follows from the calls and what came of them: the
workers whose registration no later removal of the name has undone, in the order of these
registrations (`Coordinator.standing`).

A coordinator keeps the registered workers in a map, in no order at all, with the number of the
registration beside each worker. Numbers only grow (that they have 64 bits is left out), so the
workers by ascending numbers are a *roll* in the order of registration, with each name at most once
(`Coordinator.Roll`). A call keeps a roll (`Coordinator.Roll.step`), and laying the map out anew does
not touch it. So what is listed is the roll, whatever the order in which the map is gone through
(`Coordinator.listWorkers_follows`).
-/

namespace StagedQuery.Coordinator

/-! ### Calls -/

/-- A call that changes which workers are registered. -/
inductive RegistryCall
  | register (info : WorkerInfo)
  | unregister (name : String)

/-- What the call does. -/
def RegistryCall.act : RegistryCall → Action Coordinator Unit
  | register info => Coordinator.register info
  | unregister name => Coordinator.unregister name

/-- Calls and what came of them, the first call first. -/
abbrev CallLog := List (RegistryCall × Except Error Unit)

/-- The worker that a call has registered. -/
def entered : RegistryCall × Except Error Unit → List WorkerInfo
  | (.register info, .ok ()) => [info]
  | _ => []

/-- Whether a call has removed the worker of a name. -/
def removes (name : String) : RegistryCall × Except Error Unit → Bool
  | (.unregister n, .ok ()) => name == n
  | _ => false

/-- The workers that were registered and not removed since, in the order in which they were
registered. -/
def standing : CallLog → List WorkerInfo
  | [] => []
  | entry :: later =>
    (entered entry).filter (fun info => !later.any (removes info.name)) ++ standing later

/-- A coordinator after some calls. At any time its map of workers may be laid out anew. -/
inductive Follows : CallLog → Coordinator → Prop
  | new (config : CoordinatorSettings) (network : ConnectionSettings) :
    Follows [] { config, network }
  | call {log : CallLog} {c c' : Coordinator} {call : RegistryCall} {result : Except Error Unit}
    (h : Follows log c) (hcall : call.act c = (result, c')) : Follows (log ++ [(call, result)]) c'
  | relaid {log : CallLog} {c : Coordinator} {workers : List Registration}
    (h : Follows log c) (hperm : workers.Perm c.workers) : Follows log { c with workers }

/-- The last call removes whom it removes, and lets in whom it lets in. -/
theorem standing_concat (log : CallLog) (entry : RegistryCall × Except Error Unit) :
    standing (log ++ [entry]) =
      (standing log).filter (fun info => !removes info.name entry) ++ entered entry := by
  induction log with
  | nil => simp [standing]
  | cons first log ih =>
    rw [List.cons_append, standing, standing, ih, List.filter_append, List.filter_filter,
      List.append_assoc]
    congr 2
    simp [Bool.and_comm]

/-! ### The roll -/

/-- The registered workers by ascending numbers. -/
structure Roll (log : CallLog) (c : Coordinator) (roll : List Registration) : Prop where
  perm : c.workers.Perm roll
  infos : roll.map (·.info) = standing log
  ascending : roll.Pairwise (·.number < ·.number)
  below : ∀ r ∈ roll, r.number < c.nextNumber
  distinct : (roll.map (·.info.name)).Nodup

namespace Roll

variable {log : CallLog} {c c' : Coordinator} {roll : List Registration}

theorem names (h : Roll log c roll) : roll.map (·.info.name) = (standing log).map (·.name) := by
  rw [← h.infos, List.map_map]
  rfl

/-- A worker is found exactly if it is on the roll. -/
theorem isSome_worker? (h : Roll log c roll) (name : String) :
    (c.worker? name).isSome ↔ name ∈ (standing log).map (·.name) := by
  rw [← h.names, worker?, Option.isSome_map, List.find?_isSome]
  simp [h.perm.mem_iff]

/-- What is listed is the roll: the numbers leave no other order. -/
theorem listWorkers (h : Roll log c roll) : c.listWorkers = standing log := by
  have hnumbers : (roll.map (·.number)).Nodup :=
    List.pairwise_map.mpr (h.ascending.imp Nat.ne_of_lt)
  have htrans (a b c : Registration) (hab : decide (a.number ≤ b.number))
      (hbc : decide (b.number ≤ c.number)) : decide (a.number ≤ c.number) :=
    decide_eq_true (Nat.le_trans (of_decide_eq_true hab) (of_decide_eq_true hbc))
  have htotal (a b : Registration) : decide (a.number ≤ b.number) || decide (b.number ≤ a.number) := by
    simpa using Nat.le_total a.number b.number
  have hsorted := List.pairwise_mergeSort htrans htotal c.workers
  have hroll : (c.workers.mergeSort fun a b => a.number ≤ b.number) = roll := by
    have hperm := (List.mergeSort_perm c.workers fun a b => a.number ≤ b.number).trans h.perm
    refine hperm.eq_of_pairwise (fun a b ha hb hab hba => ?_) hsorted
      (h.ascending.imp fun hlt => decide_eq_true (Nat.le_of_lt hlt))
    exact List.inj_on_of_nodup_map hnumbers (hperm.mem_iff.mp ha) hb
      (Nat.le_antisymm (of_decide_eq_true hab) (of_decide_eq_true hba))
  rw [Coordinator.listWorkers, hroll, h.infos]

theorem new (config : CoordinatorSettings) (network : ConnectionSettings) :
    Roll [] { config, network } [] where
  perm := .nil
  infos := rfl
  ascending := .nil
  below := nofun
  distinct := .nil

/-- A call that fails leaves the roll as it is. -/
theorem refused (h : Roll log c roll) (call : RegistryCall) (e : Error) :
    Roll (log ++ [(call, .error e)]) c roll where
  perm := h.perm
  infos := by
    have hnobody (name : String) : removes name (call, .error e) = false := by cases call <;> rfl
    have hnone : entered (call, .error e) = [] := by cases call <;> rfl
    rw [h.infos, standing_concat, hnone]
    simp [hnobody]
  ascending := h.ascending
  below := h.below
  distinct := h.distinct

theorem registered (h : Roll log c roll) {info : WorkerInfo}
    (hnew : info.name ∉ (standing log).map (·.name)) :
    Roll (log ++ [(.register info, .ok ())])
      { c with
        workers := { info, number := c.nextNumber } :: c.workers
        nextNumber := c.nextNumber + 1 }
      (roll ++ [{ info, number := c.nextNumber }]) where
  perm := (h.perm.cons _).trans (List.perm_append_singleton _ _).symm
  infos := by
    rw [standing_concat, List.map_append, h.infos]
    simp [removes, entered]
  ascending := List.pairwise_append.mpr ⟨h.ascending, List.pairwise_singleton _ _, by
    simpa using h.below⟩
  below := by
    intro r hr
    obtain hr | hr := List.mem_append.mp hr
    · exact Nat.lt_succ_of_lt (h.below r hr)
    · rw [List.mem_singleton.mp hr]
      exact Nat.lt_succ_self _
  distinct := by
    rw [← h.names] at hnew
    rw [List.map_append, List.map_singleton, ← List.concat_eq_append]
    exact (List.nodup_concat _ _).mpr ⟨hnew, h.distinct⟩

theorem unregistered (h : Roll log c roll) (name : String) :
    Roll (log ++ [(.unregister name, .ok ())])
      { c with workers := c.workers.filter (·.info.name != name) }
      (roll.filter (·.info.name != name)) where
  perm := h.perm.filter _
  infos := by
    have hnobody : entered (.unregister name, .ok ()) = [] := rfl
    rw [standing_concat, ← h.infos, List.filter_map, hnobody, List.append_nil]
    rfl
  ascending := h.ascending.filter _
  below r hr := h.below r (List.mem_filter.mp hr).1
  distinct := h.distinct.sublist (List.filter_sublist.map _)

theorem register_eq (h : Roll log c roll) (info : WorkerInfo) :
    Coordinator.register info c =
      if info.name ∈ (standing log).map (·.name) then (.error (.workerRegistered info.name), c)
      else
        (.ok (), { c with
          workers := { info, number := c.nextNumber } :: c.workers
          nextNumber := c.nextNumber + 1 }) := by
  rw [Coordinator.register]
  exact if_congr (h.isSome_worker? info.name) rfl rfl

theorem unregister_eq (h : Roll log c roll) (name : String) :
    Coordinator.unregister name c =
      if name ∈ (standing log).map (·.name) then
        (.ok (), { c with workers := c.workers.filter (·.info.name != name) })
      else (.error (.workerNotFound name), c) := by
  rw [Coordinator.unregister]
  by_cases hname : name ∈ (standing log).map (·.name)
  · have hfound := (h.isSome_worker? name).mpr hname
    rw [if_pos hname, if_neg (by rw [Option.isSome_iff_ne_none] at hfound; simpa using hfound)]
  · have hmissing := mt (h.isSome_worker? name).mp hname
    rw [if_neg hname, if_pos (by simpa using hmissing)]

/-- A call keeps a roll. -/
theorem step (h : Roll log c roll) {call : RegistryCall} {result : Except Error Unit}
    (hcall : call.act c = (result, c')) : ∃ roll', Roll (log ++ [(call, result)]) c' roll' := by
  cases call with
  | register info =>
    rw [RegistryCall.act, h.register_eq] at hcall
    split at hcall
    case isTrue => cases hcall; exact ⟨roll, h.refused _ _⟩
    case isFalse hnew => cases hcall; exact ⟨_, h.registered hnew⟩
  | unregister name =>
    rw [RegistryCall.act, h.unregister_eq] at hcall
    split at hcall
    case isTrue => cases hcall; exact ⟨_, h.unregistered name⟩
    case isFalse => cases hcall; exact ⟨roll, h.refused _ _⟩

end Roll

theorem Follows.exists_roll {log : CallLog} {c : Coordinator} (h : Follows log c) :
    ∃ roll, Roll log c roll := by
  induction h with
  | new config network => exact ⟨[], .new config network⟩
  | call _ hcall ih =>
    obtain ⟨roll, hroll⟩ := ih
    exact hroll.step hcall
  | relaid _ hperm ih =>
    obtain ⟨roll, hroll⟩ := ih
    exact ⟨roll, { hroll with perm := hperm.trans hroll.perm }⟩

/-- The listed workers are those that were registered and not removed since, in the order of these
registrations and each name once, however the map was laid out at any time. Registering fails
exactly for the names of these workers and removing for all others, and a call that fails leaves the
coordinator as it is. -/
theorem listWorkers_follows {log : CallLog} {c : Coordinator} (h : Follows log c) :
    c.listWorkers = standing log ∧
    ((standing log).map (·.name)).Nodup ∧
    (∀ info, (register info c).1 =
      if info.name ∈ (standing log).map (·.name) then .error (.workerRegistered info.name)
      else .ok ()) ∧
    (∀ name, (unregister name c).1 =
      if name ∈ (standing log).map (·.name) then .ok () else .error (.workerNotFound name)) ∧
    ∀ (call : RegistryCall) (e : Error), (call.act c).1 = .error e → (call.act c).2 = c := by
  obtain ⟨roll, hroll⟩ := h.exists_roll
  refine ⟨hroll.listWorkers, hroll.names ▸ hroll.distinct, fun info => ?_, fun name => ?_, ?_⟩
  · rw [hroll.register_eq]
    split <;> rfl
  · rw [hroll.unregister_eq]
    split <;> rfl
  · rintro (info | name) e he
    · rw [RegistryCall.act, hroll.register_eq] at he ⊢
      split at he
      case isTrue hname => rw [if_pos hname]
      case isFalse => cases he
    · rw [RegistryCall.act, hroll.unregister_eq] at he ⊢
      split at he
      case isTrue => cases he
      case isFalse hname => rw [if_neg hname]

/-- A worker registers again from another host, behind one that came after it. The second registration
of a name and the removal of an unknown one change nothing, and at the end the map is gone through
the other way round. -/
theorem listWorkers_follows_again :
    let worker (name host : String) : WorkerInfo := { name, host, controlPort := 1, dataPort := 2 }
    let other : Registration := { info := worker "w1" "left", number := 1 }
    let again : Registration := { info := worker "w0" "right", number := 2 }
    let calls : CallLog :=
      [(.register (worker "w0" "left"), .ok ()), (.register (worker "w1" "left"), .ok ()),
        (.register (worker "w0" "right"), .error (.workerRegistered "w0")),
        (.unregister "w2", .error (.workerNotFound "w2")), (.unregister "w0", .ok ()),
        (.register (worker "w0" "right"), .ok ())]
    Follows calls { workers := [other, again], nextNumber := 3 } ∧
      Coordinator.listWorkers { workers := [other, again], nextNumber := 3 } =
        [other.info, again.info] := by
  intro worker other again calls
  have hcalls : Follows calls { workers := [again, other], nextNumber := 3 } :=
    (((((Follows.new {} {}).call rfl).call rfl).call rfl).call rfl).call rfl |>.call rfl
  have hfollows : Follows calls { workers := [other, again], nextNumber := 3 } :=
    hcalls.relaid (.swap _ _ _)
  exact ⟨hfollows, (listWorkers_follows hfollows).1⟩

end StagedQuery.Coordinator
