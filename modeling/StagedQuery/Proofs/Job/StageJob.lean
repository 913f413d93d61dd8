import Mathlib.Data.List.Nodup
import StagedQuery.Job.StageJob
import StagedQuery.Proofs.Action

/-!
# What a checked job is

`StageJob.validate` in one statement, each of its checks in one more, and what the check of the
outputs is for: an output of a job is told from every other one by the name of its executor and its
channel.
-/

namespace StagedQuery

theorem Schema.checkColumns_eq_ok {schema : Schema} {indices : List Nat} :
    schema.checkColumns indices = .ok () ↔ ∀ i ∈ indices, i < schema.fields.length := by
  rw [checkColumns]
  split
  case h_1 i hfind =>
    have hle := List.find?_some hfind
    simp only [decide_eq_true_eq] at hle
    simp only [reduceCtorEq, false_iff, not_forall]
    exact ⟨i, List.mem_of_find?_eq_some hfind, by omega⟩
  case h_2 hfind => simpa using hfind

/-- A job of this kind can have so many inputs, and what the kind says about them adds up. -/
def JobKind.Takes (inputs : Nat) : JobKind → Prop
  | scan .. => inputs = 0
  | join left => 0 < left ∧ left < inputs
  | hashJoin left leftKeys rightKeys => (0 < left ∧ left < inputs) ∧
    leftKeys ≠ [] ∧ leftKeys.length = rightKeys.length
  | _ => inputs ≠ 0

/-- The keys of a job of this kind are value columns of its schema, and a sort has some. -/
def JobKind.Keyed (schema : Schema) : JobKind → Prop
  | orderByLocal keys | orderByGlobal keys =>
    keys ≠ [] ∧ ∀ key ∈ keys, key.column < schema.fields.length
  | shuffle columns => ∀ column ∈ columns, column < schema.fields.length
  | _ => True

namespace StageJob

variable {job : StageJob}

theorem checkOutputs_eq_ok {index : Nat} {outputs : List Location} :
    job.checkOutputs index outputs = .ok () ↔
      (∀ output ∈ outputs, output.name = job.location.name) ∧
        outputs.map (·.channel) = List.range' index outputs.length := by
  induction outputs generalizing index with
  | nil => simp [checkOutputs]
  | cons output outputs ih =>
    rw [checkOutputs]
    split
    case isTrue h =>
      simp only [refuse, reduceCtorEq, List.forall_mem_cons, List.map_cons, List.length_cons,
        List.range'_succ, List.cons.injEq, false_iff]
      tauto
    case isFalse h =>
      rw [not_or, not_not, not_not] at h
      rw [ih]
      simp [h, List.range'_succ]

theorem validate_eq_ok :
    job.validate = .ok () ↔ job.outputs ≠ [] ∧ job.checkOutputs 0 job.outputs = .ok () ∧
      job.checkInputs = .ok () ∧ job.checkKeys = .ok () := by
  unfold validate
  by_cases h : job.outputs = []
  · simp [h, refuse]
  simp only [List.isEmpty_iff, h, if_false, Result.bind_eq_ok]
  constructor
  · rintro ⟨⟨⟩, houtputs, ⟨⟩, hinputs, hkeys⟩
    exact ⟨h, houtputs, hinputs, hkeys⟩
  · rintro ⟨_, houtputs, hinputs, hkeys⟩
    exact ⟨(), houtputs, (), hinputs, hkeys⟩

theorem checkSides_eq_ok {left : Nat} :
    job.checkSides left = .ok () ↔ 0 < left ∧ left < job.inputs.length := by
  rw [checkSides]
  split
  case isTrue h => simp only [refuse, reduceCtorEq, false_iff]; omega
  case isFalse h => simp only [true_iff]; omega

theorem checkInputs_eq_ok : job.checkInputs = .ok () ↔ job.kind.Takes job.inputs.length := by
  unfold checkInputs
  split
  case h_1 hk => simp [JobKind.Takes, hk, refuse]
  case h_2 hk => rw [hk, checkSides_eq_ok, JobKind.Takes]
  case h_3 left leftKeys rightKeys hk =>
    have hsides : (∃ done, job.checkSides left = .ok done) ↔ 0 < left ∧ left < job.inputs.length := by
      rw [← checkSides_eq_ok]
      constructor
      · rintro ⟨⟨⟩, h⟩
        exact h
      · intro h
        exact ⟨(), h⟩
    by_cases hkeys : leftKeys.isEmpty = true ∨ leftKeys.length ≠ rightKeys.length
    · simp only [hk, JobKind.Takes, Result.bind_eq_ok, if_pos hkeys, refuse, reduceCtorEq,
        and_false, exists_false, false_iff]
      rw [List.isEmpty_iff] at hkeys
      tauto
    · simp only [hk, JobKind.Takes, Result.bind_eq_ok, if_neg hkeys, and_true, hsides]
      rw [List.isEmpty_iff, not_or, not_not] at hkeys
      tauto
  case h_4 hscan hjoin hhash =>
    have htakes : job.kind.Takes job.inputs.length ↔ job.inputs.length ≠ 0 := by
      generalize job.kind = kind at hscan hjoin hhash
      cases kind with
      | scan table partitions files => exact absurd rfl (hscan table partitions files)
      | join left => exact absurd rfl (hjoin left)
      | hashJoin left leftKeys rightKeys => exact absurd rfl (hhash left leftKeys rightKeys)
      | _ => rfl
    rw [htakes]
    simp [refuse]

theorem checkKeys_eq_ok : job.checkKeys = .ok () ↔ job.kind.Keyed job.schema := by
  have hsort (keys : List SortKey) : job.checkSortKeys keys = .ok () ↔
      keys ≠ [] ∧ ∀ key ∈ keys, key.column < job.schema.fields.length := by
    rw [checkSortKeys]
    by_cases hkeys : keys = []
    · simp [hkeys, refuse]
    · simp [hkeys, Result.mapError_eq_ok, Schema.checkColumns_eq_ok]
  unfold checkKeys
  split
  case h_1 keys hk => rw [hk, hsort, JobKind.Keyed]
  case h_2 keys hk => rw [hk, hsort, JobKind.Keyed]
  case h_3 columns hk => rw [hk, Result.mapError_eq_ok, Schema.checkColumns_eq_ok, JobKind.Keyed]
  case h_4 hlocal hglobal hshuffle =>
    generalize job.kind = kind at hlocal hglobal hshuffle
    cases kind with
    | orderByLocal keys => exact absurd rfl (hlocal keys)
    | orderByGlobal keys => exact absurd rfl (hglobal keys)
    | shuffle columns => exact absurd rfl (hshuffle columns)
    | _ => simp [JobKind.Keyed]

theorem outputs_ne_nil (hv : job.validate = .ok ()) : job.outputs ≠ [] :=
  (validate_eq_ok.mp hv).1

theorem name_of_mem_outputs (hv : job.validate = .ok ()) {output : Location}
    (hm : output ∈ job.outputs) : output.name = job.location.name :=
  (checkOutputs_eq_ok.mp (validate_eq_ok.mp hv).2.1).1 output hm

theorem channel_lt (hv : job.validate = .ok ()) {output : Location}
    (hm : output ∈ job.outputs) : output.channel < job.outputs.length := by
  have hchannels := (checkOutputs_eq_ok.mp (validate_eq_ok.mp hv).2.1).2
  have hmem : output.channel ∈ List.range' 0 job.outputs.length := by
    rw [← hchannels]
    exact List.mem_map_of_mem hm
  simpa using hmem

theorem nodup_outputs (hv : job.validate = .ok ()) : job.outputs.Nodup := by
  have hchannels := (checkOutputs_eq_ok.mp (validate_eq_ok.mp hv).2.1).2
  refine .of_map (·.channel) ?_
  rw [hchannels]
  exact List.nodup_range'

/-- Executors with names of their own have outputs of their own. -/
theorem nodup_flatMap_outputs {jobs : List StageJob} (hv : ∀ job ∈ jobs, job.validate = .ok ())
    (hn : (jobs.map (·.location.name)).Nodup) : (jobs.flatMap (·.outputs)).Nodup := by
  refine List.nodup_flatMap.mpr ⟨fun job hjob => nodup_outputs (hv job hjob), ?_⟩
  refine (List.pairwise_map.mp hn).imp_of_mem ?_
  intro a b ha hb hne output houtA houtB
  refine hne ?_
  rw [← name_of_mem_outputs (hv a ha) houtA, name_of_mem_outputs (hv b hb) houtB]

end StageJob

end StagedQuery
