import StagedQuery.Plan.Filter
import StagedQuery.Proofs.Action

/-!
# What a filter decides

A predicate passes, drops the partition or is an error (`Predicate.Decides`). The first predicate
that does not pass decides for the whole filter. So a partition is kept exactly if every predicate
passes, in whatever order they stand; but which one comes first matters as soon as one of them drops
the partition and another is an error (`PartitionFilter.keeps_reordered`). Then the error shows in
one order and not in another (`PartitionFilter.keeps_hides_error`).
-/

namespace StagedQuery

namespace Predicate

/-- The value that a predicate is about: that of the first column of its name. -/
def actual? (p : Predicate) (columns : List String) (values : List Value) : Option Value :=
  (columns.zip values).lookup p.column

/-- What a predicate says of a partition. -/
inductive Decides (p : Predicate) (columns : List String) (values : List Value) :
    Except Error Bool → Prop
  /-- There is no such column. -/
  | unknown (h : p.column ∉ columns) :
    Decides p columns values (.error (.planning (.unknownPartitionColumn p.column)))
  /-- A side is absent. -/
  | absent {actual : Value} (hactual : p.actual? columns values = some actual)
    (h : actual = .null ∨ p.value = .null) : Decides p columns values (.ok false)
  /-- Both sides are present, but not of one type. -/
  | mismatch {actual : Value} (hactual : p.actual? columns values = some actual)
    (hleft : actual ≠ .null) (hright : p.value ≠ .null)
    (h : actual.dataType ≠ p.value.dataType) :
    Decides p columns values (.error (.planning (.incomparable p.column actual p.value)))
  /-- Both sides are present, and of one type. -/
  | compared {actual : Value} (hactual : p.actual? columns values = some actual)
    (hleft : actual ≠ .null) (hright : p.value ≠ .null)
    (h : actual.dataType = p.value.dataType) :
    Decides p columns values (.ok (p.op.holds (actual.compare p.value)))

variable {p : Predicate} {columns : List String} {values : List Value}

theorem actual?_eq (h : values.length = columns.length) :
    p.actual? columns values =
      (columns.findIdx? (· == p.column)).map fun i => values[i]?.getD .null := by
  rw [actual?]
  induction columns generalizing values with
  | nil => rfl
  | cons column columns ih =>
    obtain _ | ⟨value, values⟩ := values
    · cases h
    rw [List.zip_cons_cons, List.lookup_cons, List.findIdx?_cons]
    by_cases hc : column = p.column
    · simp [hc]
    · have hsame : (p.column == column) = false := beq_eq_false_iff_ne.mpr (Ne.symm hc)
      have hother : (column == p.column) = false := beq_eq_false_iff_ne.mpr hc
      rw [hsame, hother, ih (Nat.succ.inj h)]
      simp [Function.comp_def]

theorem actual?_eq_none (h : values.length = columns.length) :
    p.actual? columns values = none ↔ p.column ∉ columns := by
  rw [actual?_eq h, Option.map_eq_none_iff, List.findIdx?_eq_none_iff]
  constructor
  · intro hnone hmem
    simpa using hnone p.column hmem
  · rintro hmem column hcolumn
    exact beq_eq_false_iff_ne.mpr fun hsame => hmem (hsame ▸ hcolumn)

theorem isNull_iff {v : Value} : v.isNull = true ↔ v = .null := by
  cases v <;> simp [Value.isNull]

/-- A predicate decides as the program does. -/
theorem decides_test (h : values.length = columns.length) :
    p.Decides columns values (p.test columns values) := by
  have hactual := actual?_eq (p := p) h
  rw [test]
  cases hindex : columns.findIdx? (· == p.column) with
  | none =>
    rw [hindex] at hactual
    exact .unknown ((actual?_eq_none h).mp hactual)
  | some index =>
    rw [hindex, Option.map_some] at hactual
    dsimp only
    split
    case isTrue hnull =>
      rw [Bool.or_eq_true, isNull_iff, isNull_iff] at hnull
      exact .absent hactual hnull
    case isFalse hnull =>
      rw [Bool.or_eq_true, isNull_iff, isNull_iff, not_or] at hnull
      split
      case isTrue htype => exact .mismatch hactual hnull.1 hnull.2 htype
      case isFalse htype => exact .compared hactual hnull.1 hnull.2 (Decidable.of_not_not htype)

/-- Nothing is left open. -/
theorem Decides.unique {outcome outcome' : Except Error Bool}
    (h : values.length = columns.length) (hd : p.Decides columns values outcome)
    (hd' : p.Decides columns values outcome') : outcome = outcome' := by
  have hnone := actual?_eq_none (p := p) h
  cases hd <;> cases hd' <;> grind

theorem test_eq_iff {outcome : Except Error Bool} (h : values.length = columns.length) :
    p.test columns values = outcome ↔ p.Decides columns values outcome := by
  constructor
  · rintro rfl
    exact decides_test h
  · exact (decides_test h).unique h

end Predicate

namespace PartitionFilter

variable {p : Predicate} {ps : List Predicate} {columns : List String} {values : List Value}

/-! ### The first predicate that does not pass -/

theorem testAll_passes (hp : p.test columns values = .ok true) (ps : List Predicate) :
    testAll columns values (p :: ps) = testAll columns values ps := by
  rw [testAll, hp]
  rfl

theorem testAll_stops (hp : p.test columns values ≠ .ok true) (ps : List Predicate) :
    testAll columns values (p :: ps) = p.test columns values := by
  rw [testAll]
  rcases hresult : p.test columns values with e | ⟨_ | _⟩
  · rfl
  · rfl
  · exact absurd hresult hp

theorem testAll_behind {before : List Predicate}
    (hbefore : ∀ q ∈ before, q.test columns values = .ok true) (ps : List Predicate) :
    testAll columns values (before ++ ps) = testAll columns values ps := by
  induction before with
  | nil => rfl
  | cons q before ih =>
    obtain ⟨hq, hrest⟩ := List.forall_mem_cons.mp hbefore
    exact (testAll_passes hq _).trans (ih hrest)

/-- All predicates pass, or there is a first one that does not. -/
theorem exists_first (columns : List String) (values : List Value) (ps : List Predicate) :
    (∀ p ∈ ps, p.test columns values = .ok true) ∨
    ∃ before p after, ps = before ++ p :: after ∧
      (∀ q ∈ before, q.test columns values = .ok true) ∧ p.test columns values ≠ .ok true := by
  induction ps with
  | nil => exact .inl nofun
  | cons p ps ih =>
    by_cases hp : p.test columns values = .ok true
    · refine ih.imp (fun hall => List.forall_mem_cons.mpr ⟨hp, hall⟩) ?_
      rintro ⟨before, q, after, rfl, hbefore, hq⟩
      exact ⟨p :: before, q, after, rfl, List.forall_mem_cons.mpr ⟨hp, hbefore⟩, hq⟩
    · exact .inr ⟨[], p, ps, rfl, nofun, hp⟩

theorem testAll_eq_true :
    testAll columns values ps = .ok true ↔ ∀ p ∈ ps, p.test columns values = .ok true := by
  constructor
  · intro hkept
    refine (exists_first columns values ps).resolve_right ?_
    rintro ⟨before, p, after, rfl, hbefore, hp⟩
    rw [testAll_behind hbefore, testAll_stops hp] at hkept
    exact hp hkept
  · intro hall
    simpa [testAll] using testAll_behind hall []

/-- Whatever else a filter decides, the first predicate that does not pass has decided it. -/
theorem testAll_eq {outcome : Except Error Bool} (houtcome : outcome ≠ .ok true) :
    testAll columns values ps = outcome ↔ ∃ before p after, ps = before ++ p :: after ∧
      (∀ q ∈ before, q.test columns values = .ok true) ∧ p.test columns values = outcome := by
  constructor
  · rintro rfl
    obtain hall | ⟨before, p, after, rfl, hbefore, hp⟩ := exists_first columns values ps
    · exact absurd (testAll_eq_true.mpr hall) houtcome
    · refine ⟨before, p, after, rfl, hbefore, ?_⟩
      rw [testAll_behind hbefore, testAll_stops hp]
  · rintro ⟨before, p, after, rfl, hbefore, rfl⟩
    rw [testAll_behind hbefore, testAll_stops houtcome]

/-- A predicate that does not pass decides if it stands first. -/
theorem exists_perm_testAll (hp : p ∈ ps) (hstops : p.test columns values ≠ .ok true) :
    ∃ qs, qs.Perm ps ∧ testAll columns values qs = p.test columns values :=
  ⟨p :: ps.erase p, (List.perm_cons_erase hp).symm, testAll_stops hstops _⟩

/-! ### Other orders -/

/-- No predicate drops the partition while another one is an error. -/
def Unmixed (columns : List String) (values : List Value) (ps : List Predicate) : Prop :=
  ¬((∃ p ∈ ps, p.Decides columns values (.ok false)) ∧
    ∃ p ∈ ps, ∃ e, p.Decides columns values (.error e))

/-- If no predicate drops the partition, an error anywhere shows. -/
theorem testAll_error_iff (h : values.length = columns.length)
    (hunmixed : Unmixed columns values ps) :
    (∃ e, testAll columns values ps = .error e) ↔
      ∃ p ∈ ps, ∃ e, p.Decides columns values (.error e) := by
  constructor
  · rintro ⟨e, he⟩
    obtain ⟨before, p, after, rfl, -, hp⟩ := (testAll_eq (by simp)).mp he
    exact ⟨p, by simp, e, (Predicate.test_eq_iff h).mp hp⟩
  · rintro ⟨q, hq, e, he⟩
    obtain hall | ⟨before, p, after, rfl, hbefore, hp⟩ := exists_first columns values ps
    · rw [← Predicate.test_eq_iff h, hall q hq] at he
      cases he
    · rw [testAll_behind hbefore, testAll_stops hp]
      rcases hresult : p.test columns values with e' | ⟨_ | _⟩
      · exact ⟨e', rfl⟩
      · exact absurd ⟨⟨p, by simp, (Predicate.test_eq_iff h).mp hresult⟩, q, hq, e, he⟩ hunmixed
      · exact absurd hresult hp

theorem Unmixed.perm {qs : List Predicate} (hperm : qs.Perm ps)
    (h : Unmixed columns values ps) : Unmixed columns values qs := by
  rw [Unmixed] at h ⊢
  simpa only [hperm.mem_iff] using h

theorem toOption_congr {x y : Except Error Bool} (htrue : x = .ok true ↔ y = .ok true)
    (herror : (∃ e, x = .error e) ↔ ∃ e, y = .error e) : x.toOption = y.toOption := by
  rcases x with e | ⟨_ | _⟩ <;> rcases y with e' | ⟨_ | _⟩ <;> simp_all [Except.toOption]

/-- A partition is kept exactly if all predicates pass, and what else is decided the first predicate
decides that does not pass. In another order it is decided alike, with an error exactly if some
predicate is an error, unless one predicate drops the partition and another is an error. -/
theorem keeps_reordered (h : values.length = columns.length) (f : PartitionFilter) :
    (f.keeps columns values = .ok true ↔
      ∀ p ∈ f.predicates, p.Decides columns values (.ok true)) ∧
    (∀ outcome ≠ .ok true, f.keeps columns values = outcome ↔
      ∃ before p after, f.predicates = before ++ p :: after ∧
        (∀ q ∈ before, q.Decides columns values (.ok true)) ∧ p.Decides columns values outcome) ∧
    ((∀ g : PartitionFilter, g.predicates.Perm f.predicates →
        (g.keeps columns values).toOption = (f.keeps columns values).toOption ∧
        ((∃ e, g.keeps columns values = .error e) ↔
          ∃ p ∈ f.predicates, ∃ e, p.Decides columns values (.error e))) ↔
      Unmixed columns values f.predicates) := by
  simp only [← Predicate.test_eq_iff h]
  refine ⟨testAll_eq_true, fun outcome houtcome => testAll_eq houtcome, ?_, ?_⟩
  · rintro hsame ⟨⟨p, hp, hdrops⟩, herror⟩
    rw [← Predicate.test_eq_iff h] at hdrops
    have hstops : p.test columns values ≠ .ok true := by simp [hdrops]
    obtain ⟨qs, hperm, hqs⟩ := exists_perm_testAll hp hstops
    simp only [← Predicate.test_eq_iff h] at herror
    obtain ⟨e, he⟩ := (hsame ⟨qs⟩ hperm).2.mpr herror
    rw [keeps, hqs, hdrops] at he
    cases he
  · intro hunmixed g hperm
    have herror := testAll_error_iff h hunmixed
    have herror' := testAll_error_iff h (hunmixed.perm hperm)
    simp only [hperm.mem_iff, ← Predicate.test_eq_iff h] at herror herror'
    refine ⟨toOption_congr ?_ (herror'.trans herror.symm), herror'⟩
    rw [keeps, keeps, testAll_eq_true, testAll_eq_true]
    simp only [hperm.mem_iff]

/-- The days from the third on, and those that are a text. -/
def lateDays : List Predicate := [⟨"day", .gtEq, .int32 3⟩, ⟨"day", .eq, .utf8 "x"⟩]

theorem keeps_reordered_late_day :
    [Value.int32 5].length = ["day"].length ∧
    (∀ g : PartitionFilter, g.predicates.Perm lateDays →
      (g.keeps ["day"] [.int32 5]).toOption = none) := by
  refine ⟨rfl, fun g hperm => ?_⟩
  have hunmixed : Unmixed ["day"] [.int32 5] lateDays := by
    rintro ⟨⟨p, hp, hdrops⟩, -⟩
    rw [← Predicate.test_eq_iff rfl] at hdrops
    obtain rfl | rfl : p = ⟨"day", .gtEq, .int32 3⟩ ∨ p = ⟨"day", .eq, .utf8 "x"⟩ := by
      simpa [lateDays] using hp
    · cases hdrops
    · cases hdrops
  exact ((keeps_reordered rfl ⟨lateDays⟩).2.2.mpr hunmixed g hperm).1

/-- On the first day the one predicate drops the partition before the other one is tried, which is
an error; the other way round the error shows. -/
theorem keeps_hides_error :
    (⟨lateDays⟩ : PartitionFilter).keeps ["day"] [.int32 1] = .ok false ∧
    (⟨lateDays.reverse⟩ : PartitionFilter).keeps ["day"] [.int32 1] =
      .error (.planning (.incomparable "day" (.int32 1) (.utf8 "x"))) ∧
    lateDays.reverse.Perm lateDays ∧
    ∃ p ∈ lateDays, ∃ e, p.Decides ["day"] [.int32 1] (.error e) := by
  have hmismatch : Predicate.Decides ⟨"day", .eq, .utf8 "x"⟩ ["day"] [.int32 1]
      (.error (.planning (.incomparable "day" (.int32 1) (.utf8 "x")))) :=
    .mismatch rfl (by decide) (by decide) (by decide)
  exact ⟨rfl, rfl, List.reverse_perm _, _, by decide, _, hmismatch⟩

end PartitionFilter

end StagedQuery
