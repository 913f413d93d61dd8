import StagedQuery.Proofs.RowGroup.Shape

/-!
# Rows and columns are transposed without loss

A group *holds* a list of rows when it has as many rows and gives back exactly these, whether they
are read one by one, all in turn, or the group is taken apart column by column
(`RowGroup.Holds`). A rectangular group holds the rows that it is taken apart into
(`RowGroup.Rectangular.holds`), so all ways to read it agree. A group that is made of rows holds these
rows, even if they have no columns. It is made exactly if all of them fit the schema, and it is the
group that one gets by pushing them one by one (`RowGroup.ofRows_transposes`).
-/

namespace StagedQuery.RowGroup

/-! ### Reading a group -/

/-- The group has exactly these rows, whichever way they are read. At the index of each row there is
an entry of every column. -/
structure Holds (group : RowGroup) (rows : List Row) : Prop where
  rectangular : group.Rectangular
  count : group.rowCount = rows.length
  each : ∀ i, group.row? i = rows[i]?
  inTurn : group.rows = rows
  apart : group.intoRows = rows

theorem rows_eq_map (group : RowGroup) :
    group.rows = (List.range group.rowCount).map fun i =>
      { vals := entriesAt i group.columns, keys := entriesAt i group.keyColumns } := by
  rw [rows, ← List.filterMap_eq_map]
  refine List.filterMap_congr fun i hi => ?_
  rw [row?, if_pos (List.mem_range.mp hi)]
  rfl

theorem getElem?_rows (group : RowGroup) (i : Nat) : group.rows[i]? = group.row? i := by
  rw [rows_eq_map, List.getElem?_map, row?]
  by_cases hi : i < group.rowCount
  · rw [if_pos hi, List.getElem?_range hi]
    rfl
  · rw [if_neg hi, List.getElem?_eq_none (by rw [List.length_range]; omega)]
    rfl

/-- Reading a rectangular group by index and dealing its columns out come to the same. -/
theorem Rectangular.holds {group : RowGroup} (h : group.Rectangular) :
    group.Holds group.intoRows where
  rectangular := h
  count := (length_intoRows group).symm
  each i := (getElem?_intoRows h i).symm
  inTurn := List.ext_getElem? fun i => (getElem?_rows group i).trans (getElem?_intoRows h i).symm
  apart := rfl

/-! ### Groups made of rows -/

/-- The first row that does not fit decides why rows make no group. -/
theorem ofRows_eq_error_iff {schema : Schema} {rows : List Row} {e : DataError} :
    ofRows schema rows = .error e ↔ ∃ before row after, rows = before ++ row :: after ∧
      (∀ r ∈ before, r.validate schema = .ok ()) ∧ row.validate schema = .error e := by
  rw [← Result.forM_eq_error, ofRows, foldlM_push]
  cases rows.forM fun row => row.validate schema with
  | ok => simp
  | error e' => rw [Result.error_bind, Except.error.injEq, Except.error.injEq]

theorem collected_holds {schema : Schema} {rows : List Row}
    (h : ∀ row ∈ rows, row.validate schema = .ok ()) : (collected schema rows).Holds rows := by
  have hholds := (fits_collected h).rectangular.holds
  rwa [intoRows_collected h] at hholds

/-- Rows that fit are all pushed. -/
theorem each_pushOn {schema : Schema} {rows : List Row}
    (h : ∀ row ∈ rows, row.validate schema = .ok ()) (group : RowGroup) :
    Action.each (pushOn schema) rows group = (.ok (), rows.foldl append group) := by
  induction rows generalizing group with
  | nil => rfl
  | cons row rows ih =>
    obtain ⟨hrow, hrows⟩ := List.forall_mem_cons.mp h
    have hpush : pushOn schema row group = (.ok (), group.append row) := by
      rw [pushOn_apply, hrow]
    rw [Action.each_cons, Action.bind_ok hpush]
    exact ih hrows (group.append row)

/-- Rows make a group exactly if all of them fit the schema, and if they do not, then the first that
does not says why. A group of rows holds them, and it is what pushing them one by one onto the
empty group makes. A push that is refused leaves the group as it is. All groups of columns hold the
rows that they are taken apart into. -/
theorem ofRows_transposes (schema : Schema) (rows : List Row) :
    ((∃ group, ofRows schema rows = .ok group) ↔ ∀ row ∈ rows, row.validate schema = .ok ()) ∧
    (∀ e, ofRows schema rows = .error e ↔ ∃ before row after, rows = before ++ row :: after ∧
      (∀ r ∈ before, r.validate schema = .ok ()) ∧ row.validate schema = .error e) ∧
    (∀ group, ofRows schema rows = .ok group → group.Holds rows ∧
      Action.each (pushOn schema) rows (empty schema) = (.ok (), group)) ∧
    (∀ (handed : Schema) (row : Row) (group after : RowGroup) (e : Error),
      pushOn handed row group = (.error e, after) ↔
        after = group ∧ ∃ why, row.validate handed = .error why ∧ e = .data why) ∧
    ∀ (n : Nat) (columns keyColumns : List (List Value)) (group : RowGroup),
      ofColumns n columns keyColumns = .ok group → group.Holds group.intoRows := by
  refine ⟨⟨?_, fun h => ⟨_, ofRows_eq_ok_iff.mpr ⟨h, rfl⟩⟩⟩, fun e => ofRows_eq_error_iff,
    fun group h => ?_, fun handed row group after e => ?_, fun n columns keyColumns group h => ?_⟩
  · rintro ⟨group, h⟩
    exact (ofRows_eq_ok_iff.mp h).1
  · obtain ⟨hfit, rfl⟩ := ofRows_eq_ok_iff.mp h
    exact ⟨collected_holds hfit, each_pushOn hfit _⟩
  · rw [pushOn_apply]
    cases row.validate handed with
    | ok => simp
    | error why => simp [eq_comm, and_comm]
  · exact (ofColumns_eq_ok_iff.mp h).2.holds

/-- Rows of no columns are counted all the same. -/
example : ofRows { fields := [] } [⟨[], []⟩, ⟨[], []⟩] = .ok ⟨2, [], []⟩ := by decide

end StagedQuery.RowGroup
