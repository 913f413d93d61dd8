import StagedQuery.Proofs.RowGroup

/-!
# What pushes do to the columns of a group

A group is *rectangular* when each column has one entry for each row: then there is an entry of every
column at the index of every row. Groups are made rectangular, but a push does not look at the
columns of the group: it asks whether the row fits the schema that it is handed, and then appends to
each column the value at its place, if the row has one there. So whether a row is taken says nothing
about the group, and each column is followed by the values that the rows which were taken have at its
place (`RowGroup.getElem?_foldl_appendValues`). The group stays rectangular exactly if no row was taken by a
schema with fewer columns than the group (`RowGroup.rectangular_afterPushes`); a row of such a schema
leaves it ragged (`RowGroup.ragged_after_narrow_push`).
-/

namespace StagedQuery.RowGroup

/-! ### Groups -/

/-- The ways in which groups are made. -/
inductive Made : RowGroup → Prop
  | empty (schema : Schema) : Made (empty schema)
  | ofColumns {rowCount : Nat} {columns keyColumns : List (List Value)} {group : RowGroup}
      (h : ofColumns rowCount columns keyColumns = .ok group) : Made group
  | ofRows {schema : Schema} {rows : List Row} {group : RowGroup}
      (h : ofRows schema rows = .ok group) : Made group

/-- Pushing rows is asking first whether all of them fit. -/
theorem foldlM_push (schema : Schema) (rows : List Row) (group : RowGroup) :
    rows.foldlM (fun group row => group.push schema row) group =
      (rows.forM fun row => row.validate schema) >>= fun _ => .ok (rows.foldl append group) := by
  induction rows generalizing group with
  | nil => rfl
  | cons row rows ih =>
    rw [List.foldlM_cons, push]
    simp only [List.forM_eq_forM, List.forM_cons]
    cases row.validate schema with
    | ok => exact ih (group.append row)
    | error e => rfl

/-- Rows make a group exactly if all of them fit. -/
theorem ofRows_eq_ok_iff {schema : Schema} {rows : List Row} {group : RowGroup} :
    ofRows schema rows = .ok group ↔
      (∀ row ∈ rows, row.validate schema = .ok ()) ∧ collected schema rows = group := by
  rw [ofRows, foldlM_push, Result.bind_eq_ok, ← Result.forM_eq_ok]
  constructor
  · rintro ⟨⟨⟩, hfit, hgroup⟩
    exact ⟨hfit, Except.ok.inj hgroup⟩
  · rintro ⟨hfit, rfl⟩
    exact ⟨(), hfit, rfl⟩

theorem Made.rectangular {group : RowGroup} (h : Made group) : group.Rectangular := by
  cases h with
  | empty schema => exact (Fits.empty schema).rectangular
  | ofColumns h => exact (ofColumns_eq_ok_iff.mp h).2
  | ofRows h =>
    obtain ⟨hfit, rfl⟩ := ofRows_eq_ok_iff.mp h
    exact (fits_collected hfit).rectangular

/-! ### One push -/

/-- Push a row onto a group where it stands. -/
def pushOn (schema : Schema) (row : Row) : Action RowGroup Unit := do
  let group ← .get
  let longer ← .ofExcept ((group.push schema row).mapError .data)
  .modify fun _ => longer

/-- Only a row that fits the schema changes the group. -/
theorem pushOn_apply (schema : Schema) (row : Row) (group : RowGroup) :
    pushOn schema row group =
      match row.validate schema with
      | .ok () => (.ok (), group.append row)
      | .error e => (.error (.data e), group) := by
  rw [pushOn, Action.get_bind, push]
  cases row.validate schema with
  | ok => rfl
  | error e => rfl

/-- A call that pushes: the schema that it is handed, and the row. -/
structure Push where
  schema : Schema
  row : Row

/-- Whether the row is taken. -/
def Push.taken (push : Push) : Bool := (push.row.validate push.schema).isOk

/-- The rows that are taken. -/
def takenRows (pushes : List Push) : List Row := (pushes.filter Push.taken).map Push.row

/-- Push one row after the other, going on after a row that is refused. -/
def afterPushes (group : RowGroup) (pushes : List Push) : RowGroup :=
  pushes.foldl (fun group push => (pushOn push.schema push.row group).2) group

theorem Push.taken_iff {push : Push} : push.taken ↔ push.row.validate push.schema = .ok () := by
  rw [taken]
  cases push.row.validate push.schema <;> simp [Except.isOk, Except.toBool]

/-- The rows that are taken are appended; the others leave no trace. -/
theorem afterPushes_eq (group : RowGroup) (pushes : List Push) :
    group.afterPushes pushes = (takenRows pushes).foldl append group := by
  induction pushes generalizing group with
  | nil => rfl
  | cons push pushes ih =>
    rw [afterPushes, List.foldl_cons, ← afterPushes, ih, pushOn_apply, takenRows, takenRows,
      List.filter_cons, Push.taken]
    cases push.row.validate push.schema with
    | ok => rfl
    | error e => rfl

/-! ### The columns after pushes -/

theorem foldl_append (group : RowGroup) (rows : List Row) :
    rows.foldl append group =
      { rowCount := group.rowCount + rows.length
        columns := (rows.map Row.vals).foldl appendValues group.columns
        keyColumns := (rows.map Row.keys).foldl appendValues group.keyColumns } := by
  induction rows generalizing group with
  | nil => rfl
  | cons row rows ih =>
    rw [List.foldl_cons, ih, List.length_cons, append, Nat.add_right_comm]
    rfl

theorem getElem?_appendValues (columns : List (List Value)) (values : List Value) (i : Nat) :
    (appendValues columns values)[i]? = columns[i]?.map (· ++ values[i]?.toList) := by
  fun_induction appendValues columns values generalizing i with
  | case1 column columns v values ih =>
    cases i with
    | zero => rfl
    | succ i => exact ih i
  | case2 columns values hshort =>
    cases columns with
    | nil => rfl
    | cons column columns =>
      cases values with
      | nil => simp
      | cons v values => exact (hshort column columns v values rfl rfl).elim

/-- Each column is followed by the values that are at its place. -/
theorem getElem?_foldl_appendValues (columns parts : List (List Value)) (i : Nat) :
    (parts.foldl appendValues columns)[i]? = columns[i]?.map (· ++ parts.filterMap (·[i]?)) := by
  induction parts generalizing columns with
  | nil => simp
  | cons part parts ih =>
    rw [List.foldl_cons, ih, getElem?_appendValues, Option.map_map]
    refine congrArg (columns[i]?.map ·) (funext fun column => ?_)
    cases h : part[i]? <;> simp [h]

section Lengths

variable {n : Nat} {columns : List (List Value)} (h : ∀ column ∈ columns, column.length = n)
  (parts : List (List Value))

include h

theorem length_of_getElem?_foldl {i : Nat} {column : List Value}
    (hcolumn : (parts.foldl appendValues columns)[i]? = some column) :
    i < columns.length ∧ column.length = n + (parts.filterMap (·[i]?)).length := by
  rw [getElem?_foldl_appendValues, Option.map_eq_some_iff] at hcolumn
  obtain ⟨before, hbefore, rfl⟩ := hcolumn
  rw [List.length_append, h before (List.mem_of_getElem? hbefore)]
  exact ⟨(List.getElem?_eq_some_iff.mp hbefore).1, rfl⟩

/-- No column gets ahead of the rows. -/
theorem length_foldl_appendValues_le :
    ∀ column ∈ parts.foldl appendValues columns, column.length ≤ n + parts.length := by
  intro column hcolumn
  obtain ⟨i, hi⟩ := List.mem_iff_getElem?.mp hcolumn
  rw [(length_of_getElem?_foldl h parts hi).2]
  exact Nat.add_le_add_left (List.length_filterMap_le _ _) n

/-- All columns keep up with the rows exactly if each row has a value for each of them. -/
theorem length_foldl_appendValues_eq :
    (∀ column ∈ parts.foldl appendValues columns, column.length = n + parts.length) ↔
      ∀ part ∈ parts, columns.length ≤ part.length := by
  constructor
  · intro hall part hpart
    refine Nat.le_of_not_lt fun hshort => ?_
    -- the first column for which the row has no value
    obtain ⟨column, hcolumn⟩ : ∃ column, (parts.foldl appendValues columns)[part.length]? =
        some column := by
      rw [getElem?_foldl_appendValues, List.getElem?_eq_getElem hshort]
      exact ⟨_, rfl⟩
    have hlength := (length_of_getElem?_foldl h parts hcolumn).2
    rw [hall _ (List.mem_of_getElem? hcolumn), Nat.add_left_cancel_iff] at hlength
    have hvalue := List.filterMap_length_eq_length.mp hlength.symm part hpart
    rw [List.getElem?_eq_none (Nat.le_refl _)] at hvalue
    cases hvalue
  · intro hwide column hcolumn
    obtain ⟨i, hi⟩ := List.mem_iff_getElem?.mp hcolumn
    obtain ⟨hlt, hlength⟩ := length_of_getElem?_foldl h parts hi
    rw [hlength, List.filterMap_length_eq_length.mpr]
    intro part hpart
    rw [List.getElem?_eq_getElem (Nat.lt_of_lt_of_le hlt (hwide part hpart))]
    rfl

end Lengths

/-! ### Staying rectangular -/

/-- A group whose columns are no longer than it is is rectangular exactly if at the index of every
row there is an entry in every column. -/
theorem rectangular_iff_entries {group : RowGroup}
    (h : ∀ column ∈ group.columns ++ group.keyColumns, column.length ≤ group.rowCount) :
    group.Rectangular ↔
      ∀ i < group.rowCount, ∀ column ∈ group.columns ++ group.keyColumns, i < column.length := by
  constructor
  · intro hrectangular i hi column hcolumn
    rwa [hrectangular column hcolumn]
  · intro hentries column hcolumn
    refine Nat.le_antisymm (h column hcolumn) (Nat.le_of_not_lt fun hlt => ?_)
    exact Nat.lt_irrefl _ (hentries column.length hlt column hcolumn)

section Appending

variable {group : RowGroup} (h : group.Rectangular) (rows : List Row)

include h

theorem Rectangular.length_le_foldl_append :
    ∀ column ∈ (rows.foldl append group).columns ++ (rows.foldl append group).keyColumns,
      column.length ≤ (rows.foldl append group).rowCount := by
  obtain ⟨hcolumns, hkeys⟩ := List.forall_mem_append.mp h
  have hvals := length_foldl_appendValues_le hcolumns (rows.map Row.vals)
  have hkeys := length_foldl_appendValues_le hkeys (rows.map Row.keys)
  rw [List.length_map] at hvals hkeys
  rw [foldl_append]
  exact List.forall_mem_append.mpr ⟨hvals, hkeys⟩

/-- Appended rows leave a group rectangular exactly if each has a value for each column. -/
theorem Rectangular.foldl_append_iff :
    (rows.foldl append group).Rectangular ↔ ∀ row ∈ rows,
      group.columns.length ≤ row.vals.length ∧ group.keyColumns.length ≤ row.keys.length := by
  obtain ⟨hcolumns, hkeys⟩ := List.forall_mem_append.mp h
  have hvals := length_foldl_appendValues_eq hcolumns (rows.map Row.vals)
  have hkeys := length_foldl_appendValues_eq hkeys (rows.map Row.keys)
  rw [List.length_map, List.forall_mem_map] at hvals hkeys
  rw [foldl_append, Rectangular, List.forall_mem_append, hvals, hkeys]
  exact forall₂_and.symm

end Appending

/-- Whatever is pushed onto a group by whatever schemas, each column is followed by the values that
the rows which were taken have at its place. So the group stays rectangular, and has an entry of
every column at the index of every row, exactly if each schema that took a row has a column for
each of the group. -/
theorem rectangular_afterPushes {group : RowGroup} (h : Made group) (pushes : List Push) :
    (group.afterPushes pushes).rowCount = group.rowCount + (takenRows pushes).length ∧
    (∀ i : Nat, (group.afterPushes pushes).columns[i]? = group.columns[i]?.map fun column =>
      column ++ (takenRows pushes).filterMap fun row => row.vals[i]?) ∧
    (∀ i : Nat, (group.afterPushes pushes).keyColumns[i]? = group.keyColumns[i]?.map fun column =>
      column ++ (takenRows pushes).filterMap fun row => row.keys[i]?) ∧
    ((group.afterPushes pushes).Rectangular ↔
      ∀ push ∈ pushes, push.row.validate push.schema = .ok () →
        group.columns.length ≤ push.schema.fields.length ∧
          group.keyColumns.length ≤ push.schema.keys.length) ∧
    ((group.afterPushes pushes).Rectangular ↔
      ∀ i < (group.afterPushes pushes).rowCount,
        ∀ column ∈ (group.afterPushes pushes).columns ++ (group.afterPushes pushes).keyColumns,
          i < column.length) := by
  have hmade := h.rectangular
  rw [afterPushes_eq]
  refine ⟨?_, fun i => ?_, fun i => ?_, ?_, ?_⟩
  · rw [foldl_append]
  · rw [foldl_append, getElem?_foldl_appendValues, List.filterMap_map]
    rfl
  · rw [foldl_append, getElem?_foldl_appendValues, List.filterMap_map]
    rfl
  · rw [hmade.foldl_append_iff, takenRows, List.forall_mem_map]
    constructor
    · intro hwide push hpush hfits
      obtain ⟨hvals, hkeys⟩ := Row.length_of_validate hfits
      rw [← hvals, ← hkeys]
      exact hwide push (List.mem_filter.mpr ⟨hpush, Push.taken_iff.mpr hfits⟩)
    · intro hwide push hpush
      obtain ⟨hpush, htaken⟩ := List.mem_filter.mp hpush
      have hfits := Push.taken_iff.mp htaken
      obtain ⟨hvals, hkeys⟩ := Row.length_of_validate hfits
      rw [hvals, hkeys]
      exact hwide push hpush hfits
  · exact rectangular_iff_entries (hmade.length_le_foldl_append _)

/-- A schema with other types takes a row as well, and a key column that the group does not have is
passed over; the narrow schema does no harm, as it takes no row. -/
theorem rectangular_afterPushes_foreign :
    let foreign : Schema :=
      { fields := [⟨"t", .utf8, true⟩, ⟨"n", .int64, false⟩], keys := [⟨"k", .boolean, false⟩] }
    let narrow : Schema := { fields := [⟨"n", .int64, false⟩] }
    let group : RowGroup := ⟨1, [[.int64 1], [.utf8 "a"]], []⟩
    let pushes : List Push :=
      [⟨narrow, ⟨[.utf8 "b"], []⟩⟩, ⟨foreign, ⟨[.null, .int64 2], [.boolean true]⟩⟩,
        ⟨foreign, ⟨[.null], [.boolean true]⟩⟩]
    group.afterPushes pushes = ⟨2, [[.int64 1, .null], [.utf8 "a", .int64 2]], []⟩ ∧
      (group.afterPushes pushes).Rectangular := by
  intro foreign narrow group pushes
  have hgroup : ofColumns 1 [[.int64 1], [.utf8 "a"]] [] = .ok group := rfl
  have hwide : ∀ push ∈ pushes, push.row.validate push.schema = .ok () →
      group.columns.length ≤ push.schema.fields.length ∧
        group.keyColumns.length ≤ push.schema.keys.length := by decide
  exact ⟨by decide, (rectangular_afterPushes (.ofColumns hgroup) pushes).2.2.2.1.mpr hwide⟩

/-- A group of two columns, and a row for a schema of one: the row is taken, and the second column
has no entry for it. -/
theorem ragged_after_narrow_push :
    let narrow : Schema := { fields := [⟨"n", .int64, false⟩] }
    let group : RowGroup := ⟨0, [[], []], []⟩
    let row : Row := { vals := [.int64 1] }
    ofColumns 0 [[], []] [] = .ok group ∧
      (pushOn narrow row group).1 = .ok () ∧
      group.afterPushes [⟨narrow, row⟩] = ⟨1, [[.int64 1], []], []⟩ ∧
      ¬ (group.afterPushes [⟨narrow, row⟩]).Rectangular := by
  intro narrow group row
  have hafter : group.afterPushes [⟨narrow, row⟩] = ⟨1, [[.int64 1], []], []⟩ := by decide
  refine ⟨rfl, rfl, hafter, ?_⟩
  rw [hafter]
  intro hrectangular
  exact absurd (hrectangular [] (by decide)) (by decide)

end StagedQuery.RowGroup
