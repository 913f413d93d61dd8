import Mathlib.Data.List.Forall2
import Mathlib.Data.List.Induction
import StagedQuery.Proofs.Action
import StagedQuery.RowGroup

/-!
# Groups hold the rows that were put into them

A group *fits* a schema when it has the columns of the schema, as long as the group has rows and
with entries that their fields admit. The empty group fits, and appending a row that validates
keeps it so (`RowGroup.Fits.append`). Taking apart a group that fits gives the rows that were
appended, in order: `RowGroup.intoRows_append` for one row, `RowGroup.intoRows_collected` for
all of them.
-/

namespace StagedQuery

/-! ### Rows that validate -/

theorem Field.check_eq_ok {f : Field} {v : Value} :
    f.check v = .ok () ↔ (v.isNull → f.nullable) ∧ v.conformsTo f.dataType := by
  rw [Field.check]
  cases v.isNull <;> cases f.nullable <;> cases v.conformsTo f.dataType <;> simp

/-- The values fit the fields, one for one. -/
theorem checkValues_eq_ok {fields : List Field} {values : List Value} :
    checkValues fields values = .ok () ↔
      List.Forall₂ (fun f v => f.check v = .ok ()) fields values := by
  induction fields generalizing values with
  | nil => cases values <;> simp [checkValues]
  | cons f fields ih =>
    cases values with
    | nil => simp [checkValues]
    | cons v values =>
      rw [List.forall₂_cons, ← ih]
      simp only [checkValues, List.length_cons, ne_eq, Nat.add_right_cancel_iff,
        List.zip_cons_cons, List.forM_eq_forM, List.forM_cons]
      by_cases hl : values.length = fields.length
      · cases f.check v <;> simp [hl]
      · simp [hl]

theorem Row.validate_eq_ok {row : Row} {schema : Schema} :
    row.validate schema = .ok () ↔
      checkValues schema.fields row.vals = .ok () ∧ checkValues schema.keys row.keys = .ok () := by
  rw [Row.validate, Result.bind_eq_ok]
  constructor
  · rintro ⟨⟨⟩, h⟩
    exact h
  · exact fun h => ⟨(), h⟩

theorem Row.length_of_validate {row : Row} {schema : Schema} (h : row.validate schema = .ok ()) :
    row.vals.length = schema.fields.length ∧ row.keys.length = schema.keys.length := by
  obtain ⟨hvals, hkeys⟩ := Row.validate_eq_ok.mp h
  exact ⟨(checkValues_eq_ok.mp hvals).length_eq.symm, (checkValues_eq_ok.mp hkeys).length_eq.symm⟩

/-! ### Groups that fit a schema -/

/-- A column of so many entries, each of which the field admits. -/
def Field.Admits (rows : Nat) (f : Field) (column : List Value) : Prop :=
  column.length = rows ∧ ∀ v ∈ column, f.check v = .ok ()

namespace RowGroup

/-- The group has the columns of the schema. -/
structure Fits (schema : Schema) (group : RowGroup) : Prop where
  columns : List.Forall₂ (Field.Admits group.rowCount) schema.fields group.columns
  keyColumns : List.Forall₂ (Field.Admits group.rowCount) schema.keys group.keyColumns

theorem admits_blank (fields : List Field) :
    List.Forall₂ (Field.Admits 0) fields (fields.map fun _ => []) := by
  rw [List.forall₂_map_right_iff]
  exact List.forall₂_same.mpr fun f _ => ⟨rfl, fun v hv => absurd hv List.not_mem_nil⟩

/-- Each column has one entry for each row. -/
def Rectangular (group : RowGroup) : Prop :=
  ∀ column ∈ group.columns ++ group.keyColumns, column.length = group.rowCount

/-- Columns make a group exactly if they are as long as it is to be. -/
theorem ofColumns_eq_ok_iff {rowCount : Nat} {columns keyColumns : List (List Value)}
    {group : RowGroup} :
    ofColumns rowCount columns keyColumns = .ok group ↔
      { rowCount, columns, keyColumns } = group ∧ group.Rectangular := by
  rw [ofColumns]
  split
  case h_1 column hfound =>
    refine ⟨nofun, ?_⟩
    rintro ⟨rfl, hrectangular⟩
    have hlength := hrectangular column (List.mem_of_find?_eq_some hfound)
    simpa [hlength] using List.find?_some hfound
  case h_2 hall =>
    constructor
    · rintro ⟨⟩
      refine ⟨rfl, fun column hcolumn => ?_⟩
      simpa using List.find?_eq_none.mp hall column hcolumn
    · rintro ⟨rfl, -⟩
      rfl

theorem Rectangular.ofColumns_eq {group : RowGroup} (h : group.Rectangular) :
    ofColumns group.rowCount group.columns group.keyColumns = .ok group :=
  ofColumns_eq_ok_iff.mpr ⟨rfl, h⟩

theorem length_of_admits {n : Nat} {fields : List Field} {columns : List (List Value)}
    (h : List.Forall₂ (Field.Admits n) fields columns) : ∀ column ∈ columns, column.length = n := by
  induction h with
  | nil => exact fun column hc => absurd hc List.not_mem_nil
  | cons h _ ih => exact List.forall_mem_cons.mpr ⟨h.1, ih⟩

theorem Fits.rectangular {schema : Schema} {group : RowGroup} (h : group.Fits schema) :
    group.Rectangular :=
  List.forall_mem_append.mpr ⟨length_of_admits h.columns, length_of_admits h.keyColumns⟩

theorem Fits.empty (schema : Schema) : (empty schema).Fits schema :=
  ⟨admits_blank schema.fields, admits_blank schema.keys⟩

theorem admits_appendValues {n : Nat} {fields : List Field} {columns : List (List Value)}
    {values : List Value} (hc : List.Forall₂ (Field.Admits n) fields columns)
    (hv : List.Forall₂ (fun f v => f.check v = .ok ()) fields values) :
    List.Forall₂ (Field.Admits (n + 1)) fields (appendValues columns values) := by
  induction hc generalizing values with
  | nil =>
    cases hv
    exact .nil
  | cons h _ ih =>
    cases hv with
    | cons hv hvs =>
      refine .cons ⟨by rw [List.length_append, h.1]; rfl, ?_⟩ (ih hvs)
      intro v hmem
      obtain hmem | hmem := List.mem_append.mp hmem
      · exact h.2 v hmem
      · rwa [List.mem_singleton.mp hmem]

/-- A row that validates leaves the group fitting. -/
theorem Fits.append {schema : Schema} {group : RowGroup} {row : Row} (h : group.Fits schema)
    (hr : row.validate schema = .ok ()) : (group.append row).Fits schema := by
  obtain ⟨hv, hk⟩ := Row.validate_eq_ok.mp hr
  exact ⟨admits_appendValues h.columns (checkValues_eq_ok.mp hv),
    admits_appendValues h.keyColumns (checkValues_eq_ok.mp hk)⟩

theorem push_eq_ok {schema : Schema} {group : RowGroup} {row : Row}
    (hr : row.validate schema = .ok ()) : group.push schema row = .ok (group.append row) := by
  rw [push, hr]
  rfl

theorem mem_appendValues {columns : List (List Value)} {values column : List Value} {v : Value}
    (hc : column ∈ appendValues columns values) (hv : v ∈ column) :
    (∃ column ∈ columns, v ∈ column) ∨ v ∈ values := by
  fun_induction appendValues columns values with
  | case1 front columns w values ih =>
    obtain rfl | hc := List.mem_cons.mp hc
    · obtain hv | hv := List.mem_append.mp hv
      · exact .inl ⟨front, List.mem_cons_self, hv⟩
      · rw [List.mem_singleton] at hv
        exact .inr (hv ▸ List.mem_cons_self)
    · obtain ⟨c, hmem, hv⟩ | hv := ih hc
      · exact .inl ⟨c, List.mem_cons_of_mem _ hmem, hv⟩
      · exact .inr (List.mem_cons_of_mem _ hv)
  | case2 => exact .inl ⟨column, hc, hv⟩

/-! ### Taking groups apart -/

theorem length_deal (rows : List (List Value)) (column : List Value) :
    (deal rows column).length = rows.length := by
  fun_induction deal rows column with
  | case1 row rows v column ih => simp [ih]
  | case2 => rfl

theorem length_foldl_deal (rows columns : List (List Value)) :
    (columns.foldl deal rows).length = rows.length := by
  induction columns generalizing rows with
  | nil => rfl
  | cons column columns ih => rw [List.foldl_cons, ih, length_deal]

@[simp] theorem length_intoRows (group : RowGroup) : group.intoRows.length = group.rowCount := by
  simp [intoRows, length_foldl_deal]

/-- Groups of at most `n` rows each. -/
theorem length_flatMap_intoRows_le {n : Nat} {groups : List RowGroup}
    (h : ∀ group ∈ groups, group.rowCount ≤ n) :
    (groups.flatMap intoRows).length ≤ n * groups.length := by
  induction groups with
  | nil => exact Nat.zero_le _
  | cons group groups ih =>
    obtain ⟨hfirst, hrest⟩ := List.forall_mem_cons.mp h
    have hrows := ih hrest
    rw [List.flatMap_cons, List.length_append, length_intoRows, List.length_cons, Nat.mul_succ]
    omega

/-- The last entry of a column goes to the last row. -/
theorem deal_concat {rows : List (List Value)} {column : List Value}
    (h : column.length = rows.length) (row : List Value) (v : Value) :
    deal (rows ++ [row]) (column ++ [v]) = deal rows column ++ [row ++ [v]] := by
  induction rows generalizing column with
  | nil =>
    obtain rfl := List.length_eq_zero_iff.mp h
    rfl
  | cons r rows ih =>
    cases column with
    | nil => simp at h
    | cons w column =>
      simp only [List.cons_append, deal]
      rw [ih (Nat.succ.inj h)]

/-- One more entry in each column is one more row. -/
theorem foldl_deal_appendValues {n : Nat} {fields : List Field} {columns : List (List Value)}
    {values : List Value} (hc : List.Forall₂ (Field.Admits n) fields columns)
    (hv : values.length = columns.length) {rows : List (List Value)} (hr : rows.length = n)
    (row : List Value) :
    (appendValues columns values).foldl deal (rows ++ [row]) =
      columns.foldl deal rows ++ [row ++ values] := by
  induction hc generalizing values rows row with
  | nil =>
    obtain rfl := List.length_eq_zero_iff.mp hv
    simp [appendValues]
  | cons h _ ih =>
    cases values with
    | nil => simp at hv
    | cons v values =>
      rw [appendValues, List.foldl_cons, deal_concat (h.1.trans hr.symm),
        ih (Nat.succ.inj hv) ((length_deal ..).trans hr), List.foldl_cons, List.append_assoc,
        List.singleton_append]

/-- An appended row is the last one that comes out. -/
theorem intoRows_append {schema : Schema} {group : RowGroup} {row : Row}
    (h : group.Fits schema) (hr : row.validate schema = .ok ()) :
    (group.append row).intoRows = group.intoRows ++ [row] := by
  obtain ⟨hv, hk⟩ := Row.length_of_validate hr
  have hblank : (List.replicate group.rowCount ([] : List Value)).length = group.rowCount :=
    List.length_replicate
  have hv := hv.trans h.columns.length_eq
  have hk := hk.trans h.keyColumns.length_eq
  simp only [intoRows, append, List.replicate_succ']
  rw [foldl_deal_appendValues h.columns hv hblank, foldl_deal_appendValues h.keyColumns hk hblank,
    List.zipWith_append (by rw [length_foldl_deal, length_foldl_deal])]
  rfl

/-- A column deals each row one entry, if it has as many entries as there are rows. -/
theorem getElem?_deal {rows : List (List Value)} {column : List Value}
    (h : column.length = rows.length) (i : Nat) :
    (deal rows column)[i]? = rows[i]?.map (· ++ [column[i]?.getD .null]) := by
  fun_induction deal rows column generalizing i with
  | case1 row rows v column ih =>
    cases i with
    | zero => rfl
    | succ i => exact ih (Nat.succ.inj h) i
  | case2 column rows hshort =>
    cases rows with
    | nil => rfl
    | cons row rows =>
      cases column with
      | nil => cases h
      | cons v column => exact (hshort row rows v column rfl rfl).elim

theorem getElem?_foldl_deal {n : Nat} {columns : List (List Value)}
    (h : ∀ column ∈ columns, column.length = n) {rows : List (List Value)} (hr : rows.length = n)
    (i : Nat) : (columns.foldl deal rows)[i]? = rows[i]?.map (· ++ entriesAt i columns) := by
  induction columns generalizing rows with
  | nil => simp [entriesAt]
  | cons column columns ih =>
    obtain ⟨hcolumn, hcolumns⟩ := List.forall_mem_cons.mp h
    rw [List.foldl_cons, ih hcolumns ((length_deal ..).trans hr),
      getElem?_deal (hcolumn.trans hr.symm), Option.map_map]
    simp [entriesAt, Function.comp_def]

/-- If the columns are as long as the group, then its rows are what stands in them at each
index. -/
theorem getElem?_intoRows {group : RowGroup} (h : group.Rectangular) (i : Nat) :
    group.intoRows[i]? = group.row? i := by
  have hblank : (List.replicate group.rowCount ([] : List Value)).length = group.rowCount :=
    List.length_replicate
  obtain ⟨hcolumns, hkeys⟩ := List.forall_mem_append.mp h
  rw [intoRows, List.getElem?_zipWith, getElem?_foldl_deal hcolumns hblank,
    getElem?_foldl_deal hkeys hblank, row?, List.getElem?_replicate]
  by_cases hi : i < group.rowCount
  · rw [if_pos hi, if_pos hi]
    rfl
  · rw [if_neg hi, if_neg hi]
    rfl

theorem mem_of_mem_entriesAt {n i : Nat} {fields : List Field} {columns : List (List Value)}
    (h : List.Forall₂ (Field.Admits n) fields columns) (hi : i < n) {v : Value}
    (hv : v ∈ entriesAt i columns) : ∃ column ∈ columns, v ∈ column := by
  obtain ⟨column, hc, rfl⟩ := List.mem_map.mp hv
  have hlt : i < column.length := (length_of_admits h column hc).symm ▸ hi
  refine ⟨column, hc, ?_⟩
  rw [List.getElem?_eq_getElem hlt]
  exact List.getElem_mem hlt

theorem check_entriesAt {n i : Nat} {fields : List Field} {columns : List (List Value)}
    (h : List.Forall₂ (Field.Admits n) fields columns) (hi : i < n) :
    List.Forall₂ (fun f v => f.check v = .ok ()) fields (entriesAt i columns) := by
  refine List.forall₂_map_right_iff.mpr (h.imp fun f column hcolumn => ?_)
  have hlt : i < column.length := hcolumn.1.symm ▸ hi
  rw [List.getElem?_eq_getElem hlt]
  exact hcolumn.2 _ (List.getElem_mem hlt)

/-- A row of a group that fits a schema is what stands in the columns at some index. -/
theorem Fits.eq_entriesAt {schema : Schema} {group : RowGroup} (h : group.Fits schema) {row : Row}
    (hrow : row ∈ group.intoRows) : ∃ i < group.rowCount,
      row = { vals := entriesAt i group.columns, keys := entriesAt i group.keyColumns } := by
  obtain ⟨i, hi⟩ := List.mem_iff_getElem?.mp hrow
  rw [getElem?_intoRows h.rectangular, row?] at hi
  split at hi
  · rename_i hlt
    exact ⟨i, hlt, (Option.some.inj hi).symm⟩
  · cases hi

/-- The rows of a group that fits a schema fit it, too. -/
theorem Fits.validate {schema : Schema} {group : RowGroup} (h : group.Fits schema) {row : Row}
    (hrow : row ∈ group.intoRows) : row.validate schema = .ok () := by
  obtain ⟨i, hlt, rfl⟩ := h.eq_entriesAt hrow
  exact Row.validate_eq_ok.mpr ⟨checkValues_eq_ok.mpr (check_entriesAt h.columns hlt),
    checkValues_eq_ok.mpr (check_entriesAt h.keyColumns hlt)⟩

/-- What stands in the rows of a group that fits a schema stands in its columns. -/
theorem Fits.mem_columns {schema : Schema} {group : RowGroup} (h : group.Fits schema) {row : Row}
    (hrow : row ∈ group.intoRows) {v : Value} (hv : v ∈ row.vals ++ row.keys) :
    ∃ column ∈ group.columns ++ group.keyColumns, v ∈ column := by
  obtain ⟨i, hlt, rfl⟩ := h.eq_entriesAt hrow
  obtain hv | hv := List.mem_append.mp hv
  · obtain ⟨column, hc, hmem⟩ := mem_of_mem_entriesAt h.columns hlt hv
    exact ⟨column, List.mem_append_left _ hc, hmem⟩
  · obtain ⟨column, hc, hmem⟩ := mem_of_mem_entriesAt h.keyColumns hlt hv
    exact ⟨column, List.mem_append_right _ hc, hmem⟩

/-- The group of some rows. -/
def collected (schema : Schema) (rows : List Row) : RowGroup :=
  rows.foldl append (empty schema)

@[simp] theorem collected_nil (schema : Schema) : collected schema [] = empty schema := rfl

@[simp] theorem collected_concat (schema : Schema) (rows : List Row) (row : Row) :
    collected schema (rows ++ [row]) = (collected schema rows).append row := by
  simp [collected]

@[simp] theorem rowCount_collected (schema : Schema) (rows : List Row) :
    (collected schema rows).rowCount = rows.length := by
  induction rows using List.reverseRecOn with
  | nil => rfl
  | append_singleton rows row ih => rw [collected_concat, append, ih, List.length_append]; rfl

theorem fits_collected {schema : Schema} {rows : List Row}
    (h : ∀ row ∈ rows, row.validate schema = .ok ()) : (collected schema rows).Fits schema := by
  induction rows using List.reverseRecOn with
  | nil => exact .empty schema
  | append_singleton rows row ih =>
    rw [collected_concat]
    exact (ih fun r hr => h r (List.mem_append_left _ hr)).append
      (h row (List.mem_append_right _ List.mem_cons_self))

/-- Every entry of the group is a value of one of the rows. -/
theorem mem_collected {schema : Schema} {rows : List Row} {column : List Value} {v : Value}
    (hc : column ∈ (collected schema rows).columns ++ (collected schema rows).keyColumns)
    (hv : v ∈ column) : ∃ row ∈ rows, v ∈ row.vals ++ row.keys := by
  induction rows using List.reverseRecOn generalizing column with
  | nil =>
    simp only [collected_nil, empty, List.mem_append, List.mem_map] at hc
    obtain ⟨_, _, rfl⟩ | ⟨_, _, rfl⟩ := hc <;> exact absurd hv List.not_mem_nil
  | append_singleton rows row ih =>
    have last {part : List Value} (hpart : ∀ w ∈ part, w ∈ row.vals ++ row.keys)
        (h : v ∈ part) : ∃ r ∈ rows ++ [row], v ∈ r.vals ++ r.keys :=
      ⟨row, List.mem_append_right _ List.mem_cons_self, hpart v h⟩
    have before {column : List Value} (hc : column ∈ (collected schema rows).columns ++
        (collected schema rows).keyColumns) (hv : v ∈ column) :
        ∃ r ∈ rows ++ [row], v ∈ r.vals ++ r.keys := by
      obtain ⟨r, hr, h⟩ := ih hc hv
      exact ⟨r, List.mem_append_left _ hr, h⟩
    rw [collected_concat] at hc
    obtain hc | hc := List.mem_append.mp hc
    · obtain ⟨c, hc, hv⟩ | hv := mem_appendValues hc hv
      · exact before (List.mem_append_left _ hc) hv
      · exact last (fun w hw => List.mem_append_left _ hw) hv
    · obtain ⟨c, hc, hv⟩ | hv := mem_appendValues hc hv
      · exact before (List.mem_append_right _ hc) hv
      · exact last (fun w hw => List.mem_append_right _ hw) hv

/-- The rows of a group come out as they were put in. -/
theorem intoRows_collected {schema : Schema} {rows : List Row}
    (h : ∀ row ∈ rows, row.validate schema = .ok ()) : (collected schema rows).intoRows = rows := by
  induction rows using List.reverseRecOn with
  | nil => exact List.length_eq_zero_iff.mp (length_intoRows _)
  | append_singleton rows row ih =>
    have hrows : ∀ r ∈ rows, r.validate schema = .ok () :=
      fun r hr => h r (List.mem_append_left _ hr)
    rw [collected_concat, intoRows_append (fits_collected hrows)
      (h row (List.mem_append_right _ List.mem_cons_self)), ih hrows]

end RowGroup

end StagedQuery
