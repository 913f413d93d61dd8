import StagedQuery.Proofs.Stream.Safety

/-!
# What an expected schema is worth

A reader that expects a schema takes any stream whose columns have the expected types, value columns
and key columns in order (`RowReader.Heeds`), and then goes by the schema of the stream. So the rows
that it hands out have the expected number of values, each of the expected type or absent. Whether
a value may be absent is up to the stream: a column that is nullable there may not have been
expected to be so. A row validates against the expected schema if its absent values are where that
one has them, and only then (`RowReader.rows_have_expected_columns`).
-/

namespace StagedQuery

open StagedQuery.Action

/-! ### Rows of a shape -/

/-- Where a column of the first schema may have no value, so may that of the second one. -/
def Schema.NoLaxerThan (schema other : Schema) : Prop :=
  List.Forall₂ (fun f f' => f.nullable → f'.nullable) schema.fields other.fields ∧
    List.Forall₂ (fun f f' => f.nullable → f'.nullable) schema.keys other.keys

namespace Row

variable {row : Row} {schema : Schema}

/-- The row has a value for each column, of its type or absent. -/
structure OfShape (shape : List DataType × List DataType) (row : Row) : Prop where
  vals : List.Forall₂ (fun t (v : Value) => v.conformsTo t) shape.1 row.vals
  keys : List.Forall₂ (fun t (v : Value) => v.conformsTo t) shape.2 row.keys

/-- Where the row has no value, the column of the schema may have none. -/
structure AbsentWithin (schema : Schema) (row : Row) : Prop where
  vals : List.Forall₂ (fun (f : Field) (v : Value) => v.isNull → f.nullable) schema.fields row.vals
  keys : List.Forall₂ (fun (f : Field) (v : Value) => v.isNull → f.nullable) schema.keys row.keys

theorem forall₂_check {fields : List Field} {values : List Value} :
    List.Forall₂ (fun f v => f.check v = .ok ()) fields values ↔
      List.Forall₂ (fun t (v : Value) => v.conformsTo t) (fields.map (·.dataType)) values ∧
        List.Forall₂ (fun (f : Field) (v : Value) => v.isNull → f.nullable) fields values := by
  rw [List.forall₂_map_left_iff]
  constructor
  · exact fun h => ⟨h.imp fun f v hv => (Field.check_eq_ok.mp hv).2,
      h.imp fun f v hv => (Field.check_eq_ok.mp hv).1⟩
  · rintro ⟨htypes, habsent⟩
    induction htypes with
    | nil => exact .nil
    | cons htype _ ih =>
      cases habsent with
      | cons hv hvs => exact .cons (Field.check_eq_ok.mpr ⟨hv, htype⟩) (ih hvs)

/-- A row validates when it has the shape of the schema and no value is absent that must not be. -/
theorem validate_iff :
    row.validate schema = .ok () ↔ row.OfShape schema.shape ∧ row.AbsentWithin schema := by
  rw [validate_eq_ok, checkValues_eq_ok, checkValues_eq_ok, forall₂_check, forall₂_check]
  constructor
  · rintro ⟨⟨hvals, habsent⟩, hkeys, habsent'⟩
    exact ⟨⟨hvals, hkeys⟩, habsent, habsent'⟩
  · rintro ⟨⟨hvals, hkeys⟩, habsent, habsent'⟩
    exact ⟨⟨hvals, habsent⟩, hkeys, habsent'⟩

theorem AbsentWithin.mono {other : Schema} (h : row.AbsentWithin schema)
    (hless : schema.NoLaxerThan other) : row.AbsentWithin other := by
  have hall {fields fields' : List Field} {values : List Value}
      (hf : List.Forall₂ (fun f f' => f.nullable → f'.nullable) fields fields')
      (hv : List.Forall₂ (fun (f : Field) (v : Value) => v.isNull → f.nullable) fields values) :
      List.Forall₂ (fun (f : Field) (v : Value) => v.isNull → f.nullable) fields' values := by
    induction hf generalizing values with
    | nil =>
      cases hv
      exact .nil
    | cons hnullable _ ih =>
      cases hv with
      | cons habsent hrest => exact .cons (fun h => hnullable (habsent h)) (ih hrest)
  exact ⟨hall hless.1 h.vals, hall hless.2 h.keys⟩

end Row

namespace RowReader

variable {expected : Schema} {r r' : RowReader}

/-! ### The schema that is expected -/

/-- The reader expects the schema; and the schema of the stream, once it is known, has the same
types of columns. -/
structure Heeds (expected : Schema) (r : RowReader) : Prop where
  expected_eq : r.expected = some expected
  shape_eq : ∀ schema, r.schema = some schema → schema.shape = expected.shape

/-- What the reader heeded before, it heeds after. -/
def Loyal (expected : Schema) (r r' : RowReader) : Prop := r.Heeds expected → r'.Heeds expected

instance : IsPreorder RowReader (Loyal expected) where
  refl := fun _ h => h
  trans := fun _ _ _ h h' hr => h' (h hr)

theorem checkSchema_eq_ok {received : Schema} :
    checkSchema (some expected) received = .ok () ↔ received.shape = expected.shape := by
  rw [checkSchema, eq_comm (a := received.shape)]
  by_cases h : expected.shape = received.shape <;> simp [h]

/-- A schema is checked before it is adopted. -/
theorem always_readSchema_loyal : Always (Loyal expected) readSchema := by
  intro r hr
  obtain ⟨schema, -, h⟩ | ⟨hnone, frames, -, ⟨schema, hcheck, h⟩ | ⟨e, h⟩⟩ := readSchema_cases r
  · rw [h]
    exact hr
  · rw [h]
    rw [hr.expected_eq, checkSchema_eq_ok] at hcheck
    refine ⟨hr.expected_eq, ?_⟩
    rintro _ ⟨⟩
    exact hcheck
  · rw [h]
    exact ⟨hr.expected_eq, hr.shape_eq⟩

theorem steps_loyal : Steps (Loyal expected) where
  frames := fun _ _ _ h => ⟨h.expected_eq, h.shape_eq⟩
  schema := always_readSchema_loyal

/-- The rows that were not handed out yet do not matter. -/
theorem Heeds.with_current (h : r.Heeds expected) (current : List Row) :
    { r with current }.Heeds expected := ⟨h.expected_eq, h.shape_eq⟩

theorem heeds_readGroup (h : r.Heeds expected) {result : Except Error (Option RowGroup)}
    (hread : readGroup r = (result, r')) : r'.Heeds expected := by
  have hr' := steps_loyal.readGroup r h
  rwa [hread] at hr'

theorem heeds_readRow (h : r.Heeds expected) : (readRow r).2.Heeds expected := by
  fun_induction readRow r with
  | case1 r row current _ => exact h.with_current current
  | case2 r _ e r' hread | case3 r _ r' hread => exact heeds_readGroup h hread
  | case4 r _ g r' hread ih => exact ih ((heeds_readGroup h hread).with_current g.intoRows)

theorem heeds_drain (h : r.Heeds expected) : (drain r).2.Heeds expected := by
  fun_induction drain r with
  | case1 r e r' hread | case2 r r' hread => exact heeds_readGroup h hread
  | case3 r r' g hread d r'' hdrain ih =>
    have hlater := ih (heeds_readGroup h hread)
    rwa [hdrain] at hlater

theorem heeds_readAll (h : r.Heeds expected) : (readAll r).2.Heeds expected := by
  rw [readAll]
  dsimp only
  split
  · exact (heeds_drain h).with_current []
  · exact (heeds_drain h).with_current []

theorem Call.heeds (call : Call) (h : r.Heeds expected) : (call.after r).Heeds expected := by
  cases call with
  | schema => exact always_readSchema_loyal r h
  | group => exact steps_loyal.readGroup r h
  | row => exact heeds_readRow h
  | all => exact heeds_readAll h

theorem heeds_afterCalls (calls : List Call) (h : r.Heeds expected) :
    (afterCalls calls r).Heeds expected := by
  induction calls generalizing r with
  | nil => exact h
  | cons call calls ih => exact ih (call.heeds h)

/-! ### The rows that are handed out -/

/-- The rows that a call hands out. -/
def Call.rows : Call → RowReader → List Row
  | .schema, _ => []
  | .group, r => match (readGroup r).1 with
    | .ok (some g) => g.intoRows
    | _ => []
  | .row, r => match (readRow r).1 with
    | .ok (some next) => [next]
    | _ => []
  | .all, r => match (readAll r).1 with
    | .ok rows => rows
    | .error _ => []

theorem Call.validates (call : Call) (hsound : r.Sound) :
    ∀ row ∈ call.rows r, (call.after r).Validates row := by
  cases call with
  | schema => exact fun row hrow => absurd hrow List.not_mem_nil
  | group =>
    rw [rows, after]
    rcases hread : readGroup r with ⟨_ | _ | g, r'⟩
    · exact fun row hrow => absurd hrow List.not_mem_nil
    · exact fun row hrow => absurd hrow List.not_mem_nil
    · obtain ⟨schema, hs, hfits⟩ := (readGroup_carries hread).fits
      exact fun row hrow => ⟨schema, hs, hfits.validate hrow⟩
  | row =>
    have hvalid := (readRow_safe r).2
    rw [rows, after]
    rcases hread : readRow r with ⟨_ | _ | row, r'⟩
    · exact fun row hrow => absurd hrow List.not_mem_nil
    · exact fun row hrow => absurd hrow List.not_mem_nil
    · rw [hread] at hvalid
      exact List.forall_mem_singleton.mpr (hvalid row hsound rfl)
  | all =>
    rw [rows, after]
    rcases hread : readAll r with ⟨_ | all, r'⟩
    · exact fun row hrow => absurd hrow List.not_mem_nil
    · exact (readAll_safe hsound hread).1

/-- Whatever the bytes are, and whatever was asked of a reader before: a row that it hands out fits
the schema of the stream, and this schema has the column types of the expected one. So the row has
the expected number of values and keys, each of the expected type or absent. It validates against
the expected schema just if its absent values are where that one has them; and it does so in any
case if the stream announces no column as nullable that is not expected to be. -/
theorem rows_have_expected_columns (bytes : Bytes) (expected : Schema) (maxMessage maxRows : Nat)
    (calls : List Call) (call : Call) :
    ∀ row ∈ call.rows (afterCalls calls (ofBytes bytes (some expected) maxMessage maxRows)),
      row.OfShape expected.shape ∧
        (row.validate expected = .ok () ↔ row.AbsentWithin expected) ∧
        ∃ announced, (call.after (afterCalls calls
            (ofBytes bytes (some expected) maxMessage maxRows))).schema = some announced ∧
          announced.shape = expected.shape ∧ row.validate announced = .ok () ∧
          (announced.NoLaxerThan expected → row.validate expected = .ok ()) := by
  intro row hrow
  have hstart : (ofBytes bytes (some expected) maxMessage maxRows).Heeds expected := ⟨rfl, nofun⟩
  have hsound := (onward_afterCalls calls (ofBytes bytes (some expected) maxMessage maxRows)).sound
    fun row hrow => absurd hrow List.not_mem_nil
  obtain ⟨announced, hschema, hvalid⟩ := call.validates hsound row hrow
  have hshape := (call.heeds (heeds_afterCalls calls hstart)).shape_eq announced hschema
  obtain ⟨htypes, habsent⟩ := Row.validate_iff.mp hvalid
  rw [hshape] at htypes
  refine ⟨htypes, Row.validate_iff.trans (and_iff_right htypes), announced, hschema, hshape, hvalid,
    fun hless => Row.validate_iff.mpr ⟨htypes, habsent.mono hless⟩⟩

/-- The stream has a nullable column, and a row without a value. The reader expects that a value is
never absent, and hands the row out. -/
theorem null_mem_rows :
    { vals := [.null] } ∈ Call.all.rows (ofBytes
      (streamBytes { fields := [⟨"n", .int64, true⟩] } [[{ vals := [.null] }]])
      (some { fields := [⟨"n", .int64, false⟩] }) 1000 10) := by
  decide +kernel

theorem rows_have_expected_columns_null :
    let stream := streamBytes { fields := [⟨"n", .int64, true⟩] } [[{ vals := [.null] }]]
    let expected : Schema := { fields := [⟨"n", .int64, false⟩] }
    { vals := [.null] } ∈ Call.all.rows (ofBytes stream (some expected) 1000 10) ∧
      Row.OfShape expected.shape { vals := [.null] } := by
  intro stream expected
  exact ⟨null_mem_rows, (rows_have_expected_columns stream expected 1000 10 [] .all _
    null_mem_rows).1⟩

theorem hands_out_unexpected_null :
    ¬ ∀ (bytes : Bytes) (expected : Schema) (maxMessage maxRows : Nat) (calls : List Call)
      (call : Call),
      ∀ row ∈ call.rows (afterCalls calls (ofBytes bytes (some expected) maxMessage maxRows)),
        row.validate expected = .ok () := by
  intro hall
  have hvalid := hall _ _ 1000 10 [] .all _ null_mem_rows
  exact absurd hvalid (by decide)

end RowReader

end StagedQuery
