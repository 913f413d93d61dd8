import StagedQuery.Operator.Basic

/-!
# Operators that order rows and drop repeated ones

Rows are compared by sort keys, the first key first; a column that a row does not have
counts as absent, and key columns take no part. Sorting is stable. Merging writes at
every moment the least of the rows that head the inputs, that of the earlier input among
equal ones; an input that is not sorted stays in its own order.

Distinct passes on the first of equal rows, where rows are equal that agree in all values
and all key values, and logs how many it kept and dropped.
-/

namespace StagedQuery

/-- Compare two rows by one sort key. -/
def SortKey.compare (key : SortKey) (a b : Row) : Ordering :=
  let order := (a.vals[key.column]?.getD .null).compare (b.vals[key.column]?.getD .null)
  if key.ascending then order else order.swap

/-- Compare two rows by sort keys: the first key that tells them apart decides. -/
def Row.compareBy : List SortKey → Row → Row → Ordering
  | [], _, _ => .eq
  | key :: keys, a, b => (key.compare a b).then (Row.compareBy keys a b)

/-- Whether a row may stand before another. -/
def Row.mayPrecede (keys : List SortKey) (a b : Row) : Bool := Row.compareBy keys a b != .gt

/-- Sort rows; equal rows keep their order. -/
def Row.sortBy (keys : List SortKey) (rows : List Row) : List Row :=
  rows.mergeSort (Row.mayPrecede keys)

/-! ### Merging -/

/-- The rows that an input still brings, and the error that ends them, if one does. -/
structure Feed where
  rows : List Row
  fault : Option Error

namespace Feed

/-- The error of the first feed that has come to its error. -/
def stalled? (feeds : List Feed) : Option Error :=
  feeds.findSome? fun f => if f.rows.isEmpty then f.fault else none

/-- The number of rows of all feeds. -/
def total (feeds : List Feed) : Nat := feeds.foldr (fun f n => f.rows.length + n) 0

/-- Take the least row that heads a feed, that of the earliest feed among equal ones. -/
def takeLeast? (keys : List SortKey) : List Feed → Option (Row × List Feed)
  | [] => none
  | feed :: feeds =>
    match feed.rows, takeLeast? keys feeds with
    | [], none => none
    | [], some (least, rest) => some (least, feed :: rest)
    | row :: rows, none => some (row, { feed with rows } :: feeds)
    | row :: rows, some (least, rest) =>
      if Row.mayPrecede keys row least then some (row, { feed with rows } :: feeds)
      else some (least, feed :: rest)

theorem total_takeLeast? {keys : List SortKey} : ∀ {feeds rest : List Feed} {row : Row},
    takeLeast? keys feeds = some (row, rest) → total rest + 1 = total feeds
  | [], _, _, h => by simp [takeLeast?] at h
  | feed :: feeds, rest, row, h => by
    have ih := @total_takeLeast? keys feeds
    simp only [takeLeast?] at h
    split at h
    · simp at h
    · rename_i least others _ hl
      simp only [Option.some.injEq, Prod.mk.injEq] at h
      obtain ⟨-, rfl⟩ := h
      have := ih hl
      simp only [total, List.foldr_cons] at this ⊢
      omega
    · rename_i r rows hr _
      simp only [Option.some.injEq, Prod.mk.injEq] at h
      obtain ⟨-, rfl⟩ := h
      simp only [total, List.foldr_cons, hr, List.length_cons]
      omega
    · rename_i r rows least others hr hl
      split at h <;> simp only [Option.some.injEq, Prod.mk.injEq] at h <;> obtain ⟨-, rfl⟩ := h
      · simp only [total, List.foldr_cons, hr, List.length_cons]
        omega
      · have := ih hl
        simp only [total, List.foldr_cons] at this ⊢
        omega

/-- Merge feeds: the rows in the order in which they are taken, up to the first error. -/
def merge (keys : List SortKey) (feeds : List Feed) : Feed :=
  match stalled? feeds with
  | some e => ⟨[], some e⟩
  | none =>
    match _h : takeLeast? keys feeds with
    | none => ⟨[], none⟩
    | some (row, rest) =>
      let merged := merge keys rest
      { merged with rows := row :: merged.rows }
termination_by total feeds
decreasing_by
  have := total_takeLeast? _h
  omega

end Feed

namespace Operator

/-- The sort keys of a job that orders rows. -/
def sortKeys (job : StageJob) : Action Stage (List SortKey) :=
  match job.kind with
  | .orderByLocal keys => pure keys
  | .orderByGlobal keys => pure keys
  | _ => wrongKind "order-by" job

/-- All rows of all inputs, sorted, to the first output. -/
def sort : Operator := fun job inputs => do
  let keys ← sortKeys job
  let rows ← .ofExcept (Delivery.allRows inputs)
  Stage.onOutput 0 (RowWriter.writeRows (Row.sortBy keys rows))

/-- The inputs merged, to the first output. -/
def merge : Operator := fun job inputs => do
  let keys ← sortKeys job
  let merged := Feed.merge keys (inputs.map fun d => ⟨d.rows, d.fault⟩)
  Action.each (Stage.write 0) merged.rows
  match merged.fault with
  | some e => .fail e
  | none => pure ()

/-- What distinct has seen: the rows it kept, and how many it dropped. -/
structure Seen where
  kept : List Row := []
  dropped : Nat := 0

/-- The first of equal rows to the first output. -/
def distinct : Operator := fun _ inputs => do
  let look (seen : Seen) (row : Row) : Action Stage Seen := do
    if row ∈ seen.kept then pure { seen with dropped := seen.dropped + 1 }
    else
      Stage.write 0 row
      pure { seen with kept := row :: seen.kept }
  let seen ← Action.fold (Delivery.foldRows look) {} inputs
  Stage.log .info s!"distinct kept {seen.kept.length} rows, dropped {seen.dropped}"

end Operator

end StagedQuery
