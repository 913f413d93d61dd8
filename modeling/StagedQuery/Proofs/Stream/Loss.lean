import Mathlib.Data.List.Flatten
import StagedQuery.Proofs.Stream.Cut

/-!
# What a writer loses

A writer whose transport has refused something may be used on, and may be closed. Is a row lost
then that the writer had accepted? A batch of which a part is out shows: a reader does not get to
the end. But a batch is taken out of the buffer before its first message is offered; when that one
is refused, or the batch cannot be encoded, nothing of it is out, and nothing of it is kept.
`RowWriter.close_loses_row` is a stream that ends without a row that was accepted.

That is the only way to lose a row (`RowWriter.drain_of_close`): a reader that gets to the end has
got all rows of all batches but those of which nothing went out.
-/

namespace StagedQuery.RowWriter

/-- The rows whose own call succeeds when some calls are made. -/
def accepted (calls : List Call) (w : RowWriter) : List Row := acceptedOf (trace calls w)

/-- The batches that some calls and a last flush take out of the buffer. -/
def attempts (calls : List Call) (w : RowWriter) : List Attempt :=
  attemptsOf (trace calls w) ++ (goOn calls w).attempt.toList

/-- Whichever calls were made and whichever pieces were refused: when the writer can be closed, a
reader of the stream, which may break, either gets an error or gets the rows of all batches of
which something went out, in the order in which they were given. Unless nothing went out of some
batch, these are all rows whose own call succeeded. -/
theorem drain_of_close {sink : Sink} {schema : Schema} {threshold : Nat} {calls : List Call}
    {w : RowWriter} (hclose : close (goOn calls (create sink schema threshold)) = (.ok (), w)) :
    let start := create sink schema threshold
    ∃ stream, w.frames.sink.bytes = sink.bytes ++ stream ∧
      ∀ r : RowReader, r.Fresh → r.frames.rest <+: stream →
        (RowReader.drain r).1.fault ≠ none ∨
        (RowReader.drain r).1.rows =
            ((attempts calls start).filter (0 < ·.sent)).flatMap (·.rows) ∧
          (RowReader.drain r).1.rows.Sublist (calls.flatMap Call.rows) ∧
          ((∀ a ∈ attempts calls start, 0 < a.sent) →
            (accepted calls start).Sublist (RowReader.drain r).1.rows) := by
  intro start
  obtain ⟨b, appended, hrecords, haccounts⟩ :=
    run_records (create_records sink schema threshold) calls
  obtain ⟨hpending, -, stream, hbytes, hended⟩ := close_records hrecords hclose
  have hattempts : b.attempts ++ (goOn calls start).attempt.toList = attempts calls start := by
    rw [haccounts.attempts_eq]
    rfl
  have happended : appended = (attempts calls start).flatMap (·.rows) := by
    rw [← List.nil_append appended, haccounts.rows_eq, hpending, attempts, List.flatMap_append]
  rw [hattempts] at hended
  refine ⟨stream, hbytes, ?_⟩
  intro r hfresh hprefix
  by_cases hclean : (RowReader.drain r).1.fault = none
  · right
    obtain ⟨-, hrows⟩ := RowReader.drain_ended hended hfresh hprefix hclean
    refine ⟨hrows, ?_, ?_⟩
    · rw [hrows]
      refine (List.Sublist.flatMap List.filter_sublist Attempt.rows).trans ?_
      rw [← happended]
      exact haccounts.appended_sublist
    · intro hall
      rw [hrows, List.filter_eq_self.mpr fun a ha => decide_eq_true (hall a ha), ← happended]
      exact haccounts.accepted_sublist
  · left
    exact hclean

/-- A transport that refuses the piece of a number, and takes all others. -/
def refusing (number : Nat) : Sink where
  refuses offered _ := if offered = number then some (.network "broken pipe") else none

/-- The announcement is refused, and the row that asked for it waits: it goes out with the next
one, though its call has failed. -/
theorem drain_of_close_announced_late :
    let row : Row := { vals := [] }
    let calls : List Call := [.row row, .row row]
    let start := create (refusing 0) { fields := [] } 1
    accepted calls start = [row] ∧
      ∃ w stream, close (goOn calls start) = (.ok (), w) ∧ w.frames.sink.bytes = stream ∧
        ∀ r : RowReader, r.Fresh → r.frames.rest <+: stream →
          (RowReader.drain r).1.fault ≠ none ∨ (RowReader.drain r).1.rows = [row, row] := by
  intro row calls start
  have hclosed : (close (goOn calls start)).1 = .ok () := by decide +kernel
  have haccepted : accepted calls start = [row] := by decide +kernel
  have hattempts : attempts calls start = [⟨[row, row], 1⟩] := by decide +kernel
  rcases hclose : close (goOn calls start) with ⟨result, w⟩
  rw [hclose] at hclosed
  obtain rfl : result = .ok () := hclosed
  obtain ⟨stream, hbytes, hdrain⟩ := drain_of_close hclose
  refine ⟨haccepted, w, stream, rfl, hbytes, ?_⟩
  intro r hfresh hprefix
  obtain hfault | ⟨hrows, -⟩ := hdrain r hfresh hprefix
  · exact .inl hfault
  · right
    rw [hrows, hattempts]
    rfl

/-- The row count of the only batch is refused: the batch is gone, and the stream ends without it,
though the first of its rows had been accepted. -/
theorem close_loses_row :
    let schema : Schema := { fields := [⟨"n", .int64, false⟩] }
    let calls : List Call := [.row { vals := [.int64 1] }, .row { vals := [.int64 2] }]
    let start := create (refusing 1) schema 2
    let ended := close (goOn calls start)
    let delivery := (RowReader.drain { frames := { rest := ended.2.frames.sink.bytes } }).1
    ended.1 = .ok () ∧ accepted calls start = [{ vals := [.int64 1] }] ∧
      delivery.fault = none ∧ delivery.rows = [] := by
  decide +kernel

end StagedQuery.RowWriter
