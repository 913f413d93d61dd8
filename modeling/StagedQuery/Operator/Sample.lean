import StagedQuery.Operator.Movement

/-!
# Sample operators

Operators that need no storage and no expressions, to run whole queries with. The scan of
numbers takes the names of its files for its rows: the file `12` holds the row of the
number 12. The file `bad` cannot be read, and reading the file `hang` never ends. The join
keeps its left side in memory and matches the rows of the right side one after the other.
-/

namespace StagedQuery

/-- The number that a name spells: decimal digits, with or without a sign. -/
def numberOfName? (name : String) : Option Int64 :=
  let (negative, digits) := match name.toList with
    | '-' :: cs => (true, cs)
    | '+' :: cs => (false, cs)
    | cs => (false, cs)
  if digits.isEmpty ∨ !digits.all (fun c => '0' ≤ c ∧ c ≤ '9') then none
  else
    let magnitude : Int := digits.foldl (fun n c => n * 10 + (c.toNat - '0'.toNat)) 0
    let value := if negative then -magnitude else magnitude
    if -0x8000000000000000 ≤ value ∧ value < 0x8000000000000000 then some (Int64.ofInt value)
    else none

namespace Operator

/-- Write the row of a file of numbers. -/
def scanNumber (file : String) : Action Stage Unit :=
  if file = "hang" then .fail .wouldBlock
  else if file = "bad" then .fail (.taskFailed "unreadable file bad")
  else match numberOfName? file with
    | some n => Stage.write 0 { vals := [.int64 n] }
    | none => .fail (.taskFailed s!"bad number {file}")

/-- The rows of all files, then those of the files of all partitions. -/
def scanNumbers : Operator := fun job _ =>
  match job.kind with
  | .scan _ partitions files =>
    Action.each scanNumber (files ++ partitions.flatMap (·.files))
  | _ => wrongKind "scan" job

/-- The key columns of both sides of a join; a join of nested loops has none. -/
def joinKeys : JobKind → List Nat × List Nat
  | .hashJoin _ leftKeys rightKeys => (leftKeys, rightKeys)
  | _ => ([], [])

/-- Each right row with every left row that has the same key, in the order of the left. -/
def joinInMemory : Operator := fun job inputs => do
  let (leftKeys, rightKeys) := joinKeys job.kind
  let left ← .ofExcept (Delivery.allRows (inputs.take job.leftInputs))
  let right ← .ofExcept (Delivery.allRows (inputs.drop job.leftInputs))
  let keyed := left.map fun row => (row.keyValues leftKeys, row)
  let pairs := right.flatMap fun row =>
    let key := row.keyValues rightKeys
    keyed.filterMap fun (k, l) => if k = key then some { vals := l.vals ++ row.vals } else none
  Action.each (Stage.write 0) pairs

end Operator

end StagedQuery
