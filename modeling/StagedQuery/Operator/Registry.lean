import StagedQuery.Operator.Movement
import StagedQuery.Operator.Order
import StagedQuery.Operator.Sample

/-!
# Registries of operators

A registry says which operator runs the jobs of a tag. The kinds that only move, order or
drop rows have their operators here; the others depend on storage or on expressions, and
are registered by whoever embeds the library.
-/

namespace StagedQuery

/-- The operators by tag; of several for one tag the first counts. -/
structure Registry where
  entries : List (JobTag × Operator) := []

namespace Registry

/-- Register an operator for a tag, in place of the one before. -/
def register (r : Registry) (tag : JobTag) (operator : Operator) : Registry :=
  { entries := (tag, operator) :: r.entries }

/-- The operator for a tag. -/
def get? (r : Registry) (tag : JobTag) : Option Operator := r.entries.lookup tag

/-- Whether there is an operator for a tag. -/
def contains (r : Registry) (tag : JobTag) : Bool := (r.get? tag).isSome

/-- The operators for the kinds that move, order or drop rows. -/
def builtins : Registry where
  entries :=
    [(.duplicate, .duplicate), (.balance, .balance), (.shuffle, .shuffle),
      (.union, .concatenate), (.aggregate, .concatenate), (.limit, .limit),
      (.orderByLocal, .sort), (.orderByGlobal, .merge),
      (.distinctLocal, .distinct), (.distinctGlobal, .distinct)]

/-- These operators, and the sample ones for scans and joins. -/
def withSamples : Registry :=
  ((builtins.register .scan Operator.scanNumbers).register .join Operator.joinInMemory).register
    .hashJoin Operator.joinInMemory

end Registry

end StagedQuery
