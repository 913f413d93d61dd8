import StagedQuery.Value

/-!
# Values are totally ordered

Comparing two values comes down to comparing their types, then a number and then a text that say
what they hold (`Value.compare_eq`). So it is transitive across all types, and swapping the two
values swaps the result; and values that compare equal are the same (`Value.eq_of_compare`).
-/

namespace StagedQuery.Value

/-- The number that a value is compared by among the values of its type. -/
def number : Value → Int
  | boolean b => if b then 1 else 0
  | int32 n => n.toInt
  | int64 n => n.toInt
  | float32 bits => totalOrderKey 32 bits.toNat
  | float64 bits => totalOrderKey 64 bits.toNat
  | date n => n.toInt
  | timestamp n => n.toInt
  | _ => 0

/-- The text that a value is compared by among the values of its type. -/
def text : Value → String
  | utf8 s => s
  | _ => ""

theorem compare_of_rank_ne {a b : Value} (h : a.rank ≠ b.rank) :
    a.compare b = Ord.compare a.rank b.rank := by
  cases a <;> cases b <;> first | rfl | exact absurd rfl h

theorem compare_of_rank_eq {a b : Value} (h : a.rank = b.rank) :
    a.compare b = (Ord.compare a.number b.number).then (Ord.compare a.text b.text) := by
  cases a <;> cases b <;> try (simp [rank] at h; done)
  case boolean.boolean a b => cases a <;> cases b <;> rfl
  all_goals simp [Value.compare, number, text, Std.ReflOrd.compare_self]

theorem compare_eq :
    Value.compare =
      compareLex (compareOn rank) (compareLex (compareOn number) (compareOn text)) := by
  funext a b
  rw [compareLex, compareLex, compareOn, compareOn, compareOn]
  by_cases h : a.rank = b.rank
  · rw [compare_of_rank_eq h, h, Nat.compare_eq_eq.mpr rfl]
    rfl
  · rw [compare_of_rank_ne h]
    cases hc : Ord.compare a.rank b.rank with
    | lt | gt => rfl
    | eq => exact absurd (Nat.compare_eq_eq.mp hc) h

instance : Std.TransCmp Value.compare := by
  rw [compare_eq]
  infer_instance

theorem totalOrderKey_inj {w a b : Nat} (h : totalOrderKey w a = totalOrderKey w b) : a = b := by
  simp only [totalOrderKey] at h
  split at h <;> split at h <;> omega

/-- Values that compare equal are the same value, floating-point data included. -/
theorem eq_of_compare {a b : Value} (h : a.compare b = .eq) : a = b := by
  have hrank : a.rank = b.rank := by
    refine Decidable.byContradiction fun hne => ?_
    rw [compare_of_rank_ne hne] at h
    exact hne (Nat.compare_eq_eq.mp h)
  rw [compare_of_rank_eq hrank, Ordering.then_eq_eq] at h
  have hnumber : a.number = b.number := Std.LawfulEqOrd.eq_of_compare h.1
  have htext : a.text = b.text := Std.LawfulEqOrd.eq_of_compare h.2
  cases a <;> cases b <;> try (simp [rank] at hrank; done)
  case null.null => rfl
  case boolean.boolean a b => cases a <;> cases b <;> first | rfl | cases hnumber
  case int32.int32 a b => exact congrArg _ (Int32.toInt_inj.mp hnumber)
  case int64.int64 a b => exact congrArg _ (Int64.toInt_inj.mp hnumber)
  case float32.float32 a b =>
    exact congrArg _ (UInt32.toNat_inj.mp (totalOrderKey_inj hnumber))
  case float64.float64 a b =>
    exact congrArg _ (UInt64.toNat_inj.mp (totalOrderKey_inj hnumber))
  case utf8.utf8 a b => exact congrArg _ htext
  case date.date a b => exact congrArg _ (Int64.toInt_inj.mp hnumber)
  case timestamp.timestamp a b => exact congrArg _ (Int64.toInt_inj.mp hnumber)

theorem compare_eq_eq {a b : Value} : a.compare b = .eq ↔ a = b :=
  ⟨eq_of_compare, fun h => h ▸ Std.ReflCmp.compare_self⟩

end StagedQuery.Value
