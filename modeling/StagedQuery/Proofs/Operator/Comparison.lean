import StagedQuery.Operator.Movement
import StagedQuery.Proofs.Operator.Order
import StagedQuery.Proofs.Text.Utf8

/-!
# The order of values, their equality and their hashes agree

Sorting and merging rely on the order of values, dropping repeated rows on their equality, and
sending rows to the same place on the bytes by which they enter a hash. These three are one: values
compare equal exactly if they are the same value, floating-point data bit for bit, and exactly if
they enter a hash by the same bytes (`Value.eq_of_hashBytes`). So rows that an order does not tell
apart are not told apart by anything that looks at the sort keys only, and comparing rows is a total
preorder whatever the sort keys are and however many columns the rows have.
-/

namespace StagedQuery

namespace Bytes

theorem le32_injective : Function.Injective le32 := by
  intro a b h
  have ha := word32?_le32 a []
  rw [h, word32?_le32 b []] at ha
  cases ha
  rfl

theorem le64_injective : Function.Injective le64 := by
  intro a b h
  have ha := word64?_le64 a []
  rw [h, word64?_le64 b []] at ha
  cases ha
  rfl

end Bytes

theorem Utf8.encode_injective : Function.Injective Utf8.encode := by
  intro s t h
  have hs := decode_encode s
  rw [h, decode_encode t] at hs
  cases hs
  rfl

namespace Value

theorem rank_le (v : Value) : v.rank ≤ 8 := by cases v <;> simp [rank]

/-- The first byte tells the types apart. -/
theorem rank_of_hashBytes {a b : Value} (h : a.hashBytes = b.hashBytes) : a.rank = b.rank := by
  have hfirst := UInt8.toNat_inj.mpr (List.cons.inj h).1
  have ha := rank_le a
  have hb := rank_le b
  rw [UInt8.toNat_ofNat', UInt8.toNat_ofNat'] at hfirst
  omega

/-- Values that enter a hash by the same bytes are the same value. -/
theorem eq_of_hashBytes {a b : Value} (h : a.hashBytes = b.hashBytes) : a = b := by
  have hrank := rank_of_hashBytes h
  have hcontent := (List.cons.inj h).2
  have hint64 {m n : Int64} (h : Bytes.le64 m.toUInt64 = Bytes.le64 n.toUInt64) : m = n :=
    congrArg UInt64.toInt64 (Bytes.le64_injective h)
  cases a <;> cases b <;> try (simp [rank] at hrank; done)
  case null.null => rfl
  case boolean.boolean a b => cases a <;> cases b <;> first | rfl | cases hcontent
  case int32.int32 a b =>
    exact congrArg (fun bits : UInt32 => int32 bits.toInt32) (Bytes.le32_injective hcontent)
  case int64.int64 a b => exact congrArg _ (hint64 hcontent)
  case float32.float32 a b => exact congrArg _ (Bytes.le32_injective hcontent)
  case float64.float64 a b => exact congrArg _ (Bytes.le64_injective hcontent)
  case utf8.utf8 a b => exact congrArg _ (Utf8.encode_injective (List.append_cancel_right hcontent))
  case date.date a b => exact congrArg _ (hint64 hcontent)
  case timestamp.timestamp a b => exact congrArg _ (hint64 hcontent)

/-- The absent value comes first. -/
theorem compare_null (v : Value) : null.compare v = if v = null then .eq else .lt := by
  cases v <;> rfl

/-- Values are totally ordered, the absent value first. They compare equal exactly if they are the
same value, and exactly if they enter a hash by the same bytes. So comparing rows is a total
preorder, by whatever sort keys and whatever the columns that the rows have. -/
theorem order_equality_hash_agree (a b c : Value) (keys : List SortKey) (r s t : Row) :
    (a.compare a = .eq ∧ b.compare a = (a.compare b).swap ∧
      ((a.compare b).isLE → (b.compare c).isLE → (a.compare c).isLE)) ∧
    null.compare a = (if a = null then .eq else .lt) ∧
    (a.compare b = .eq ↔ a = b) ∧
    (a.hashBytes = b.hashBytes ↔ a.compare b = .eq) ∧
    Row.compareBy keys r r = .eq ∧
    Row.compareBy keys s r = (Row.compareBy keys r s).swap ∧
    ((Row.compareBy keys r s).isLE → (Row.compareBy keys s t).isLE →
      (Row.compareBy keys r t).isLE) := by
  refine ⟨⟨Std.ReflCmp.compare_self, Std.OrientedCmp.eq_swap, Std.TransCmp.isLE_trans⟩,
    compare_null a, compare_eq_eq, ?_, Std.ReflCmp.compare_self, Std.OrientedCmp.eq_swap,
    Std.TransCmp.isLE_trans⟩
  rw [compare_eq_eq]
  exact ⟨eq_of_hashBytes, congrArg hashBytes⟩

/-- A zero has a sign, and a number that is none has bits: each is equal to itself only. -/
example :
    (float64 0x8000000000000000).compare (float64 0) = .lt ∧
    (float32 0x7fc00001).compare (float32 0x7fc00000) = .gt ∧
    (float32 0x7fc00000).compare (float32 0x7f800000) = .gt ∧
    (float32 0xffc00000).compare (float32 0xff800000) = .lt := by
  decide

end Value

end StagedQuery
