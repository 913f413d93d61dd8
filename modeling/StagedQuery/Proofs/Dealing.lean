import Mathlib.Data.List.Flatten
import Mathlib.Data.List.Perm.Basic
import StagedQuery.Plan.Lowering

/-!
# Dealing a list

Things are dealt to so many hands: each goes to one of them, which it or its position determines.
Then nothing is lost and nothing is dealt twice (`perm_hands`). When they are dealt in turn, a hand
has every so many-th of them, and no hand has two more than another (`Dealt`).
-/

namespace StagedQuery

open scoped List

variable {α : Type}

theorem flatMap_range_single {n j : Nat} (h : j < n) (a : α) :
    (List.range n).flatMap (fun i => if i = j then [a] else []) = [a] := by
  induction n with
  | zero => omega
  | succ n ih =>
    rw [List.range_succ, List.flatMap_append, List.flatMap_singleton]
    by_cases hj : j = n
    · subst hj
      have hnone : (List.range j).flatMap (fun i => if i = j then [a] else []) = [] :=
        List.flatMap_eq_nil_iff.mpr fun i hi => if_neg (Nat.ne_of_lt (List.mem_range.mp hi))
      rw [hnone, if_pos rfl, List.nil_append]
    · rw [ih (by omega), if_neg (Ne.symm hj), List.append_nil]

/-- When each entry goes to the hand that is its key, the hands together have the list. -/
theorem perm_hands {n : Nat} {key : α → Nat} {as : List α} (h : ∀ a ∈ as, key a < n) :
    (List.range n).flatMap (fun i => as.filter fun a => key a = i) ~ as := by
  induction as with
  | nil => simp
  | cons a as ih =>
    obtain ⟨ha, has⟩ := List.forall_mem_cons.mp h
    have hsplit (i : Nat) : ((a :: as).filter fun a => key a = i) =
        (if i = key a then [a] else []) ++ as.filter fun a => key a = i := by
      by_cases hi : key a = i
      · simp [hi]
      · simp [hi, Ne.symm hi]
    calc (List.range n).flatMap (fun i => (a :: as).filter fun a => key a = i)
      _ = (List.range n).flatMap fun i =>
            (if i = key a then [a] else []) ++ as.filter fun a => key a = i := by simp only [hsplit]
      _ ~ (List.range n).flatMap (fun i => if i = key a then [a] else []) ++
            (List.range n).flatMap fun i => as.filter fun a => key a = i :=
        (List.flatMap_append_perm _ _ _).symm
      _ ~ [a] ++ as := by
        rw [flatMap_range_single ha]
        exact (ih has).append_left [a]

/-- In turn: of `n` hands, the one that comes `j` after the first to get an entry gets those at the
positions `j`, `j + n` and so on. -/
theorem getElem?_hand {n j : Nat} (hj : j < n) (start : Nat) (as : List α) (k : Nat) :
    (((as.zipIdx start).filter fun a => a.2 % n = (start + j) % n).map (·.1))[k]? =
      as[j + k * n]? := by
  induction as generalizing start j k with
  | nil => simp
  | cons a as ih =>
    rw [List.zipIdx_cons, List.filter_cons]
    cases j with
    | zero =>
      rw [Nat.add_zero, if_pos (decide_eq_true rfl), List.map_cons, Nat.zero_add]
      cases k with
      | zero => simp
      | succ k =>
        -- from here on this hand is the last of the `n` to get an entry
        have hround := ih (by omega : n - 1 < n) (start + 1) k
        rw [show start + 1 + (n - 1) = start + n by omega, Nat.add_mod_right] at hround
        rw [List.getElem?_cons_succ, hround, Nat.succ_mul,
          show k * n + n = n - 1 + k * n + 1 by omega, List.getElem?_cons_succ]
    | succ j =>
      have hother : start % n ≠ (start + (j + 1)) % n := by
        intro hsame
        have hzero := Nat.sub_mod_eq_zero_of_mod_eq hsame.symm
        rw [Nat.add_sub_cancel_left, Nat.mod_eq_of_lt hj] at hzero
        cases hzero
      have hnext := ih (by omega : j < n) (start + 1) k
      rw [if_neg (by simpa using hother), show start + (j + 1) = start + 1 + j by omega, hnext,
        show j + 1 + k * n = j + k * n + 1 by omega, List.getElem?_cons_succ]

/-- The list is dealt to `n` hands, one after the other. -/
structure Dealt (n : Nat) (as : List α) (hands : List (List α)) : Prop where
  length_eq : hands.length = n
  /-- Hand `j` has the entries at the positions `j`, `j + n`, `j + 2 n` and so on, in order. -/
  hand_eq : ∀ j hand, hands[j]? = some hand → ∀ k, hand[k]? = as[j + k * n]?
  /-- Each entry is in one hand, once. -/
  perm : hands.flatten ~ as
  even : ∀ hand ∈ hands, ∀ hand' ∈ hands, hand.length ≤ hand'.length + 1

theorem everyNth_eq (n j : Nat) (as : List α) :
    everyNth n j as = (as.zipIdx.filter fun a => a.2 % n = j).map (·.1) := by
  rw [everyNth, ← List.filterMap_eq_map, List.filterMap_filter]
  refine List.filterMap_congr fun a _ => ?_
  by_cases h : a.2 % n = j <;> simp [h]

/-- The list is dealt in turn when every hand takes every `n`-th entry. -/
theorem everyNth_dealt {n : Nat} (hn : 0 < n) (as : List α) :
    Dealt n as ((List.range n).map fun j => everyNth n j as) := by
  have hhand (j : Nat) (hj : j < n) (k : Nat) : (everyNth n j as)[k]? = as[j + k * n]? := by
    have hturn := getElem?_hand hj 0 as k
    rwa [Nat.zero_add, Nat.mod_eq_of_lt hj, ← everyNth_eq] at hturn
  refine ⟨by simp, ?_, ?_, ?_⟩
  · intro j hand hj
    obtain ⟨hlt, rfl⟩ := List.getElem?_eq_some_iff.mp hj
    rw [List.length_map, List.length_range] at hlt
    simpa only [List.getElem_map, List.getElem_range] using hhand j hlt
  · have hkeys : ∀ a ∈ as.zipIdx, a.2 % n < n := fun a _ => Nat.mod_lt _ hn
    have hall := (perm_hands hkeys).map (·.1)
    rw [List.map_flatMap, List.zipIdx_map_fst] at hall
    simpa only [everyNth_eq, ← List.flatMap_def] using hall
  · have hlength (j : Nat) (hj : j < n) (m : Nat) :
        (everyNth n j as).length ≤ m ↔ as.length ≤ j + m * n := by
      rw [← List.getElem?_eq_none_iff, hhand j hj, List.getElem?_eq_none_iff]
    intro hand hhand hand' hhand'
    obtain ⟨i, hi, rfl⟩ := List.mem_map.mp hhand
    obtain ⟨j, hj, rfl⟩ := List.mem_map.mp hhand'
    have hend := (hlength j (List.mem_range.mp hj) _).mp (Nat.le_refl _)
    rw [hlength i (List.mem_range.mp hi), Nat.succ_mul]
    have := List.mem_range.mp hj
    omega

end StagedQuery
