import StagedQuery.Proofs.Operator.Movement

/-!
# Operators that drop rows

Distinct and limit hand out a part of the rows that they read. What is left of some rows is said
here without running anything: of distinct the *first occurrences* (`Row.firsts`), the rows that
are not the same as an earlier one, value by value and key value by key value; of limit as many
rows from the front as it may pass on. Both operators hand out exactly that
(`Operator.distinct_selects`, `Operator.limit_selects`).

Dropping rows of the parts first changes nothing (`Row.firsts_parts`, `Row.take_parts`). For the
limit that is so because what a part lacks is behind `count` rows of this part, for distinct because
a row that was dropped is the same as one that stands before it.
-/

namespace StagedQuery

namespace Row

/-! ### Rows that are the same -/

/-- Two rows are the same: as many values and as many key values, which compare equal one for
one. -/
def same (a b : Row) : Bool :=
  let equal (v w : Value) := v.compare w == .eq
  a.vals.isEqv b.vals equal && a.keys.isEqv b.keys equal

/-- The bytes by which a row enters a hash: its values and its key values, each counted. -/
def hashBytes (row : Row) : Bytes :=
  let counted (values : List Value) :=
    Bytes.le64 (UInt64.ofNat values.length) ++ values.flatMap Value.hashBytes
  counted row.vals ++ counted row.keys

theorem isEqv_iff {as bs : List Value} :
    as.isEqv bs (fun v w => v.compare w == .eq) = true ↔ as = bs := by
  induction as generalizing bs with
  | nil => cases bs <;> simp
  | cons a as ih =>
    cases bs with
    | nil => simp
    | cons b bs => simp [List.isEqv, ih, Value.compare_eq_eq]

theorem same_iff {a b : Row} : a.same b = true ↔ a = b := by
  obtain ⟨vals, keys⟩ := a
  obtain ⟨vals', keys'⟩ := b
  rw [same, Bool.and_eq_true, isEqv_iff, isEqv_iff, Row.mk.injEq]

/-- Whoever looks for a row among those of its hash only, finds it wherever it is. -/
theorem found_by_hash (hash : Bytes → UInt64) (row : Row) (kept : List Row) :
    (kept.any fun k => hash k.hashBytes == hash row.hashBytes && row.same k) =
      decide (row ∈ kept) := by
  rw [Bool.eq_iff_iff, decide_eq_true_iff, List.any_eq_true]
  constructor
  · rintro ⟨k, hk, hfound⟩
    rwa [same_iff.mp (Bool.and_eq_true_iff.mp hfound).2]
  · intro hrow
    refine ⟨row, hrow, ?_⟩
    rw [beq_self_eq_true, same_iff.mpr rfl]
    rfl

/-! ### First occurrences -/

/-- The rows that are not the same as an earlier one, in their order. -/
def firsts (rows : List Row) : List Row :=
  rows.zipIdx.filterMap fun (row, i) => if (rows.take i).any row.same then none else some row

/-- Of some rows, those that are neither among the rows seen before nor the same as an earlier
one. -/
def novel (seen : List Row) : List Row → List Row
  | [] => []
  | row :: rows => if row ∈ seen then novel seen rows else row :: novel (row :: seen) rows

variable {seen seen' : List Row}

/-- Only what was seen counts, not how often or in which order. -/
theorem novel_congr (h : ∀ row, row ∈ seen ↔ row ∈ seen') (rows : List Row) :
    novel seen rows = novel seen' rows := by
  induction rows generalizing seen seen' with
  | nil => rfl
  | cons row rows ih =>
    rw [novel, novel]
    by_cases hrow : row ∈ seen
    · rw [if_pos hrow, if_pos ((h row).mp hrow), ih h]
    · rw [if_neg hrow, if_neg (mt (h row).mpr hrow)]
      refine congrArg (row :: ·) (ih fun r => ?_)
      rw [List.mem_cons, List.mem_cons, h r]

theorem novel_append (seen rows rows' : List Row) :
    novel seen (rows ++ rows') = novel seen rows ++ novel (rows ++ seen) rows' := by
  induction rows generalizing seen with
  | nil => rfl
  | cons row rows ih =>
    rw [List.cons_append, novel, novel]
    by_cases hrow : row ∈ seen
    · rw [if_pos hrow, if_pos hrow, ih]
      refine congrArg (novel seen rows ++ ·) (novel_congr (fun r => ?_) rows')
      rw [List.cons_append, List.mem_cons]
      constructor
      · exact .inr
      · rintro (rfl | hr)
        · exact List.mem_append_right rows hrow
        · exact hr
    · rw [if_neg hrow, if_neg hrow, ih, List.cons_append]
      refine congrArg (row :: novel (row :: seen) rows ++ ·) (novel_congr (fun r => ?_) rows')
      simp only [List.cons_append, List.mem_append, List.mem_cons]
      tauto

theorem mem_novel (seen rows : List Row) (r : Row) :
    r ∈ novel seen rows ++ seen ↔ r ∈ rows ++ seen := by
  induction rows generalizing seen with
  | nil => rfl
  | cons row rows ih =>
    rw [novel]
    by_cases hrow : row ∈ seen
    · rw [if_pos hrow, ih, List.cons_append, List.mem_cons]
      constructor
      · exact .inr
      · rintro (rfl | hr)
        · exact List.mem_append_right rows hrow
        · exact hr
    · have hrows := ih (row :: seen)
      rw [if_neg hrow]
      simp only [List.mem_append, List.cons_append, List.mem_cons] at hrows ⊢
      tauto

/-- Rows that are dropped early would be dropped later too. -/
theorem novel_novel (h : seen' ⊆ seen) (rows : List Row) :
    novel seen (novel seen' rows) = novel seen rows := by
  induction rows generalizing seen seen' with
  | nil => rfl
  | cons row rows ih =>
    rw [novel]
    by_cases hrow' : row ∈ seen'
    · rw [if_pos hrow', novel, if_pos (h hrow'), ih h]
    · rw [if_neg hrow', novel, novel]
      by_cases hrow : row ∈ seen
      · rw [if_pos hrow, if_pos hrow, ih (List.cons_subset.mpr ⟨hrow, h⟩)]
      · rw [if_neg hrow, if_neg hrow, ih (List.cons_subset_cons row h)]

theorem novel_eq (seen rows : List Row) :
    novel seen rows = rows.zipIdx.filterMap fun (row, i) =>
      if row ∈ rows.take i ++ seen then none else some row := by
  induction rows using List.reverseRecOn with
  | nil => rfl
  | append_singleton rows row ih =>
    have hbefore : ((rows ++ [row]).zipIdx).filterMap (fun (r, i) =>
        if r ∈ (rows ++ [row]).take i ++ seen then none else some r) =
          novel seen rows ++ if row ∈ rows ++ seen then [] else [row] := by
      rw [List.zipIdx_append, List.filterMap_append, ih]
      congr 1
      · refine List.filterMap_congr fun ⟨r, i⟩ hr => ?_
        have hi : i ≤ rows.length := Nat.le_of_lt (List.snd_lt_of_mem_zipIdx hr)
        simp only [List.take_append_of_le_length hi]
      · by_cases hrow : row ∈ rows ++ seen <;> simp_all
    rw [novel_append, hbefore, novel]
    by_cases hrow : row ∈ rows ++ seen <;> simp [hrow, novel]

theorem firsts_eq (rows : List Row) : firsts rows = novel [] rows := by
  rw [novel_eq, firsts]
  refine List.filterMap_congr fun ⟨row, i⟩ _ => ?_
  have hsame : ((rows.take i).any row.same = true) = (row ∈ rows.take i ++ []) := by
    rw [List.append_nil, List.any_eq_true]
    refine propext ⟨?_, fun h => ⟨row, h, same_iff.mpr rfl⟩⟩
    rintro ⟨r, hr, hsame⟩
    rwa [same_iff.mp hsame]
  simp only [hsame]

theorem novel_sublist (seen rows : List Row) : (novel seen rows).Sublist rows := by
  induction rows generalizing seen with
  | nil => exact .slnil
  | cons row rows ih =>
    rw [novel]
    split
    · exact (ih seen).cons row
    · exact (ih (row :: seen)).cons_cons row

theorem firsts_sublist (rows : List Row) : (firsts rows).Sublist rows :=
  firsts_eq rows ▸ novel_sublist [] rows

/-! ### Parts -/

/-- Dropping repeated rows of the parts first changes nothing. -/
theorem firsts_parts (parts : List (List Row)) :
    firsts (parts.map firsts).flatten = firsts parts.flatten := by
  suffices h : ∀ seen, novel seen (parts.map firsts).flatten = novel seen parts.flatten by
    rw [firsts_eq, firsts_eq, h]
  intro seen
  induction parts generalizing seen with
  | nil => rfl
  | cons part parts ih =>
    rw [List.map_cons, List.flatten_cons, List.flatten_cons, novel_append, novel_append, ih,
      firsts_eq, novel_novel (List.nil_subset seen)]
    refine congrArg (novel seen part ++ ·) (novel_congr (fun row => ?_) _)
    have hmem := mem_novel [] part row
    rw [List.append_nil, List.append_nil] at hmem
    rw [List.mem_append, List.mem_append, hmem]

/-- Cutting the parts first changes nothing. -/
theorem take_parts (count : Nat) (parts : List (List Row)) :
    ((parts.map (·.take count)).flatten).take count = parts.flatten.take count := by
  suffices h : ∀ n ≤ count,
      ((parts.map (·.take count)).flatten).take n = parts.flatten.take n from h count (Nat.le_refl _)
  induction parts with
  | nil => exact fun _ _ => rfl
  | cons part parts ih =>
    intro n hn
    rw [List.map_cons, List.flatten_cons, List.flatten_cons, List.take_append, List.take_append,
      List.take_take, Nat.min_eq_left hn, ih _ (Nat.le_trans (Nat.sub_le _ _) hn),
      List.length_take]
    -- a part that was cut has `count` rows left, so that nothing behind it counts
    rcases Nat.le_total part.length count with hle | hle
    · rw [Nat.min_eq_right hle]
    · rw [Nat.min_eq_left hle, Nat.sub_eq_zero_of_le hn, Nat.sub_eq_zero_of_le (Nat.le_trans hn hle)]

end Row

/-! ### What the operators hand out -/

namespace Operator

/-- On these inputs, the operator writes some rows to its first output, and at most logs something
afterwards. -/
def HandsOut (operator : Operator) (job : StageJob) (inputs : List Delivery) (rows : List Row) :
    Prop :=
  ∃ logs : List (LogLevel × String), ∀ stage, operator job inputs stage =
    (emit rows >>= fun _ => .modify fun s => { s with logs := s.logs ++ logs }) stage

/-- The operator reads its inputs to their ends, and hands out a part of all their rows. -/
structure Selects (operator : Operator) (job : StageJob) (part : List Row → List Row) : Prop where
  readsToEnd : ∀ inputs stage stage', operator job inputs stage = (.ok (), stage') →
    ∀ d ∈ inputs, d.fault = none
  handsOut : ∀ inputs : List Delivery, (∀ d ∈ inputs, d.fault = none) →
    operator.HandsOut job inputs (part (inputs.flatMap Delivery.rows))

variable {job : StageJob} {inputs : List Delivery}

theorem emit_cons (row : Row) (rows : List Row) :
    emit (row :: rows) = Stage.write 0 row >>= fun _ => emit rows := rfl

/-- What distinct does with a row. -/
def look (seen : Seen) (row : Row) : Action Stage Seen := do
  if row ∈ seen.kept then pure { seen with dropped := seen.dropped + 1 }
  else
    Stage.write 0 row
    pure { seen with kept := row :: seen.kept }

theorem distinct_eq (job : StageJob) (inputs : List Delivery) :
    distinct job inputs = Action.fold (Delivery.foldRows look) {} inputs >>= fun seen =>
      Stage.log .info s!"distinct kept {seen.kept.length} rows, dropped {seen.dropped}" := rfl

theorem fold_look (seen : Seen) (rows : List Row) : ∃ last : Seen,
    Action.fold look seen rows = emit (Row.novel seen.kept rows) >>= fun _ => pure last := by
  induction rows generalizing seen with
  | nil => exact ⟨seen, rfl⟩
  | cons row rows ih =>
    rw [Action.fold_cons, look, Row.novel]
    by_cases hrow : row ∈ seen.kept
    · obtain ⟨last, hlast⟩ := ih { seen with dropped := seen.dropped + 1 }
      refine ⟨last, ?_⟩
      rw [if_pos hrow, if_pos hrow, pure_bind]
      exact hlast
    · obtain ⟨last, hlast⟩ := ih { seen with kept := row :: seen.kept }
      refine ⟨last, ?_⟩
      rw [if_neg hrow, if_neg hrow, emit_cons, bind_assoc, bind_assoc]
      exact congrArg (Stage.write 0 row >>= ·) (funext fun _ => hlast)

/-- Distinct hands out the first occurrences of the rows of its inputs. -/
theorem distinct_selects (job : StageJob) : distinct.Selects job Row.firsts := by
  refine ⟨fun _ _ _ => distinct_eq_ok, fun inputs h => ?_⟩
  obtain ⟨last, hlast⟩ := fold_look {} (inputs.flatMap Delivery.rows)
  refine ⟨[(.info, s!"distinct kept {last.kept.length} rows, dropped {last.dropped}")],
    fun stage => congrFun ?_ stage⟩
  rw [distinct_eq, Delivery.fold_clean h, hlast, Row.firsts_eq, bind_assoc]
  exact congrArg (emit _ >>= ·) (funext fun _ => pure_bind last _)

/-- What limit does with a row when it has passed some on. -/
def pass (count emitted : Nat) (row : Row) : Action Stage Nat := do
  if emitted < count then
    Stage.write 0 row
    pure (emitted + 1)
  else pure emitted

theorem limit_eq {count : Nat} (hk : job.kind = .limit count) (inputs : List Delivery) :
    limit job inputs =
      Action.fold (Delivery.foldRows (pass count)) 0 inputs >>= fun _ => pure () := by
  rw [limit, hk]
  rfl

theorem fold_pass (count emitted : Nat) (rows : List Row) : ∃ last : Nat,
    Action.fold (pass count) emitted rows =
      emit (rows.take (count - emitted)) >>= fun _ => pure last := by
  induction rows generalizing emitted with
  | nil => exact ⟨emitted, by rw [List.take_nil]; rfl⟩
  | cons row rows ih =>
    rw [Action.fold_cons, pass]
    by_cases hlt : emitted < count
    · obtain ⟨last, hlast⟩ := ih (emitted + 1)
      refine ⟨last, ?_⟩
      have hleft : count - emitted = count - (emitted + 1) + 1 := by omega
      rw [if_pos hlt, hleft, List.take_succ_cons, emit_cons, bind_assoc, bind_assoc]
      exact congrArg (Stage.write 0 row >>= ·) (funext fun _ => hlast)
    · obtain ⟨last, hlast⟩ := ih emitted
      refine ⟨last, ?_⟩
      rw [Nat.sub_eq_zero_of_le (Nat.le_of_not_lt hlt), List.take_zero] at hlast ⊢
      rw [if_neg hlt, pure_bind]
      exact hlast

/-- Limit hands out the first rows of its inputs. -/
theorem limit_selects {count : Nat} (hk : job.kind = .limit count) :
    limit.Selects job (·.take count) := by
  refine ⟨fun _ _ _ => limit_eq_ok, fun inputs h => ?_⟩
  obtain ⟨last, hlast⟩ := fold_pass count 0 (inputs.flatMap Delivery.rows)
  refine ⟨[], fun stage => congrFun ?_ stage⟩
  rw [limit_eq hk, Delivery.fold_clean h, hlast, Nat.sub_zero, bind_assoc]
  simp only [pure_bind, List.append_nil]
  rfl

end Operator

end StagedQuery
