import Mathlib.Data.List.Forall2
import StagedQuery.Operator.Order
import StagedQuery.Proofs.Action
import StagedQuery.Proofs.Value

/-!
# Sorting in two phases is sorting once

Comparing rows by sort keys is a total preorder. A list that is in order and that holds the rows
of another list, those that the keys do not tell apart in their old order, is determined by that:
it is *the* stable sort (`Row.StableSort.unique`). `Row.sortBy` makes it, and so does merging
lists that are stable sorts of the parts (`Feed.merge_sorted`). So the two phases of ordering,
sorting every input on its own and merging what comes out, are one stable sort of all the rows
in the order of the inputs (`Operator.merge_of_sorts`).
-/

namespace StagedQuery

/-! ### Comparing rows -/

instance (key : SortKey) : Std.TransCmp key.compare where
  eq_swap {a b} := by
    have h := @Std.OrientedCmp.eq_swap _ Value.compare _ (a.vals[key.column]?.getD .null)
      (b.vals[key.column]?.getD .null)
    simp only [SortKey.compare]
    cases key.ascending
    · exact congrArg Ordering.swap h
    · exact h
  isLE_trans {a b c} hab hbc := by
    simp only [SortKey.compare] at hab hbc ⊢
    cases hk : key.ascending <;> rw [hk] at hab hbc
    · simp only [Bool.false_eq_true, if_false, ← Std.OrientedCmp.eq_swap] at hab hbc ⊢
      exact Std.TransCmp.isLE_trans hbc hab
    · simp only [if_true] at hab hbc ⊢
      exact Std.TransCmp.isLE_trans hab hbc

namespace Row

instance transCmp_compareBy (keys : List SortKey) : Std.TransCmp (compareBy keys) := by
  induction keys with
  | nil => exact { eq_swap := rfl, isLE_trans := fun _ _ => rfl }
  | cons key keys ih =>
    exact inferInstanceAs (Std.TransCmp (compareLex key.compare (compareBy keys)))

variable {keys : List SortKey} {a b c : Row}

theorem mayPrecede_iff : mayPrecede keys a b ↔ (compareBy keys a b).isLE := by
  rw [mayPrecede]
  cases compareBy keys a b <;> decide

theorem mayPrecede_trans (hab : mayPrecede keys a b) (hbc : mayPrecede keys b c) :
    mayPrecede keys a c := by
  rw [mayPrecede_iff] at *
  exact Std.TransCmp.isLE_trans hab hbc

theorem not_mayPrecede : mayPrecede keys a b = false ↔ compareBy keys b a = .lt := by
  rw [mayPrecede, ← Std.OrientedCmp.gt_iff_lt]
  cases compareBy keys a b <;> decide

theorem mayPrecede_total : mayPrecede keys a b || mayPrecede keys b a := by
  cases h : mayPrecede keys a b with
  | true => rfl
  | false => simp [mayPrecede, not_mayPrecede.mp h]

/-- Rows that the sort keys do not tell apart. -/
def tied (keys : List SortKey) (a b : Row) : Bool := compareBy keys a b == .eq

theorem tied_iff : tied keys a b ↔ compareBy keys a b = .eq := beq_iff_eq

theorem tied_self (keys : List SortKey) (a : Row) : tied keys a a :=
  tied_iff.mpr Std.ReflCmp.compare_self

theorem tied_congr (h : tied keys a b) : tied keys a = tied keys b := by
  funext c
  rw [tied, tied, Std.TransCmp.congr_left (tied_iff.mp h)]

theorem tied_of_mayPrecede (hab : mayPrecede keys a b) (hba : mayPrecede keys b a) :
    tied keys a b :=
  tied_iff.mpr (Std.OrientedCmp.isLE_antisymm (mayPrecede_iff.mp hab) (mayPrecede_iff.mp hba))

theorem mayPrecede_of_tied (h : tied keys a b) : mayPrecede keys a b := by
  rw [mayPrecede, tied_iff.mp h]
  rfl

/-! ### Stable sorts -/

/-- The list `sorted` is `rows` in order, where rows that are tied stay as they stood. -/
structure StableSort (keys : List SortKey) (rows sorted : List Row) : Prop where
  ordered : sorted.Pairwise (mayPrecede keys · ·)
  stable : ∀ a, sorted.filter (tied keys a) = rows.filter (tied keys a)

theorem StableSort.mem_iff {rows sorted : List Row} (h : StableSort keys rows sorted) (a : Row) :
    a ∈ sorted ↔ a ∈ rows := by
  have hf (l : List Row) : a ∈ l.filter (tied keys a) ↔ a ∈ l := by
    rw [List.mem_filter]
    exact and_iff_left (tied_self keys a)
  rw [← hf sorted, h.stable, hf]

/-- A stable sort has every row as often as the list that it sorts. -/
theorem StableSort.perm {rows sorted : List Row} (h : StableSort keys rows sorted) :
    sorted.Perm rows := by
  refine List.perm_iff_count.mpr ?_
  intro a
  rw [← List.count_filter (tied_self keys a), h.stable, List.count_filter (tied_self keys a)]

/-- There is only one stable sort. -/
theorem StableSort.unique {rows l m : List Row} (hl : StableSort keys rows l)
    (hm : StableSort keys rows m) : l = m := by
  have hsame : StableSort keys m l := ⟨hl.ordered, fun a => (hl.stable a).trans (hm.stable a).symm⟩
  have hordered := hm.ordered
  clear hl hm
  induction l generalizing m with
  | nil =>
    cases m with
    | nil => rfl
    | cons b m => exact absurd ((hsame.mem_iff b).mpr List.mem_cons_self) List.not_mem_nil
  | cons a l ih =>
    cases m with
    | nil => exact absurd ((hsame.mem_iff a).mp List.mem_cons_self) List.not_mem_nil
    | cons b m =>
      have first {x y : Row} {l : List Row} (h : (x :: l).Pairwise (mayPrecede keys · ·))
          (hy : y ∈ x :: l) : mayPrecede keys x y := by
        obtain rfl | hy := List.mem_cons.mp hy
        · exact mayPrecede_of_tied (tied_self keys y)
        · exact List.rel_of_pairwise_cons h hy
      have hba := first hordered ((hsame.mem_iff a).mp List.mem_cons_self)
      have hab := first hsame.ordered ((hsame.mem_iff b).mpr List.mem_cons_self)
      -- both heads lead the class of `a`, so they are the same row
      have hclass := hsame.stable a
      rw [List.filter_cons_of_pos (tied_self keys a),
        List.filter_cons_of_pos (tied_of_mayPrecede hab hba)] at hclass
      obtain rfl := (List.cons.inj hclass).1
      refine congrArg (a :: ·) (ih ⟨hsame.ordered.of_cons, fun c => ?_⟩ hordered.of_cons)
      have hc := hsame.stable c
      rw [List.filter_cons, List.filter_cons] at hc
      split at hc
      · exact (List.cons.inj hc).2
      · exact hc

/-- Sorting is a stable sort. -/
theorem stableSort_sortBy (keys : List SortKey) (rows : List Row) :
    StableSort keys rows (sortBy keys rows) := by
  have htrans (a b c : Row) : mayPrecede keys a b → mayPrecede keys b c → mayPrecede keys a c :=
    mayPrecede_trans
  have htotal (a b : Row) : mayPrecede keys a b || mayPrecede keys b a := mayPrecede_total
  refine ⟨List.pairwise_mergeSort htrans htotal rows, ?_⟩
  intro a
  -- the class of `a` is in order, so it is a sublist of the result
  have hclass : (rows.filter (tied keys a)).Pairwise (mayPrecede keys · ·) := by
    refine List.pairwise_of_forall_mem_list ?_
    intro b hb c hc
    have hb := (List.mem_filter.mp hb).2
    exact mayPrecede_of_tied (tied_congr hb ▸ (List.mem_filter.mp hc).2)
  have hsorted := List.sublist_mergeSort htrans htotal hclass List.filter_sublist
  have hsub := hsorted.filter (tied keys a)
  simp only [List.filter_filter, Bool.and_self] at hsub
  exact (hsub.eq_of_length ((List.mergeSort_perm rows _).filter _).length_eq.symm).symm

/-- A row that comes before all that stand behind it, and strictly before all that stand before
it, is the first of the stable sort. -/
theorem StableSort.cons {before after l : List Row} {least : Row}
    (h : StableSort keys (before ++ after) l)
    (hb : ∀ row ∈ before, mayPrecede keys row least = false)
    (ha : ∀ row ∈ after, mayPrecede keys least row) :
    StableSort keys (before ++ least :: after) (least :: l) := by
  refine ⟨List.pairwise_cons.mpr ⟨fun row hrow => ?_, h.ordered⟩, fun a => ?_⟩
  · obtain hrow | hrow := List.mem_append.mp ((h.mem_iff row).mp hrow)
    · have := @mayPrecede_total keys least row
      rwa [hb row hrow, Bool.or_false] at this
    · exact ha row hrow
  · have hstable := h.stable a
    rw [List.filter_append] at hstable ⊢
    by_cases hleast : tied keys a least
    · have hnone : before.filter (tied keys a) = [] := by
        refine List.filter_eq_nil_iff.mpr ?_
        intro row hrow hrowTied
        rw [tied_congr hleast] at hrowTied
        have htied := tied_iff.mpr (Std.OrientedCmp.eq_symm (tied_iff.mp hrowTied))
        have hle := mayPrecede_of_tied htied
        rw [hb row hrow] at hle
        exact Bool.noConfusion hle
      rw [hnone] at hstable ⊢
      rw [List.filter_cons_of_pos hleast, List.filter_cons_of_pos hleast, hstable]
      rfl
    · rw [List.filter_cons_of_neg hleast, List.filter_cons_of_neg hleast, hstable]

/-- Sorting the parts first changes nothing. -/
theorem StableSort.of_parts {parts sorted : List (List Row)} {l : List Row}
    (hparts : List.Forall₂ (StableSort keys) parts sorted) (h : StableSort keys sorted.flatten l) :
    StableSort keys parts.flatten l := by
  refine ⟨h.ordered, fun a => (h.stable a).trans ?_⟩
  clear h
  induction hparts with
  | nil => rfl
  | cons hpart _ ih =>
    rw [List.flatten_cons, List.flatten_cons, List.filter_append, List.filter_append, ih,
      hpart.stable]

end Row

/-! ### Merging -/

namespace Feed

variable {keys : List SortKey}

/-- The rows of all feeds, in the order of the feeds. -/
def allRows (feeds : List Feed) : List Row := feeds.flatMap (·.rows)

theorem takeLeast?_eq_none {feeds : List Feed} (h : takeLeast? keys feeds = none) :
    allRows feeds = [] := by
  induction feeds with
  | nil => rfl
  | cons feed feeds ih =>
    rw [takeLeast?] at h
    split at h
    · rename_i hrows hnone
      rw [allRows, List.flatMap_cons, hrows, ← allRows, ih hnone, List.append_nil]
    · simp at h
    · simp at h
    · split at h <;> simp at h

/-- If the feeds before come behind `least` and those after may follow it, it may precede every
head. -/
theorem mayPrecede_heads {before after : List Feed} {feed : Feed} {least : Row}
    (hb : ∀ f ∈ before, ∀ row ∈ f.rows.head?, Row.mayPrecede keys row least = false)
    (ha : ∀ f ∈ after, ∀ row ∈ f.rows.head?, Row.mayPrecede keys least row) :
    ∀ f ∈ before ++ { feed with rows := least :: feed.rows } :: after,
      ∀ row ∈ f.rows.head?, Row.mayPrecede keys least row := by
  intro f hf row hrow
  obtain hf | hf := List.mem_append.mp hf
  · have := @Row.mayPrecede_total keys least row
    rwa [hb f hf row hrow, Bool.or_false] at this
  obtain rfl | hf := List.mem_cons.mp hf
  · obtain rfl : least = row := by simpa using hrow
    exact Row.mayPrecede_of_tied (Row.tied_self keys least)
  · exact ha f hf row hrow

/-- The row that is taken heads one of the feeds. The heads of the feeds before it come behind
it, and it may precede those of the feeds after it. -/
theorem takeLeast?_eq_some {feeds rest : List Feed} {least : Row}
    (h : takeLeast? keys feeds = some (least, rest)) :
    ∃ before feed after, feeds = before ++ { feed with rows := least :: feed.rows } :: after ∧
      rest = before ++ feed :: after ∧
      (∀ f ∈ before, ∀ row ∈ f.rows.head?, Row.mayPrecede keys row least = false) ∧
      ∀ f ∈ after, ∀ row ∈ f.rows.head?, Row.mayPrecede keys least row := by
  induction feeds generalizing least rest with
  | nil => simp [takeLeast?] at h
  | cons feed feeds ih =>
    obtain ⟨frows, fault⟩ := feed
    rw [takeLeast?] at h
    split at h
    case h_1 => simp at h
    case h_2 least' rest' hrows htake =>
      obtain ⟨rfl, rfl⟩ : least' = least ∧ _ = rest := by simpa using h
      obtain rfl : frows = [] := hrows
      obtain ⟨before, feed, after, rfl, rfl, hb, ha⟩ := ih htake
      refine ⟨⟨[], fault⟩ :: before, feed, after, rfl, rfl, ?_, ha⟩
      exact List.forall_mem_cons.mpr ⟨by simp, hb⟩
    case h_3 row rows hrows htake =>
      obtain ⟨rfl, rfl⟩ : row = least ∧ _ = rest := by simpa using h
      obtain rfl : frows = row :: rows := hrows
      refine ⟨[], ⟨rows, fault⟩, feeds, rfl, rfl, by simp, ?_⟩
      intro f hf r hr
      have := List.flatMap_eq_nil_iff.mp (takeLeast?_eq_none htake) f hf
      simp [this] at hr
    case h_4 row rows least' rest' hrows htake =>
      obtain rfl : frows = row :: rows := hrows
      obtain ⟨before, feed, after, rfl, rfl, hb, ha⟩ := ih htake
      have hheads := @mayPrecede_heads _ _ _ feed _ hb ha
      split at h
      case isTrue hle =>
        obtain ⟨rfl, rfl⟩ : row = least ∧ _ = rest := by simpa using h
        refine ⟨[], ⟨rows, fault⟩, _, rfl, rfl, by simp, ?_⟩
        intro f hf r hr
        exact Row.mayPrecede_trans hle (hheads f hf r hr)
      case isFalse hle =>
        obtain ⟨rfl, rfl⟩ : least' = least ∧ _ = rest := by simpa using h
        refine ⟨⟨row :: rows, fault⟩ :: before, feed, after, rfl, rfl, ?_, ha⟩
        exact List.forall_mem_cons.mpr ⟨by simpa using hle, hb⟩

theorem stalled?_eq_none {feeds : List Feed} (h : ∀ f ∈ feeds, f.fault = none) :
    stalled? feeds = none := by
  refine List.findSome?_eq_none_iff.mpr fun f hf => ?_
  rw [h f hf, ite_self]

theorem mayPrecede_of_head {least : Row} {rows : List Row}
    (hs : rows.Pairwise (Row.mayPrecede keys · ·))
    (h : ∀ row ∈ rows.head?, Row.mayPrecede keys least row) :
    ∀ row ∈ rows, Row.mayPrecede keys least row := by
  intro row hrow
  cases rows with
  | nil => exact absurd hrow List.not_mem_nil
  | cons first rows =>
    have hfirst := h first rfl
    obtain rfl | hrow := List.mem_cons.mp hrow
    · exact hfirst
    · exact Row.mayPrecede_trans hfirst (List.rel_of_pairwise_cons hs hrow)

theorem not_mayPrecede_of_head {least : Row} {rows : List Row}
    (hs : rows.Pairwise (Row.mayPrecede keys · ·))
    (h : ∀ row ∈ rows.head?, Row.mayPrecede keys row least = false) :
    ∀ row ∈ rows, Row.mayPrecede keys row least = false := by
  intro row hrow
  cases rows with
  | nil => exact absurd hrow List.not_mem_nil
  | cons first rows =>
    have hfirst := h first rfl
    obtain rfl | hrow := List.mem_cons.mp hrow
    · exact hfirst
    · refine Bool.eq_false_iff.mpr ?_
      intro hle
      rw [Row.mayPrecede_trans (List.rel_of_pairwise_cons hs hrow) hle] at hfirst
      exact Bool.noConfusion hfirst

/-- Feeds that are in order are merged into the stable sort of all their rows. -/
theorem merge_sorted {feeds : List Feed} (hf : ∀ f ∈ feeds, f.fault = none)
    (hs : ∀ f ∈ feeds, f.rows.Pairwise (Row.mayPrecede keys · ·)) :
    (merge keys feeds).fault = none ∧
      Row.StableSort keys (allRows feeds) (merge keys feeds).rows := by
  fun_induction merge keys feeds with
  | case1 feeds e hstalled =>
    rw [stalled?_eq_none hf] at hstalled
    cases hstalled
  | case2 feeds _ htake =>
    rw [takeLeast?_eq_none htake]
    exact ⟨rfl, .nil, fun _ => rfl⟩
  | case3 feeds _ least rest htake merged ih =>
    obtain ⟨before, feed, after, rfl, rfl, hb, ha⟩ := takeLeast?_eq_some htake
    simp only [List.forall_mem_append, List.forall_mem_cons] at hf hs ih
    obtain ⟨hsBefore, hsFeed, hsAfter⟩ := hs
    obtain ⟨hfault, hstable⟩ := ih hf ⟨hsBefore, hsFeed.of_cons, hsAfter⟩
    refine ⟨hfault, ?_⟩
    rw [allRows, List.flatMap_append, List.flatMap_cons] at hstable ⊢
    refine hstable.cons (fun row hrow => ?_) fun row hrow => ?_
    · obtain ⟨f, hmem, hrow⟩ := List.mem_flatMap.mp hrow
      exact not_mayPrecede_of_head (hsBefore f hmem) (hb f hmem) row hrow
    · obtain hrow | hrow := List.mem_append.mp hrow
      · exact List.rel_of_pairwise_cons hsFeed hrow
      · obtain ⟨f, hmem, hrow⟩ := List.mem_flatMap.mp hrow
        exact mayPrecede_of_head (hsAfter f hmem) (ha f hmem) row hrow

end Feed

/-! ### The two phases -/

namespace Stage

theorem onOutput_apply {stage : Stage} {i : Nat} {w : RowWriter} (h : stage.outputs[i]? = some w)
    (x : Action RowWriter Unit) :
    onOutput i x stage = ((x w).1, { stage with outputs := stage.outputs.set i (x w).2 }) := by
  simp only [onOutput, Action.zoomAt, h]

theorem onOutput_bind {stage : Stage} {i : Nat} {w : RowWriter} (h : stage.outputs[i]? = some w)
    (x y : Action RowWriter Unit) :
    onOutput i (x >>= fun _ => y) stage = (onOutput i x >>= fun _ => onOutput i y) stage := by
  have hx := onOutput_apply h x
  rw [onOutput_apply h]
  rcases hw : x w with ⟨_ | _, w'⟩
  · rw [hw] at hx
    rw [Action.bind_error hw, Action.bind_error hx]
  · have hi : i < stage.outputs.length := (List.getElem?_eq_some_iff.mp h).1
    rw [hw] at hx
    rw [Action.bind_ok hw, Action.bind_ok hx, onOutput_apply (w := w') (by simp [hi])]
    simp

/-- Handing rows to an output one after the other is writing them there. -/
theorem each_write {stage : Stage} {i : Nat} (hi : i < stage.outputs.length) (rows : List Row) :
    Action.each (write i) rows stage = onOutput i (RowWriter.writeRows rows) stage := by
  induction rows generalizing stage with
  | nil =>
    rw [onOutput_apply (List.getElem?_eq_getElem hi)]
    simp [RowWriter.writeRows]
  | cons row rows ih =>
    have hw := List.getElem?_eq_getElem hi
    rw [RowWriter.writeRows, Action.each_cons, Action.each_cons, onOutput_bind hw, ← write]
    have hwrite : write i row stage = _ := onOutput_apply hw (RowWriter.writeRow row)
    rcases hr : (RowWriter.writeRow row stage.outputs[i]).1 with _ | _
    · rw [hr] at hwrite
      rw [Action.bind_error hwrite, Action.bind_error hwrite]
    · rw [hr] at hwrite
      rw [Action.bind_ok hwrite, Action.bind_ok hwrite, ih (by simpa using hi), RowWriter.writeRows]

end Stage

namespace Operator

/-- Hand some rows to the first output, one after the other. -/
def emit (rows : List Row) : Action Stage Unit := Action.each (Stage.write 0) rows

/-- The job that sorts hands out the stable sort of its only input. -/
theorem sort_eq_emit {keys : List SortKey} {job : StageJob} (hj : job.kind = .orderByLocal keys)
    {d : Delivery} (hd : d.fault = none) {stage : Stage} (hs : stage.outputs ≠ []) :
    sort job [d] stage = emit (Row.sortBy keys d.rows) stage := by
  have hrows : Delivery.allRows [d] = .ok d.rows := by
    rw [Delivery.allRows, hd]
    simp [Delivery.allRows]
  rw [emit, Stage.each_write (List.length_pos_iff.mpr hs), sort, sortKeys, hj, hrows]
  rfl

/-- The job that merges hands out the stable sort of all its inputs, if they are in order. -/
theorem merge_eq_emit {keys : List SortKey} {job : StageJob} (hj : job.kind = .orderByGlobal keys)
    {inputs : List Delivery} (hclean : ∀ d ∈ inputs, d.fault = none)
    (hsorted : ∀ d ∈ inputs, d.rows.Pairwise (Row.mayPrecede keys · ·)) :
    merge job inputs = emit (Row.sortBy keys (inputs.flatMap Delivery.rows)) := by
  obtain ⟨hfault, hstable⟩ := @Feed.merge_sorted keys (inputs.map fun d => ⟨d.rows, d.fault⟩)
    (List.forall_mem_map.mpr hclean) (List.forall_mem_map.mpr hsorted)
  rw [Feed.allRows, List.flatMap_map] at hstable
  have hrows := hstable.unique (Row.stableSort_sortBy keys _)
  rw [merge, sortKeys, hj]
  simp only [pure_bind, hfault, hrows]
  exact bind_pure _

/-- Two phases are one stable sort: a job that sorts each input on its own, and a job that
merges streams that bring what these hand out, in the order of the inputs, hand out the rows of
all inputs in the one order that is their stable sort. -/
theorem merge_of_sorts {keys : List SortKey} {sorting merging : StageJob}
    (hs : sorting.kind = .orderByLocal keys) (hm : merging.kind = .orderByGlobal keys)
    {inputs sorted : List Delivery} (hclean : ∀ d ∈ inputs, d.fault = none)
    (hsorted : List.Forall₂ (fun d s => s.fault = none ∧ s.rows = Row.sortBy keys d.rows)
      inputs sorted) :
    (∀ d ∈ inputs, ∀ stage : Stage, stage.outputs ≠ [] →
      sort sorting [d] stage = emit (Row.sortBy keys d.rows) stage) ∧
    merge merging sorted = emit (Row.sortBy keys (inputs.flatMap Delivery.rows)) ∧
    Row.StableSort keys (inputs.flatMap Delivery.rows)
      (Row.sortBy keys (inputs.flatMap Delivery.rows)) := by
  refine ⟨fun d hd stage => sort_eq_emit hs (hclean d hd), ?_, Row.stableSort_sortBy keys _⟩
  have hparts : List.Forall₂ (Row.StableSort keys) (inputs.map Delivery.rows)
      (sorted.map Delivery.rows) := by
    rw [List.forall₂_map_left_iff, List.forall₂_map_right_iff]
    exact hsorted.imp fun d s h => h.2 ▸ Row.stableSort_sortBy keys d.rows
  have hinOrder : ∀ s ∈ sorted, s.fault = none ∧ s.rows.Pairwise (Row.mayPrecede keys · ·) := by
    clear hclean hparts
    induction hsorted with
    | nil => simp
    | @cons d s _ _ h _ ih =>
      refine List.forall_mem_cons.mpr ⟨⟨h.1, ?_⟩, ih⟩
      exact h.2 ▸ (Row.stableSort_sortBy keys d.rows).ordered
  have hflat := Row.stableSort_sortBy keys (sorted.map Delivery.rows).flatten
  have hsame := (Row.StableSort.of_parts hparts hflat).unique
    (Row.stableSort_sortBy keys (inputs.map Delivery.rows).flatten)
  rw [merge_eq_emit hm (fun s hs => (hinOrder s hs).1) (fun s hs => (hinOrder s hs).2),
    List.flatMap_def, List.flatMap_def, hsame]

/-- The largest first, and rows that are tied in the order of the inputs. The rows are told apart
by their key values, which take no part in the order; nor does a column that no row has. -/
theorem merge_of_sorts_ties :
    let delivery (columns keyColumns : List Value) : Delivery :=
      { batches :=
          [{ rowCount := columns.length, columns := [columns], keyColumns := [keyColumns] }],
        fault := none }
    let job (kind : JobKind) : StageJob :=
      { taskId := default, location := default, kind, inputs := [], outputs := [],
        schema := default, payload := [] }
    merge (job (.orderByGlobal [⟨0, false⟩, ⟨7, true⟩]))
        [delivery [.int32 3, .int32 2] [.utf8 "b", .utf8 "a"],
          delivery [.int32 2, .null] [.utf8 "c", .utf8 "d"]] =
      emit [⟨[.int32 3], [.utf8 "b"]⟩, ⟨[.int32 2], [.utf8 "a"]⟩, ⟨[.int32 2], [.utf8 "c"]⟩,
        ⟨[.null], [.utf8 "d"]⟩] := by
  intro delivery job
  have left : Row.sortBy [⟨0, false⟩, ⟨7, true⟩]
      [⟨[.int32 2], [.utf8 "a"]⟩, ⟨[.int32 3], [.utf8 "b"]⟩] =
        [⟨[.int32 3], [.utf8 "b"]⟩, ⟨[.int32 2], [.utf8 "a"]⟩] := by
    simp +decide [Row.sortBy, List.mergeSort, List.MergeSort.Internal.splitInTwo]
  have right : Row.sortBy [⟨0, false⟩, ⟨7, true⟩]
      [⟨[.null], [.utf8 "d"]⟩, ⟨[.int32 2], [.utf8 "c"]⟩] =
        [⟨[.int32 2], [.utf8 "c"]⟩, ⟨[.null], [.utf8 "d"]⟩] := by
    simp +decide [Row.sortBy, List.mergeSort, List.MergeSort.Internal.splitInTwo]
  have all : Row.sortBy [⟨0, false⟩, ⟨7, true⟩]
      [⟨[.int32 2], [.utf8 "a"]⟩, ⟨[.int32 3], [.utf8 "b"]⟩, ⟨[.null], [.utf8 "d"]⟩,
        ⟨[.int32 2], [.utf8 "c"]⟩] =
      [⟨[.int32 3], [.utf8 "b"]⟩, ⟨[.int32 2], [.utf8 "a"]⟩, ⟨[.int32 2], [.utf8 "c"]⟩,
        ⟨[.null], [.utf8 "d"]⟩] := by
    simp +decide [Row.sortBy, List.mergeSort, List.MergeSort.Internal.splitInTwo]
  have h := @merge_of_sorts [⟨0, false⟩, ⟨7, true⟩] (job (.orderByLocal [⟨0, false⟩, ⟨7, true⟩]))
    (job (.orderByGlobal [⟨0, false⟩, ⟨7, true⟩])) rfl rfl
    [delivery [.int32 2, .int32 3] [.utf8 "a", .utf8 "b"],
      delivery [.null, .int32 2] [.utf8 "d", .utf8 "c"]]
    [delivery [.int32 3, .int32 2] [.utf8 "b", .utf8 "a"],
      delivery [.int32 2, .null] [.utf8 "c", .utf8 "d"]]
    (by decide) (.cons ⟨rfl, left.symm⟩ (.cons ⟨rfl, right.symm⟩ .nil))
  exact h.2.1.trans (congrArg emit all)

end Operator

end StagedQuery
