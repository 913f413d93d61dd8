import StagedQuery.Proofs.Cluster.Execution
import StagedQuery.Proofs.Operator.Dropping
import StagedQuery.Proofs.Stream.Portable
import StagedQuery.Proofs.Wire.Sizes

/-!
# Distinct and limit in two phases

Distinct and limit run once for each stream and then once more on what comes out. What the second
phase reads are the streams that the first has written, so this is about works and not about lists:
the works of the first phase have succeeded, and the last one gets to the end of their streams. Then
it hands out what a single phase would have handed out that reads all streams of the first, one
after the other (`TwoPhases.distinct_and_limit`).

Nothing here is special to the two operators but that dropping rows of the parts first changes
nothing (`TwoPhases.delivers`).
-/

namespace StagedQuery

/-- The rows that the inputs of some work bring. -/
def Work.rowsRead (work : Work) : List Row := work.deliveries.flatMap Delivery.rows

/-- The work hands out some rows. When it has succeeded its only stream brings them, and it does
succeed when its writer takes these rows. -/
structure Work.Delivers (work : Work) (rows : List Row) : Prop where
  handsOut : work.operator.HandsOut work.job work.deliveries rows
  brings : work.outcome.result = .ok () →
    ∃ sink, work.outcome.streams = [sink] ∧ Brings sink.bytes rows
  succeeds : ∀ w w', work.writers = [w] → RowWriter.session (rows.map .row) w = (.ok (), w') →
    work.outcome.result = .ok () ∧ work.outcome.streams = [w'.frames.sink]

/-- Works of one kind with one output each, and one more work that reads their outputs in this
order, or a part of them where the connection broke before. -/
structure TwoPhases (kind lastKind : JobKind) (first : List Work) (last : Work) : Prop where
  kind_eq : ∀ work ∈ first, work.job.kind = kind
  lastKind_eq : last.job.kind = lastKind
  operator : ∀ work ∈ last :: first, Registry.builtins.get? work.job.tag = some work.operator
  writer : ∀ work ∈ last :: first, ∃ w schema, work.writers = [w] ∧ RowWriter.Blank schema w
  readers : List.Forall₂ (fun work r => RowReader.Fresh r ∧
    ∃ sink, (Work.outcome work).streams = [sink] ∧ r.frames.rest <+: sink.bytes) first last.readers

/-! ### One work -/

/-- The stream of an output that some rows were handed out to brings them. -/
theorem Operator.HandsOut.brings {operator : Operator} {job : StageJob} {inputs : List Delivery}
    {rows : List Row} (h : operator.HandsOut job inputs rows) {w : RowWriter} {schema : Schema}
    (hw : w.Blank schema) (hok : (operator.perform job inputs [w]).result = .ok ()) :
    ∃ sink, (operator.perform job inputs [w]).streams = [sink] ∧ Brings sink.bytes rows := by
  obtain ⟨stage, hrun, hclosed⟩ := perform_eq_ok hok
  obtain ⟨logs, hlogs⟩ := h
  rw [hlogs] at hrun
  obtain ⟨⟨⟩, written, hemit, hlog⟩ := Action.bind_eq_ok.mp hrun
  cases hlog
  have hdeal : Stage.deal (rows.map fun row => (0, row)) { outputs := [w] } =
      (.ok (), written) := by
    rw [Stage.deal, Action.each_map]
    exact hemit
  obtain ⟨w', hget, hrows⟩ := Stage.deal_eq_ok hdeal (i := 0) (w := w) rfl
  have hall : Stage.dealtTo 0 (rows.map fun row => (0, row)) = rows := by
    rw [dealtTo_shuffle]
    simp
  rw [hall] at hrows
  obtain ⟨v, hv⟩ : ∃ v, written.outputs = [v] :=
    List.length_eq_one_iff.mp (Stage.length_deal hdeal)
  rw [hv] at hget hclosed
  obtain rfl : v = w' := by simpa using hget
  obtain ⟨w'', _, hclose, hnil, houtputs⟩ := List.forall₂_cons_left_iff.mp (closeOutputs_eq_ok hclosed)
  obtain rfl := List.forall₂_nil_left_iff.mp hnil
  refine ⟨w''.frames.sink, ?_, hw.brings hrows hclose⟩
  rw [Outcome.streams, houtputs, List.map_singleton]

/-- Work that hands out some rows succeeds if the writer of its output takes them. -/
theorem Operator.HandsOut.succeeds {operator : Operator} {job : StageJob} {inputs : List Delivery}
    {rows : List Row} (h : operator.HandsOut job inputs rows) {w w' : RowWriter}
    (hs : RowWriter.session (rows.map .row) w = (.ok (), w')) :
    (operator.perform job inputs [w]).result = .ok () ∧
      (operator.perform job inputs [w]).streams = [w'.frames.sink] := by
  obtain ⟨⟨⟩, v, hwrite, hclose⟩ := Action.bind_eq_ok.mp hs
  rw [Action.each_map] at hwrite
  obtain ⟨logs, hlogs⟩ := h
  have hemit : emit rows { outputs := [w] } = (.ok (), { outputs := [v] }) := by
    clear hs hlogs
    induction rows generalizing w with
    | nil =>
      cases hwrite
      rfl
    | cons row rows ih =>
      obtain ⟨⟨⟩, u, hrow, hrest⟩ := Action.bind_eq_ok.mp hwrite
      have hfirst : Stage.write 0 row { outputs := [w] } = (.ok (), { outputs := [u] }) := by
        rw [Stage.write, Stage.onOutput_apply rfl]
        exact congrArg (fun out => (out.1, ({ outputs := [out.2] } : Stage))) hrow
      rw [emit_cons, Action.bind_ok hfirst]
      exact ih hrest
  have hrun : operator job inputs { outputs := [w] } = (.ok (), { outputs := [v], logs }) := by
    rw [hlogs, Action.bind_ok hemit]
    rfl
  have hclosed : closeOutputs [v] = (.ok (), [w']) := by
    rw [closeOutputs, hclose]
    rfl
  rw [Outcome.streams, perform, hrun]
  dsimp only
  rw [hclosed]
  exact ⟨rfl, rfl⟩

variable {work last : Work} {first : List Work} {part : List Row → List Row}
  {kind lastKind : JobKind}

/-- Work of an operator that hands out a part of the rows. -/
theorem Work.delivers_of_selects (hs : work.operator.Selects work.job part)
    (hw : ∃ w schema, work.writers = [w] ∧ RowWriter.Blank schema w)
    (hclean : ∀ d ∈ work.deliveries, d.fault = none) : work.Delivers (part work.rowsRead) := by
  have hhands := hs.handsOut work.deliveries hclean
  refine ⟨hhands, fun hok => ?_, fun w w' hwriters hsession => ?_⟩
  · obtain ⟨w, schema, hwriters, hblank⟩ := hw
    rw [Work.outcome, hwriters] at hok ⊢
    exact hhands.brings hblank hok
  · rw [Work.outcome, hwriters]
    exact hhands.succeeds hsession

/-- Work that has succeeded has got to the end of its inputs. -/
theorem Work.clean_of_selects (hs : work.operator.Selects work.job part)
    (hok : work.outcome.result = .ok ()) : ∀ d ∈ work.deliveries, d.fault = none := by
  obtain ⟨stage, hrun, -⟩ := Operator.perform_eq_ok hok
  exact hs.readsToEnd _ _ _ hrun

/-! ### Two phases -/

namespace TwoPhases

/-- If dropping rows of the parts first changes nothing, two phases are one. -/
theorem delivers (h : TwoPhases kind lastKind first last)
    (hs : ∀ work ∈ last :: first, work.operator.Selects work.job part)
    (hparts : ∀ parts : List (List Row), part (parts.map part).flatten = part parts.flatten)
    (hfirst : ∀ work ∈ first, work.outcome.result = .ok ())
    (hlast : ∀ d ∈ last.deliveries, d.fault = none) :
    last.Delivers (part (first.flatMap Work.rowsRead)) := by
  obtain ⟨hselects, hselected⟩ := List.forall_mem_cons.mp hs
  obtain ⟨hwriter, hwriters⟩ := List.forall_mem_cons.mp h.writer
  have hread : last.rowsRead = ((first.map Work.rowsRead).map part).flatten := by
    have hreaders := h.readers
    have hfaults := Work.forall_mem_deliveries.mp hlast
    rw [Work.rowsRead, Work.deliveries, List.flatMap_map]
    clear h hs hlast
    generalize last.readers = readers at hreaders hfaults
    induction hreaders with
    | nil => rfl
    | @cons work r first readers hr _ ih =>
      obtain ⟨hok, hoks⟩ := List.forall_mem_cons.mp hfirst
      obtain ⟨hwork, hworks⟩ := List.forall_mem_cons.mp hselected
      obtain ⟨hone, hones⟩ := List.forall_mem_cons.mp hwriters
      obtain ⟨hfault, hrest⟩ := List.forall_mem_cons.mp hfaults
      obtain ⟨hfresh, sink, hsink, hprefix⟩ := hr
      have hdelivers := Work.delivers_of_selects hwork hone (Work.clean_of_selects hwork hok)
      obtain ⟨sink', hsink', hbrings⟩ := hdelivers.brings hok
      obtain rfl : sink = sink' := by simpa [hsink] using hsink'
      rw [List.flatMap_cons, hbrings.complete r hfresh hprefix hfault, ih hoks hworks hones hrest]
      rfl
  have hdelivers := Work.delivers_of_selects hselects hwriter hlast
  rwa [hread, hparts, ← List.flatMap_def] at hdelivers

theorem operator_eq (h : TwoPhases kind lastKind first last) {operator : Operator}
    (hk : Registry.builtins.get? kind.tag = some operator)
    (hl : Registry.builtins.get? lastKind.tag = some operator) :
    ∀ work ∈ last :: first, work.operator = operator := by
  obtain ⟨hlast, hfirst⟩ := List.forall_mem_cons.mp h.operator
  refine List.forall_mem_cons.mpr ⟨?_, fun work hwork => ?_⟩
  · rw [StageJob.tag, h.lastKind_eq, hl] at hlast
    exact (Option.some.inj hlast).symm
  · have hget := hfirst work hwork
    rw [StageJob.tag, h.kind_eq work hwork, hk] at hget
    exact (Option.some.inj hget).symm

/-- Distinct in two phases hands out the first occurrences of the rows of all streams, and limit in
two phases hands out the first rows of all streams, one stream after the other. A distinct that
looks for a row among those of its hash only would find the same rows. -/
theorem distinct_and_limit (hfirst : ∀ work ∈ first, work.outcome.result = .ok ())
    (hlast : ∀ d ∈ last.deliveries, d.fault = none) :
    (∀ (hash : Bytes → UInt64) (row : Row) (kept : List Row),
      (kept.any fun k => hash k.hashBytes == hash row.hashBytes && row.same k) =
        decide (row ∈ kept)) ∧
    (TwoPhases .distinctLocal .distinctGlobal first last →
      last.Delivers (Row.firsts (first.flatMap Work.rowsRead))) ∧
    ∀ count, TwoPhases (.limit count) (.limit count) first last →
      last.Delivers ((first.flatMap Work.rowsRead).take count) := by
  refine ⟨Row.found_by_hash, fun h => ?_, fun count h => ?_⟩
  · refine h.delivers (fun work hwork => ?_) Row.firsts_parts hfirst hlast
    rw [h.operator_eq rfl rfl work hwork]
    exact Operator.distinct_selects work.job
  · refine h.delivers (fun work hwork => ?_) (Row.take_parts count) hfirst hlast
    rw [h.operator_eq rfl rfl work hwork]
    refine Operator.limit_selects ?_
    rcases List.mem_cons.mp hwork with rfl | hwork
    · exact h.lastKind_eq
    · exact h.kind_eq work hwork

/-! ### Transports that take everything -/

section Portable

variable (config : QuerySettings) (schema : Schema)

/-- The stream of some rows. -/
def streamOf (rows : List Row) : Sink :=
  (RowWriter.session (rows.map .row) (config.writer schema {})).2.frames.sink

/-- The work of an operator on the streams of some rows. -/
def workOn (kind : JobKind) (operator : Operator) (inputs : List (List Row)) : Work where
  operator
  job :=
    { taskId := default, location := default, kind, inputs := [], outputs := []
      schema, payload := [] }
  config
  readers := inputs.map fun rows => config.reader (streamOf config schema rows)
  writers := [config.writer schema {}]

/-- The works of the first phase, one for each stream. -/
def firstOn (kind : JobKind) (operator : Operator) (inputs : List (List Row)) : List Work :=
  inputs.map fun rows => workOn config schema kind operator [rows]

variable {config schema} {operator : Operator} {inputs : List (List Row)}

theorem session_streamOf {rows : List Row} (h : Portable config.maxMessageSize schema rows) :
    ∃ w, RowWriter.session (rows.map .row) (config.writer schema {}) = (.ok (), w) ∧
      w.frames.sink = streamOf config schema rows ∧ w.frames.sink.Carries config schema rows := by
  obtain ⟨w, w', hwrite, hclose, hcarries⟩ := h.written
  have hsession : RowWriter.session (rows.map .row) (config.writer schema {}) = (.ok (), w') := by
    rw [RowWriter.session, Action.each_map]
    exact (Action.bind_ok hwrite).trans hclose
  refine ⟨w', hsession, ?_, hcarries⟩
  rw [streamOf, hsession]

/-- The streams of portable rows are read to their ends. -/
theorem workOn_reads (h : ∀ rows ∈ inputs, Portable config.maxMessageSize schema rows) :
    (∀ d ∈ (workOn config schema kind operator inputs).deliveries, d.fault = none) ∧
      (workOn config schema kind operator inputs).rowsRead = inputs.flatten := by
  have hdrain : ∀ rows ∈ inputs,
      (RowReader.drain (config.reader (streamOf config schema rows))).1.fault = none ∧
        config.read (streamOf config schema rows) = rows := by
    intro rows hrows
    obtain ⟨w, -, hsink, hcarries⟩ := session_streamOf (h rows hrows)
    exact hsink ▸ hcarries.drain
  constructor
  · refine Work.forall_mem_deliveries.mpr (List.forall_mem_map.mpr fun rows hrows => ?_)
    exact (hdrain rows hrows).1
  · rw [Work.rowsRead, Work.deliveries, workOn, List.flatMap_map, List.flatMap_map,
      List.flatten_eq_flatMap]
    exact List.flatMap_congr fun rows hrows => (hdrain rows hrows).2

/-- Where all rows are portable, the works of both phases succeed. -/
theorem twoPhases_on (hk : Registry.builtins.get? kind.tag = some operator)
    (hl : Registry.builtins.get? lastKind.tag = some operator)
    (hs : ∀ job : StageJob, job.kind = kind → operator.Selects job part)
    (hpart : ∀ rows, (part rows).Sublist rows)
    (hp : Portable config.maxMessageSize schema inputs.flatten) :
    let first := firstOn config schema kind operator inputs
    let last := workOn config schema lastKind operator (inputs.map part)
    TwoPhases kind lastKind first last ∧ first.flatMap Work.rowsRead = inputs.flatten ∧
      (∀ work ∈ first, work.outcome.result = .ok ()) ∧ ∀ d ∈ last.deliveries, d.fault = none := by
  intro first last
  have hwriter (k : JobKind) (streams : List (List Row)) :
      ∃ w schema', (workOn config schema k operator streams).writers = [w] ∧
        RowWriter.Blank schema' w := ⟨_, _, rfl, {}, _, rfl, rfl⟩
  have hportable : ∀ rows ∈ inputs, Portable config.maxMessageSize schema rows := fun rows hrows =>
    hp.sublist (List.sublist_flatten_of_mem hrows)
  have hwork : ∀ rows ∈ inputs,
      (workOn config schema kind operator [rows]).outcome.result = .ok () ∧
        (workOn config schema kind operator [rows]).outcome.streams =
          [streamOf config schema (part rows)] := by
    intro rows hrows
    obtain ⟨hclean, hread⟩ := @workOn_reads kind config schema operator [rows]
      (List.forall_mem_singleton.mpr (hportable rows hrows))
    have hdelivers := Work.delivers_of_selects (hs _ rfl) (hwriter kind [rows]) hclean
    rw [hread, List.flatten_singleton] at hdelivers
    obtain ⟨w, hsession, hsink, -⟩ := session_streamOf ((hportable rows hrows).sublist (hpart rows))
    rw [← hsink]
    exact hdelivers.succeeds _ _ rfl hsession
  refine ⟨⟨?_, rfl, ?_, ?_, ?_⟩, ?_, ?_, ?_⟩
  · exact List.forall_mem_map.mpr fun _ _ => rfl
  · exact List.forall_mem_cons.mpr ⟨hl, List.forall_mem_map.mpr fun _ _ => hk⟩
  · exact List.forall_mem_cons.mpr ⟨hwriter .., List.forall_mem_map.mpr fun _ _ => hwriter ..⟩
  · simp only [first, last, firstOn, workOn, List.map_map, List.forall₂_map_left_iff,
      List.forall₂_map_right_iff, List.forall₂_same]
    intro rows hrows
    exact ⟨⟨rfl, rfl⟩, _, (hwork rows hrows).2, List.prefix_rfl⟩
  · simp only [first, firstOn]
    rw [List.flatMap_map, List.flatten_eq_flatMap]
    refine List.flatMap_congr fun rows hrows => ?_
    rw [(workOn_reads (List.forall_mem_singleton.mpr (hportable rows hrows))).2,
      List.flatten_singleton]
    rfl
  · exact List.forall_mem_map.mpr fun rows hrows => (hwork rows hrows).1
  · refine (workOn_reads (List.forall_mem_map.mpr fun rows hrows => ?_)).1
    exact (hportable rows hrows).sublist (hpart rows)

end Portable

/-- A number, and a text as the key. -/
def keyedSchema : Schema := { fields := [⟨"x", .float64, true⟩], keys := [⟨"k", .utf8, false⟩] }

/-- The row of a number and a key. -/
def keyedRow (x : UInt64) (k : String) : Row := ⟨[.float64 x], [.utf8 k]⟩

/-- Two streams with positive and negative zero and two keys. -/
def zeroStreams : List (List Row) :=
  [[keyedRow 0 "a", keyedRow 0x8000000000000000 "a"], [keyedRow 0 "a", keyedRow 0 "b"]]

theorem portable_zeroStreams : Portable 67108864 keyedSchema zeroStreams.flatten where
  announced := .of_short (by decide +kernel) (by decide +kernel)
  valid := by decide +kernel
  countable := by decide +kernel
  length_lt := by decide
  passes := by decide +kernel

/-- The two zeros are different values, and the key counts. -/
theorem distinct_and_limit_keyed :
    let config : QuerySettings := { queryId := default }
    (workOn config keyedSchema .distinctGlobal .distinct (zeroStreams.map Row.firsts)).Delivers
        [keyedRow 0 "a", keyedRow 0x8000000000000000 "a", keyedRow 0 "b"] ∧
      (workOn config keyedSchema (.limit 1) .limit (zeroStreams.map (·.take 1))).Delivers
        [keyedRow 0 "a"] := by
  intro config
  have hp : Portable config.maxMessageSize keyedSchema zeroStreams.flatten := portable_zeroStreams
  have hselects (job : StageJob) (_ : job.kind = .distinctLocal) :=
    Operator.distinct_selects job
  have hselects' (job : StageJob) (hk : job.kind = .limit 1) := Operator.limit_selects hk
  obtain ⟨hphases, hread, hfirst, hlast⟩ :=
    @twoPhases_on _ _ .distinctGlobal _ _ _ _ rfl rfl hselects Row.firsts_sublist hp
  obtain ⟨hphases', hread', hfirst', hlast'⟩ :=
    @twoPhases_on _ _ (.limit 1) _ _ _ _ rfl rfl hselects' (List.take_sublist 1) hp
  have hdistinct := (distinct_and_limit hfirst hlast).2.1 hphases
  have hlimit := (distinct_and_limit hfirst' hlast').2.2 1 hphases'
  rw [hread] at hdistinct
  rw [hread'] at hlimit
  exact ⟨hdistinct, hlimit⟩

end TwoPhases

end StagedQuery
