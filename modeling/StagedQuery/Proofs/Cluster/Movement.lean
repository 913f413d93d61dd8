import StagedQuery.Proofs.Cluster.Execution
import StagedQuery.Proofs.Operator.Movement
import StagedQuery.Proofs.Stream.Portable

/-!
# Rows between jobs

What is said of operators that deal rows out, said of the jobs of a run. A job that has succeeded
has read its inputs to the end, so that it has got what they bring
(`StageGraph.Runs.rows_of_brings`), and its outputs bring what it has dealt to them
(`StageGraph.Runs.brings_dealt`).

And it does succeed where nothing disturbs the run, as long as the rows can be sent
(`StageGraph.Runs.carries`). So rows are followed from the scans on, from job to job, without
running anything.
-/

namespace StagedQuery

variable {config : QuerySettings} {work : Work}

/-- What undisturbed work gets from inputs that carry rows. -/
theorem Work.Undisturbed.deliveries {streams : Location → Sink} {rows : Location → List Row}
    (h : work.Undisturbed config streams)
    (hc : ∀ l ∈ work.job.inputs, ∃ schema, (streams l).Carries config schema (rows l)) :
    (∀ d ∈ work.deliveries, d.fault = none) ∧
      work.deliveries.flatMap Delivery.rows = work.job.inputs.flatMap rows := by
  rw [Work.deliveries, h.readers_eq, List.map_map]
  constructor
  · refine List.forall_mem_map.mpr fun l hl => ?_
    obtain ⟨schema, hcarries⟩ := hc l hl
    exact hcarries.drain.1
  · rw [List.flatMap_map]
    refine List.flatMap_congr fun l hl => ?_
    obtain ⟨schema, hcarries⟩ := hc l hl
    exact hcarries.drain.2

namespace StageGraph.Runs

variable {registry : Registry} {graph : StageGraph} {works : List Work}
  {streams : Location → Sink} {rows : Location → List Row}

/-! ### Jobs that have succeeded -/

/-- The outputs of a job that deals rows out bring what was dealt to them, once it has succeeded. -/
theorem brings_dealt (h : graph.Runs registry works streams) (hw : work ∈ works)
    (hok : work.outcome.result = .ok ()) {deals : List (Nat × Row)}
    (hd : work.operator.Deals work.job work.deliveries work.job.outputs.length deals) {i : Nat}
    {output : Location} (hi : work.job.outputs[i]? = some output) :
    Brings (streams output).bytes (Stage.dealtTo i deals) := by
  obtain ⟨hlength, hblank⟩ := h.writers work hw
  obtain ⟨w, hget, hsink⟩ := h.output_at hw hi
  rw [← hlength] at hd
  rw [hsink]
  exact hd.brings (fun w hw' => ⟨_, hblank w hw'⟩) hok hget

/-- A built-in operator that has succeeded has come to the end of its inputs, and has got from them
what the streams bring. -/
theorem rows_of_brings (h : graph.Runs registry works streams) (hw : work ∈ works)
    (hok : work.outcome.result = .ok ()) {tag : JobTag}
    (ho : (tag, work.operator) ∈ Registry.builtins.entries)
    (hb : ∀ input ∈ work.job.inputs, Brings (streams input).bytes (rows input)) :
    (∀ d ∈ work.deliveries, d.fault = none) ∧
      work.deliveries.flatMap Delivery.rows = work.job.inputs.flatMap rows := by
  obtain ⟨stage, hrun, -⟩ := Operator.perform_eq_ok hok
  have hclean := (Registry.builtins_contract ho work.job).1 work.deliveries _ stage hrun
  have hfaults := Work.forall_mem_deliveries.mp hclean
  have hreaders := h.readers work hw
  refine ⟨hclean, ?_⟩
  rw [Work.deliveries, List.flatMap_map]
  generalize work.readers = readers at hreaders hfaults
  generalize work.job.inputs = inputs at hreaders hb
  induction hreaders with
  | nil => rfl
  | @cons input r inputs readers hr _ ih =>
    obtain ⟨hinput, hinputs⟩ := List.forall_mem_cons.mp hb
    obtain ⟨hfault, hrest⟩ := List.forall_mem_cons.mp hfaults
    rw [List.flatMap_cons, List.flatMap_cons, hinput.complete r hr.1 hr.2 hfault,
      ih hrest hinputs]

/-- Jobs of the graph that have succeeded have a work that has. -/
theorem work_of_succeeded (h : graph.Runs registry works streams) {jobs : List StageJob}
    (hj : ∀ job ∈ jobs, job ∈ graph.jobs) (hok : Work.Succeeded works jobs) :
    ∀ job ∈ jobs, ∃ work ∈ works, work.job = job ∧ work.outcome.result = .ok () := by
  intro job hjob
  obtain ⟨work, hw, rfl⟩ := h.work_of_mem (hj job hjob)
  exact ⟨work, hw, rfl, hok work hw hjob⟩

/-- The operator of a tag that the registry has. -/
theorem operator_of_tag (h : graph.Runs registry works streams) (hw : work ∈ works)
    {tag : JobTag} {operator : Operator} (ht : work.job.tag = tag)
    (hget : registry.get? tag = some operator) : work.operator = operator := by
  have hwork := h.operator work hw
  rw [ht] at hwork
  exact Option.some.inj (hwork.symm.trans hget)

/-- The outputs of a job that moves rows bring what was dealt to them, once it has succeeded. -/
theorem brings_moved (h : graph.Runs registry works streams) {kind : JobKind}
    {inputs : List Location} {n : Nat} {schema : Schema} {job : StageJob}
    (hd : job.Does kind inputs n schema []) {operator : Operator}
    (hget : registry.get? kind.tag = some operator)
    (hbuiltin : Registry.builtins.get? kind.tag = some operator)
    {deals : List Row → List (Nat × Row)} (hdeals : operator.DealsRows job n deals)
    (hw : ∃ work ∈ works, work.job = job ∧ work.outcome.result = .ok ())
    (hb : ∀ l ∈ inputs, Brings (streams l).bytes (rows l)) {i : Nat} {output : Location}
    (hi : job.outputs[i]? = some output) :
    Brings (streams output).bytes (Stage.dealtTo i (deals (inputs.flatMap rows))) := by
  obtain ⟨work, hmem, rfl, hok⟩ := hw
  obtain rfl : work.operator = operator :=
    h.operator_of_tag hmem (by rw [StageJob.tag, hd.kind_eq]) hget
  obtain ⟨hclean, hrows⟩ :=
    h.rows_of_brings hmem hok (Registry.get?_mem hbuiltin) (hd.inputs_eq ▸ hb)
  have hdealt := hdeals work.deliveries hclean
  rw [hrows, hd.inputs_eq, ← hd.length_outputs] at hdealt
  exact h.brings_dealt hmem hok hdealt hi

/-! ### Jobs that succeed -/

/-- The outputs of a job that deals portable rows out carry them. -/
theorem carries (h : graph.Runs registry works streams) (hw : work ∈ works)
    (hu : work.Undisturbed config streams) {deals : List (Nat × Row)}
    (hd : work.operator.Deals work.job work.deliveries work.job.outputs.length deals)
    (ht : ∀ d ∈ deals, d.1 < work.job.outputs.length)
    (hp : ∀ i < work.job.outputs.length,
      Portable config.maxMessageSize work.job.schema (Stage.dealtTo i deals)) :
    work.outcome.result = .ok () ∧ ∀ (i : Nat) (output : Location),
      work.job.outputs[i]? = some output →
        (streams output).Carries config work.job.schema (Stage.dealtTo i deals) := by
  have hlength := (h.writers work hw).1
  rw [← hlength] at hd ht
  obtain ⟨hok, hcarries⟩ := hd.succeeds (P := fun i w =>
      w.frames.sink.Carries config work.job.schema (Stage.dealtTo i deals)) ht (by
    intro i w hi
    rw [hu.writers_eq, List.getElem?_map] at hi
    obtain ⟨output, hget, rfl⟩ := Option.map_eq_some_iff.mp hi
    exact (hp i (List.getElem?_eq_some_iff.mp hget).1).written)
  refine ⟨hok, fun i output hi => ?_⟩
  obtain ⟨w, hget, hsink⟩ := h.output_at hw hi
  rw [hsink]
  exact hcarries i w hget

section Undisturbed

variable (h : graph.Runs registry works streams)
  (hu : ∀ work ∈ works, work.Undisturbed config streams)

include h hu

/-- A scan of numbers carries the rows of its files. -/
theorem scan_carries (hget : registry.get? .scan = some Operator.scanNumbers) {job : StageJob}
    (hj : job ∈ graph.jobs) {table : String} {files : List String} {schema : Schema}
    {payload : Bytes} (hd : job.Does (.scan table [] files) [] 1 schema payload) {rows : List Row}
    (hf : List.Forall₂ (fun file row => Operator.scanNumber file = Stage.write 0 row) files rows)
    (hp : Portable config.maxMessageSize schema rows) :
    ∀ l ∈ job.outputs, (streams l).Carries config schema rows ∧ Brings (streams l).bytes rows := by
  obtain ⟨work, hw, rfl⟩ := h.work_of_mem hj
  have hoperator := h.operator_of_tag hw (by rw [StageJob.tag, hd.kind_eq]; rfl) hget
  have hdeals := Operator.scanNumbers_deals hd.kind_eq hf work.deliveries work.job.outputs.length
  rw [← hoperator] at hdeals
  have hzero : Stage.dealtTo 0 (rows.map fun row => (0, row)) = rows := by
    rw [Operator.dealtTo_shuffle]
    simp
  have hone := hd.length_outputs
  obtain ⟨hok, hcarries⟩ := h.carries hw (hu work hw) hdeals (by simp [hone]) (by
    intro i hi
    obtain rfl : i = 0 := by omega
    rwa [hzero, hd.schema_eq])
  intro l hl
  obtain ⟨i, hi⟩ := List.mem_iff_getElem?.mp hl
  obtain rfl : i = 0 := by
    have hlt := (List.getElem?_eq_some_iff.mp hi).1
    omega
  have hcarried := hcarries 0 l hi
  have hbrings := h.brings_dealt hw hok hdeals hi
  rw [hzero] at hcarried hbrings
  exact ⟨hd.schema_eq ▸ hcarried, hbrings⟩

/-- A table of numbers that is scanned in slices: each stream carries the rows of its slice. -/
theorem slices_carry (hget : registry.get? .scan = some Operator.scanNumbers) {node : PlanNode}
    {p : Nat} {jobs : List StageJob} {ls : List Location} (hl : Lowered p node jobs ls)
    {table : TableScan} (hk : node.kind = .scan table) (hi : node.inputs = [])
    (hj : ∀ job ∈ jobs, job ∈ graph.jobs) {slices : List (List String × List Row)}
    (hs : table.slices p = .ok (slices.map fun s => .scan table.table [] s.1))
    (hf : ∀ s ∈ slices, List.Forall₂
      (fun file row => Operator.scanNumber file = Stage.write 0 row) s.1 s.2)
    (hp : ∀ s ∈ slices, Portable config.maxMessageSize node.schema s.2) :
    ls.map (fun l => config.read (streams l)) = slices.map (·.2) ∧
      ∀ l ∈ ls, (streams l).Carries config node.schema (config.read (streams l)) ∧
        Brings (streams l).bytes (config.read (streams l)) := by
  obtain ⟨kinds, hkinds, hjobs, rfl⟩ := hl.of_scan hk hi
  obtain rfl := Except.ok.inj (hs.symm.trans hkinds)
  rw [List.forall₂_map_left_iff] at hjobs
  clear hs hkinds hl
  induction hjobs with
  | nil => exact ⟨rfl, by simp⟩
  | @cons s job slices jobs hjob _ ih =>
    obtain ⟨hfirst, hrest⟩ := List.forall_mem_cons.mp hj
    obtain ⟨hfile, hfiles⟩ := List.forall_mem_cons.mp hf
    obtain ⟨hportable, hportables⟩ := List.forall_mem_cons.mp hp
    obtain ⟨hmap, hall⟩ := ih hrest hfiles hportables
    have houtput : job.outputs = [job.location.withChannel 0] := hjob.outputs_eq
    have hcarried := h.scan_carries hu hget hfirst hjob hfile hportable _
      (houtput ▸ List.mem_singleton_self (job.location.withChannel 0))
    have hread := hcarried.1.drain.2
    rw [← hread] at hcarried
    rw [outputsOf_cons, houtput, List.singleton_append, List.map_cons, hread, hmap]
    exact ⟨rfl, List.forall_mem_cons.mpr ⟨hcarried, hall⟩⟩

/-- A job that moves portable rows succeeds. -/
theorem moves_ok {kind : JobKind} {inputs : List Location} {n : Nat} {schema : Schema}
    {job : StageJob} (hd : job.Does kind inputs n schema []) {operator : Operator}
    (hget : registry.get? kind.tag = some operator) {deals : List Row → List (Nat × Row)}
    (hdeals : operator.DealsRows job n deals)
    (hc : ∀ l ∈ inputs, (streams l).Carries config schema (rows l))
    (ht : ∀ d ∈ deals (inputs.flatMap rows), d.1 < n)
    (hp : ∀ i < n, Portable config.maxMessageSize schema
      (Stage.dealtTo i (deals (inputs.flatMap rows)))) :
    Work.Succeeded works [job] := by
  intro work hw hjob
  obtain rfl := List.mem_singleton.mp hjob
  obtain rfl : work.operator = operator :=
    h.operator_of_tag hw (by rw [StageJob.tag, hd.kind_eq]) hget
  have hinputs : ∀ l ∈ work.job.inputs, ∃ schema, (streams l).Carries config schema (rows l) :=
    fun l hl => ⟨schema, hc l (hd.inputs_eq ▸ hl)⟩
  obtain ⟨hclean, hrows⟩ := (hu work hw).deliveries hinputs
  have hdealt := hdeals work.deliveries hclean
  rw [hrows, hd.inputs_eq, ← hd.length_outputs] at hdealt
  rw [← hd.length_outputs] at ht hp
  rw [← hd.schema_eq] at hp
  exact (h.carries hw (hu work hw) hdealt ht hp).1

/-- Shuffles of portable rows succeed. -/
theorem shuffles_ok (hget : registry.get? .shuffle = some Operator.shuffle) {keys : List Nat}
    {ls : List Location} {p : Nat} {schema : Schema} {jobs : List StageJob}
    (hd : List.Forall₂ (fun l => StageJob.Does (.shuffle keys) [l] p schema []) ls jobs)
    (hc : ∀ l ∈ ls, (streams l).Carries config schema (rows l)) : Work.Succeeded works jobs := by
  intro work hw hjob
  obtain ⟨l, hl, hdoes⟩ : ∃ l ∈ ls, work.job.Does (.shuffle keys) [l] p schema [] := by
    obtain ⟨i, hi, hjob⟩ := List.mem_iff_getElem.mp hjob
    obtain ⟨hlength, hall⟩ := List.forall₂_iff_get.mp hd
    have hlt : i < ls.length := hlength ▸ hi
    rw [← hjob]
    exact ⟨ls[i], List.getElem_mem hlt, hall i hlt hi⟩
  have hpos : 0 < p := by
    rw [← hdoes.length_outputs]
    exact List.length_pos_iff.mpr (StageJob.outputs_ne_nil hdoes.valid)
  have hcarries := hc l hl
  refine h.moves_ok hu hdoes hget (Operator.shuffle_deals hdoes.kind_eq p)
    (List.forall_mem_singleton.mpr hcarries) ?_ ?_ work hw (List.mem_singleton_self _)
  · exact List.forall_mem_map.mpr fun row _ => Operator.route_lt hpos row keys
  · intro i _
    rw [List.flatMap_singleton, Operator.dealtTo_shuffle]
    exact hcarries.portable.sublist List.filter_sublist

/-- A balance of portable rows succeeds. -/
theorem balance_ok (hget : registry.get? .balance = some Operator.balance)
    {ls : List Location} {n : Nat} (hn : 0 < n) {schema : Schema} {job : StageJob}
    (hd : job.Does .balance ls n schema [])
    (hc : ∀ l ∈ ls, (streams l).Carries config schema (rows l))
    (hp : Portable config.maxMessageSize schema (ls.flatMap rows)) :
    Work.Succeeded works [job] := by
  refine h.moves_ok hu hd hget (Operator.balance_deals job n) hc (Operator.inTurn_lt hn) ?_
  intro i _
  refine hp.sublist ((Operator.dealtTo_sublist i _).trans ?_)
  rw [Operator.map_snd_inTurn]

/-- A duplicate of portable rows succeeds. -/
theorem duplicate_ok (hget : registry.get? .duplicate = some Operator.duplicate)
    {ls : List Location} {n : Nat} {schema : Schema} {job : StageJob}
    (hd : job.Does .duplicate ls n schema [])
    (hc : ∀ l ∈ ls, (streams l).Carries config schema (rows l))
    (hp : Portable config.maxMessageSize schema (ls.flatMap rows)) :
    Work.Succeeded works [job] := by
  refine h.moves_ok hu hd hget (Operator.duplicate_deals job n) hc ?_ ?_
  · intro d hdealt
    obtain ⟨row, -, hd⟩ := List.mem_flatMap.mp hdealt
    obtain ⟨i, hi, rfl⟩ := List.mem_map.mp hd
    exact List.mem_range.mp hi
  · intro i hi
    rwa [Operator.dealtTo_duplicate hi]

end Undisturbed

end StageGraph.Runs

end StagedQuery
