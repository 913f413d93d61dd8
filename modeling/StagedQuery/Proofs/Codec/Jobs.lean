import StagedQuery.Proofs.Codec.Messages

/-!
# Jobs and requests are read back

A request that hands out a job is read as it was written exactly if every floating-point number
among the values of its partitions is, each for itself (`ControlRequest.readsBackIff`): such a
number is *legible* if its text is read as the number. Everything else comes back whatever it is,
and so do requests without floating-point numbers (`ControlRequest.readsBack`).

The kind of a job is looked at as a whole before its tag is known, so that besides the decoders it
matters how deep it is, and that all of it can be read (`Json.FitsIn`).
-/

namespace StagedQuery

namespace Json

/-! ### Values that are read as a whole -/

/-- A value of less than `d` levels with nothing unreadable in it. -/
def FitsIn (d : Nat) (json : Json) : Prop := json.levels < d ∧ json.isReadable = true

theorem fits_iff (scope : Scope) (json : Json) :
    json.fits scope = true ↔ FitsIn scope.depth json := by
  simp [fits, FitsIn]

variable {d : Nat}

theorem FitsIn.mono {json : Json} (h : FitsIn d json) {d' : Nat} (hd : d ≤ d') : FitsIn d' json :=
  ⟨Nat.lt_of_lt_of_le h.1 hd, h.2⟩

theorem FitsIn.array {items : List Json} (h0 : 0 < d) (h : ∀ item ∈ items, FitsIn d item) :
    FitsIn (d + 1) (array items) := by
  have hitems : itemLevels items < d ∧ itemsReadable items = true := by
    induction items with
    | nil => exact ⟨h0, rfl⟩
    | cons item items ih =>
      obtain ⟨hitem, hitems⟩ := List.forall_mem_cons.mp h
      obtain ⟨hlevels, hreadable⟩ := ih hitems
      exact ⟨Nat.max_lt.mpr ⟨hitem.1, hlevels⟩, by rw [itemsReadable, hitem.2, hreadable]; rfl⟩
  exact ⟨Nat.succ_lt_succ hitems.1, hitems.2⟩

theorem FitsIn.object {members : List (String × Json)} (h0 : 0 < d)
    (h : ∀ member ∈ members, FitsIn d member.2) : FitsIn (d + 1) (object members) := by
  have hmembers : memberLevels members < d ∧ membersReadable members = true := by
    induction members with
    | nil => exact ⟨h0, rfl⟩
    | cons member members ih =>
      obtain ⟨hmember, hmembers⟩ := List.forall_mem_cons.mp h
      obtain ⟨hlevels, hreadable⟩ := ih hmembers
      exact ⟨Nat.max_lt.mpr ⟨hmember.1, hlevels⟩,
        by rw [membersReadable, hmember.2, hreadable]; rfl⟩
  exact ⟨Nat.succ_lt_succ hmembers.1, hmembers.2⟩

/-- A list of values, as their text is read. -/
theorem FitsIn.list {α : Type} {write : α → Json} {as : List α} (h0 : 0 < d)
    (h : ∀ a ∈ as, FitsIn d (write a).reread) :
    FitsIn (d + 1) (Json.array (as.map write)).reread := by
  rw [reread, rereadItems_map]
  refine .array h0 fun item hitem => ?_
  obtain ⟨a, ha, rfl⟩ := List.mem_map.mp hitem
  exact h a ha

theorem fitsIn_string (s : String) : FitsIn 1 (string s) := ⟨Nat.one_pos, rfl⟩

theorem fitsIn_integer (n : Int) : FitsIn 1 (integer n) := ⟨Nat.one_pos, rfl⟩

theorem fitsIn_bool (b : Bool) : FitsIn 1 (bool b) := ⟨Nat.one_pos, rfl⟩

/-- A number of which something is read. -/
theorem Denotes.fitsIn {cs : List Char} {json : Json} (h : Denotes cs json)
    (hreadable : json ≠ unreadable) : FitsIn 1 json := by
  refine ⟨by rw [h.levels_eq]; exact Nat.one_pos, ?_⟩
  have hlevels := h.levels_eq
  cases json with
  | unreadable => exact absurd rfl hreadable
  | array items => cases hlevels
  | object members => cases hlevels
  | null | bool | integer | float | single | string => rfl

/-- The tag of a tagged record stands first. -/
theorem tagged?_object {tag name : String} {members : List (String × Json)} {scope : Scope}
    (hfits : FitsIn scope.depth (.object ((tag, .string name) :: members)))
    (hmembers : ∀ member ∈ members, member.1 ≠ tag) :
    tagged? tag scope (.object ((tag, .string name) :: members)) =
      some (name, ⟨scope.depth, true⟩, .object members) := by
  have hnone : members.filter (·.1 == tag) = [] :=
    List.filter_eq_nil_iff.mpr fun member hmember => by simpa using hmembers member hmember
  have hall : members.filter (·.1 != tag) = members :=
    List.filter_eq_self.mpr fun member hmember => by simpa using hmembers member hmember
  rw [tagged?, if_pos ((fits_iff scope _).mpr hfits)]
  simp [hnone, hall]

theorem tagged?_of_not_fitsIn {tag : String} {scope : Scope} {json : Json}
    (h : ¬ FitsIn scope.depth json) : tagged? tag scope json = none := by
  rw [tagged?, if_neg (by rwa [fits_iff])]

/-! ### Numbers -/

theorem int32_integer (n : Int32) (scope : Scope) : int32 scope (integer n.toInt) = some n := by
  have hn : (-0x80000000 : Int) ≤ n.toInt ∧ n.toInt ≤ 0x7fffffff :=
    ⟨n.le_toInt, Int.le_of_lt_add_one n.toInt_lt⟩
  simp [int32, bounded, hn]

theorem int64_integer (n : Int64) (scope : Scope) : int64 scope (integer n.toInt) = some n := by
  have hn : (-0x8000000000000000 : Int) ≤ n.toInt ∧ n.toInt ≤ 0x7fffffffffffffff :=
    ⟨n.le_toInt, Int.le_of_lt_add_one n.toInt_lt⟩
  simp [int64, bounded, hn]

theorem fits64_int32 (n : Int32) : Fits64 n.toInt := by
  have hlow := n.le_toInt
  have hhigh := n.toInt_lt
  simp only [Fits64]
  omega

theorem fits64_int64 (n : Int64) : Fits64 n.toInt := by
  have hlow := n.le_toInt
  have hhigh := n.toInt_lt
  simp only [Fits64]
  omega

end Json

/-! ### Values -/

namespace Value

/-- The text of a floating-point number is read as the number; other values may be anything. -/
def Legible : Value → Prop
  | float32 bits => Json.decodeBytes Json.singlePrecision (Json.single bits).bytes = some bits
  | float64 bits => Json.decodeBytes Json.double (Json.float bits).bytes = some bits
  | _ => True

instance : (v : Value) → Decidable v.Legible
  | float32 _ => inferInstanceAs (Decidable (_ = some _))
  | float64 _ => inferInstanceAs (Decidable (_ = some _))
  | null | boolean _ | int32 _ | int64 _ | utf8 _ | date _ | timestamp _ => .isTrue trivial

/-- Whether a value is a floating-point number. -/
def isFloat : Value → Bool
  | float32 _ | float64 _ => true
  | _ => false

theorem legible_of_not_isFloat {v : Value} (h : v.isFloat = false) : v.Legible := by
  cases v with
  | float32 bits | float64 bits => cases h
  | null | boolean | int32 | int64 | utf8 | date | timestamp => trivial

theorem legible_float32 {bits : UInt32} (scope : Json.Scope) :
    (float32 bits).Legible ↔
      Json.singlePrecision scope (Json.single bits).reread = some bits := by
  rw [Legible, Json.decodeBytes_bytes Json.singlePrecision (Json.single bits) trivial]
  cases (Json.single bits).reread <;> rfl

theorem legible_float64 {bits : UInt64} (scope : Json.Scope) :
    (float64 bits).Legible ↔ Json.double scope (Json.float bits).reread = some bits := by
  rw [Legible, Json.decodeBytes_bytes Json.double (Json.float bits) trivial]
  cases (Json.float bits).reread <;> rfl

/-- What is no number has no digits that could be read. -/
theorem not_legible_float32 {bits : UInt32} (h : FloatNotation.jsonSingle.single bits = "null") :
    ¬(float32 bits).Legible := by
  rw [Legible, Json.bytes_eq, Json.chars, h]
  exact nofun

theorem writable_toJson (v : Value) : v.toJson.Writable := by
  cases v with
  | null => trivial
  | int32 n => exact ⟨Json.fits64_int32 n, trivial⟩
  | int64 n | date n | timestamp n => exact ⟨Json.fits64_int64 n, trivial⟩
  | boolean | float32 | float64 | utf8 => exact ⟨trivial, trivial⟩

/-- A value comes back exactly if it is legible. -/
theorem readsBackIff (v : Value) : Json.ReadsBackIff v.Legible decoder toJson 2 v := by
  refine ⟨v.writable_toJson, fun scope hs => ?_⟩
  obtain ⟨inner, hi, -⟩ := Json.enter?_of_lt hs Nat.one_pos
  cases v with
  | null => exact iff_of_true rfl trivial
  | boolean b => simp [decoder, toJson, variant, Json.variant?, hi, Json.boolean, Legible]
  | int32 n => simp [decoder, toJson, variant, Json.variant?, hi, Json.int32_integer, Legible]
  | int64 n | date n | timestamp n =>
    simp [decoder, toJson, variant, Json.variant?, hi, Json.int64_integer, Legible]
  | utf8 text => simp [decoder, toJson, variant, Json.variant?, hi, Json.text, Legible]
  | float32 bits =>
    rw [legible_float32 inner]
    simp [decoder, toJson, variant, Json.variant?, hi]
  | float64 bits =>
    rw [legible_float64 inner]
    simp [decoder, toJson, variant, Json.variant?, hi]

/-- A value that comes back can be read as a whole. -/
theorem fitsIn {v : Value} (h : v.Legible) : Json.FitsIn 2 v.toJson.reread := by
  have hvariant {name : String} {content : Json} (hcontent : Json.FitsIn 1 content.reread) :
      Json.FitsIn 2 (variant name content).reread :=
    .object Nat.one_pos (by simpa using hcontent)
  cases v with
  | null => exact (Json.fitsIn_string _).mono (by decide)
  | boolean b => exact hvariant (Json.fitsIn_bool b)
  | int32 n => exact hvariant (Json.fitsIn_integer _)
  | int64 n | date n | timestamp n => exact hvariant (Json.fitsIn_integer _)
  | utf8 text => exact hvariant (Json.fitsIn_string text)
  | float32 bits =>
    refine hvariant ((Json.denotes_single bits).fitsIn fun hnone => ?_)
    rw [legible_float32 .top, hnone] at h
    cases h
  | float64 bits =>
    refine hvariant ((Json.denotes_float bits).fitsIn fun hnone => ?_)
    rw [legible_float64 .top, hnone] at h
    cases h

end Value

/-! ### Kinds of jobs -/

namespace Partition

/-- Every value is legible. -/
def Legible (p : Partition) : Prop := ∀ v ∈ p.values, v.Legible

instance (p : Partition) : Decidable p.Legible := inferInstanceAs (Decidable (∀ v ∈ _, _))

theorem readsBackIff (p : Partition) : Json.ReadsBackIff p.Legible decoder toJson 4 p := by
  have hvalues := Json.ReadsBackIff.list (by decide) fun v (_ : v ∈ p.values) => v.readsBackIff
  have hfiles := Json.ReadsBack.list Nat.one_pos
    fun file (_ : file ∈ p.files) => Json.text_readsBack file 1
  refine ⟨⟨hvalues.writable, hfiles.writable, trivial⟩, fun scope hs => ?_⟩
  obtain ⟨inner, hi, hd⟩ := Json.enter?_of_lt hs (by decide)
  have hvalues := hvalues.reads inner hd
  have hfiles := hfiles.reads inner (by omega)
  rw [Legible, ← hvalues]
  simp [decoder, toJson, Json.fields?, hi, Json.field, hfiles, Option.bind_eq_some_iff]
  constructor
  · rintro ⟨values, hread, hp⟩
    rwa [← hp] at hread ⊢
  · intro hread
    exact ⟨p.values, hread, rfl⟩

theorem fitsIn {p : Partition} (h : p.Legible) : Json.FitsIn 4 p.toJson.reread := by
  have hvalues : Json.FitsIn 3 (Json.array (p.values.map Value.toJson)).reread :=
    .list (by decide) fun v hv => Value.fitsIn (h v hv)
  have hfiles : Json.FitsIn 2 (Json.array (p.files.map Json.string)).reread :=
    .list Nat.one_pos fun file _ => Json.fitsIn_string file
  exact .object (by decide) (by simpa using ⟨hvalues, hfiles.mono (by decide)⟩)

end Partition

/-- The column of a sort key has 64 bits. -/
def SortKey.In64 (k : SortKey) : Prop := k.column < UInt64.size

instance (k : SortKey) : Decidable k.In64 := inferInstanceAs (Decidable (_ < _))

theorem SortKey.readsBack {k : SortKey} (h : k.In64) : Json.ReadsBack decoder toJson 2 k where
  writable := ⟨Json.fits64_of_lt h, trivial, trivial⟩
  reads scope hs := by
    obtain ⟨inner, hi, -⟩ := Json.enter?_of_lt hs Nat.one_pos
    have hcolumn := Json.natural_integer h inner
    simp [decoder, toJson, Json.fields?, hi, Json.field, Json.boolean, hcolumn]

theorem SortKey.fitsIn (k : SortKey) : Json.FitsIn 2 k.toJson.reread :=
  .object Nat.one_pos (by simpa using ⟨Json.fitsIn_integer _, Json.fitsIn_bool _⟩)

/-- The tags in the descriptions of jobs. -/
theorem JobTag.snakeNames : all.map snakeName =
    ["scan", "select", "filter", "group_by", "aggregate_local", "aggregate_global", "show",
      "insert", "shuffle", "duplicate", "balance", "union", "aggregate", "join", "hash_join",
      "order_by_local", "order_by_global", "distinct_local", "distinct_global", "limit"] := by
  decide

namespace JobKind

/-- The numbers among the parameters have 64 bits. -/
def In64 : JobKind → Prop
  | shuffle keyColumns => ∀ n ∈ keyColumns, n < UInt64.size
  | join leftInputs => leftInputs < UInt64.size
  | hashJoin leftInputs leftKeys rightKeys =>
    leftInputs < UInt64.size ∧ (∀ n ∈ leftKeys, n < UInt64.size) ∧ ∀ n ∈ rightKeys, n < UInt64.size
  | orderByLocal keys => ∀ k ∈ keys, k.In64
  | orderByGlobal keys => ∀ k ∈ keys, k.In64
  | limit count => count < UInt64.size
  | _ => True

/-- The partitions that a job scans. -/
def partitions : JobKind → List Partition
  | scan _ partitions _ => partitions
  | _ => []

/-- Every value that comes with a scan is legible. -/
def Legible (k : JobKind) : Prop := ∀ p ∈ k.partitions, p.Legible

instance (k : JobKind) : Decidable k.Legible := inferInstanceAs (Decidable (∀ p ∈ _, _))

theorem columns_readsBack {columns : List Nat} (h : ∀ n ∈ columns, n < UInt64.size) (depth : Nat) :
    Json.ReadsBack (Json.list Json.natural) columnsJson (depth + 2) columns :=
  .list (Nat.succ_pos _) fun n hn => Json.natural_readsBack (h n hn) (depth + 1)

theorem keys_readsBack {keys : List SortKey} (h : ∀ k ∈ keys, k.In64) :
    Json.ReadsBack (Json.list SortKey.decoder) (fun keys => .array (keys.map SortKey.toJson)) 3
      keys :=
  .list (by decide) fun k hk => SortKey.readsBack (h k hk)

theorem fitsIn_columns (columns : List Nat) : Json.FitsIn 2 (columnsJson columns).reread :=
  .list Nat.one_pos fun n _ => Json.fitsIn_integer n

theorem fitsIn_keys (keys : List SortKey) :
    Json.FitsIn 3 (Json.array (keys.map SortKey.toJson)).reread :=
  .list (by decide) fun k _ => k.fitsIn

theorem writable_partitions (partitions : List Partition) :
    (Json.array (partitions.map Partition.toJson)).Writable :=
  Json.writableItems_map fun p _ => p.readsBackIff.writable

theorem writable_toJson {k : JobKind} (h : k.In64) : k.toJson.Writable := by
  refine ⟨trivial, ?_⟩
  cases k with
  | scan table partitions files =>
    exact ⟨trivial, writable_partitions partitions, Json.writableItems_map fun _ _ => trivial,
      trivial⟩
  | shuffle keyColumns => exact ⟨(columns_readsBack h 0).writable, trivial⟩
  | join leftInputs => exact ⟨Json.fits64_of_lt h, trivial⟩
  | hashJoin leftInputs leftKeys rightKeys =>
    exact ⟨Json.fits64_of_lt h.1, (columns_readsBack h.2.1 0).writable,
      (columns_readsBack h.2.2 0).writable, trivial⟩
  | orderByLocal keys | orderByGlobal keys => exact ⟨(keys_readsBack h).writable, trivial⟩
  | limit count => exact ⟨Json.fits64_of_lt h, trivial⟩
  | select | filter | groupBy | aggregateLocal | aggregateGlobal | «show» | insert | duplicate
    | balance | union | aggregate | distinctLocal | distinctGlobal => trivial

/-- Parameters that come back can be read as a whole. -/
theorem fitsIn {k : JobKind} (h : k.Legible) : Json.FitsIn 6 k.toJson.reread := by
  refine .object (by decide) ?_
  rw [Json.rereadMembers_cons, List.forall_mem_cons]
  refine ⟨(Json.fitsIn_string _).mono (by decide), ?_⟩
  cases k with
  | scan table partitions files =>
    have hpartitions : Json.FitsIn 5 (Json.array (partitions.map Partition.toJson)).reread :=
      .list (by decide) fun p hp => Partition.fitsIn (h p hp)
    have hfiles : Json.FitsIn 2 (Json.array (files.map Json.string)).reread :=
      .list Nat.one_pos fun file _ => Json.fitsIn_string file
    simpa [parameters] using
      ⟨(Json.fitsIn_string table).mono (by decide), hpartitions, hfiles.mono (by decide)⟩
  | shuffle keyColumns =>
    simpa [parameters] using (fitsIn_columns keyColumns).mono (by decide)
  | hashJoin leftInputs leftKeys rightKeys =>
    simpa [parameters] using ⟨(Json.fitsIn_integer _).mono (by decide),
      (fitsIn_columns leftKeys).mono (by decide), (fitsIn_columns rightKeys).mono (by decide)⟩
  | orderByLocal keys | orderByGlobal keys =>
    simpa [parameters] using (fitsIn_keys keys).mono (by decide)
  | join n | limit n => simpa [parameters] using (Json.fitsIn_integer n).mono (by decide)
  | select | filter | groupBy | aggregateLocal | aggregateGlobal | «show» | insert | duplicate
    | balance | union | aggregate | distinctLocal | distinctGlobal => simp [parameters]

theorem ne_kind_of_mem_parameters {k : JobKind} :
    ∀ member ∈ Json.rereadMembers k.parameters, member.1 ≠ "kind" := by
  cases k <;> simp [parameters]

/-- The parameters of a kind come back exactly if its partitions do. -/
theorem ofParameters_iff {k : JobKind} (h : k.In64) {scope : Json.Scope} (hs : 5 ≤ scope.depth) :
    ofParameters k.tag.snakeName scope (.object (Json.rereadMembers k.parameters)) = some k ↔
      k.Legible := by
  have hplain (hp : k.partitions = []) (hk : ofParameters k.tag.snakeName scope
      (.object (Json.rereadMembers k.parameters)) = some k) :
      ofParameters k.tag.snakeName scope (.object (Json.rereadMembers k.parameters)) = some k ↔
        k.Legible :=
    iff_of_true hk (by simp [Legible, hp])
  have hnames := JobTag.snakeNames
  simp only [JobTag.all, List.map_cons, List.map_nil, List.cons.injEq, and_true] at hnames
  obtain ⟨hscan, hselect, hfilter, hgroupBy, haggregateLocal, haggregateGlobal, hshow, hinsert,
    hshuffle, hduplicate, hbalance, hunion, haggregate, hjoin, hhashJoin, horderByLocal,
    horderByGlobal, hdistinctLocal, hdistinctGlobal, hlimit⟩ := hnames
  cases k with
  | scan table partitions files =>
    have hpartitions := (Json.ReadsBackIff.list (by decide)
      fun p (_ : p ∈ partitions) => p.readsBackIff).reads scope hs
    have hfiles := (Json.ReadsBack.list Nat.one_pos
      fun file (_ : file ∈ files) => Json.text_readsBack file 1).reads scope (by omega)
    rw [Legible, JobKind.partitions]
    simp only [tag, hscan]
    simp [ofParameters, parameters, Json.fields?, Json.field, Json.text, hfiles,
      Option.bind_eq_some_iff]
    exact hpartitions
  | shuffle keyColumns =>
    have hcolumns := (columns_readsBack h 0).reads scope (by omega)
    refine hplain rfl ?_
    simp [tag, hshuffle, ofParameters, parameters, Json.fields?, Json.field, hcolumns]
  | join leftInputs =>
    have hcount := Json.natural_integer h scope
    refine hplain rfl ?_
    simp [tag, hjoin, ofParameters, parameters, Json.fields?, Json.field, hcount]
  | hashJoin leftInputs leftKeys rightKeys =>
    have hcount := Json.natural_integer h.1 scope
    have hleft := (columns_readsBack h.2.1 0).reads scope (by omega)
    have hright := (columns_readsBack h.2.2 0).reads scope (by omega)
    refine hplain rfl ?_
    simp [tag, hhashJoin, ofParameters, parameters, Json.fields?, Json.field, hcount, hleft, hright]
  | orderByLocal keys =>
    have hkeys := (keys_readsBack h).reads scope (by omega)
    refine hplain rfl ?_
    simp [tag, horderByLocal, ofParameters, parameters, Json.fields?, Json.field, hkeys]
  | orderByGlobal keys =>
    have hkeys := (keys_readsBack h).reads scope (by omega)
    refine hplain rfl ?_
    simp [tag, horderByGlobal, ofParameters, parameters, Json.fields?, Json.field, hkeys]
  | limit count =>
    have hcount := Json.natural_integer h scope
    refine hplain rfl ?_
    simp [tag, hlimit, ofParameters, parameters, Json.fields?, Json.field, hcount]
  | select => exact hplain rfl (by rw [tag, hselect]; rfl)
  | filter => exact hplain rfl (by rw [tag, hfilter]; rfl)
  | groupBy => exact hplain rfl (by rw [tag, hgroupBy]; rfl)
  | aggregateLocal => exact hplain rfl (by rw [tag, haggregateLocal]; rfl)
  | aggregateGlobal => exact hplain rfl (by rw [tag, haggregateGlobal]; rfl)
  | «show» => exact hplain rfl (by rw [tag, hshow]; rfl)
  | insert => exact hplain rfl (by rw [tag, hinsert]; rfl)
  | duplicate => exact hplain rfl (by rw [tag, hduplicate]; rfl)
  | balance => exact hplain rfl (by rw [tag, hbalance]; rfl)
  | union => exact hplain rfl (by rw [tag, hunion]; rfl)
  | aggregate => exact hplain rfl (by rw [tag, haggregate]; rfl)
  | distinctLocal => exact hplain rfl (by rw [tag, hdistinctLocal]; rfl)
  | distinctGlobal => exact hplain rfl (by rw [tag, hdistinctGlobal]; rfl)

/-- A kind comes back exactly if every value that comes with it is legible. -/
theorem readsBackIff {k : JobKind} (h : k.In64) :
    Json.ReadsBackIff k.Legible decoder toJson 6 k := by
  refine ⟨writable_toJson h, fun scope hs => ?_⟩
  have hparameters := ofParameters_iff h
    (show 5 ≤ (⟨scope.depth, true⟩ : Json.Scope).depth from Nat.le_of_succ_le hs)
  have hread (hfits : Json.FitsIn scope.depth k.toJson.reread) :
      decoder scope k.toJson.reread = ofParameters k.tag.snakeName ⟨scope.depth, true⟩
        (.object (Json.rereadMembers k.parameters)) := by
    have htagged := Json.tagged?_object hfits ne_kind_of_mem_parameters
    rw [decoder, toJson, Json.reread_object, Json.rereadMembers_cons, Json.reread_string, htagged]
    rfl
  constructor
  · intro hk
    by_cases hfits : Json.FitsIn scope.depth k.toJson.reread
    · rw [hread hfits] at hk
      exact hparameters.mp hk
    · simp [decoder, Json.tagged?_of_not_fitsIn hfits] at hk
  · intro hlegible
    rw [hread ((fitsIn hlegible).mono hs)]
    exact hparameters.mpr hlegible

end JobKind

/-! ### Jobs and requests -/

/-- The numbers of a job have 64 bits. -/
structure StageJob.In64 (job : StageJob) : Prop where
  location : job.location.In64
  kind : job.kind.In64
  inputs : ∀ l ∈ job.inputs, l.In64
  outputs : ∀ l ∈ job.outputs, l.In64

theorem StageJob.writable_toJson {job : StageJob} (h : job.In64) : job.toJson.Writable := by
  have hinputs := Json.ReadsBack.list (by decide) fun l hl => Location.readsBack (h.inputs l hl)
  have houtputs := Json.ReadsBack.list (by decide) fun l hl => Location.readsBack (h.outputs l hl)
  have hpayload := Json.ReadsBack.list Nat.one_pos
    fun b (_ : b ∈ job.payload) => StageJob.byte_readsBack b 1
  exact ⟨trivial, (Location.readsBack h.location).writable, (JobKind.readsBackIff h.kind).writable,
    hinputs.writable, houtputs.writable, job.schema.readsBack.writable, hpayload.writable, trivial⟩

/-- All but the kind of a job comes back in any case. -/
theorem StageJob.decoder_toJson {job : StageJob} (h : job.In64) {scope : Json.Scope}
    (hs : 7 ≤ scope.depth) :
    ∃ inner : Json.Scope, 6 ≤ inner.depth ∧ decoder scope job.toJson.reread =
      (JobKind.decoder inner job.kind.toJson.reread).map fun kind => { job with kind } := by
  obtain ⟨inner, hi, hd⟩ := Json.enter?_of_lt hs (by decide)
  have htask := (job.taskId.readsBack 6).reads inner hd
  have hlocation := (Location.readsBack h.location).reads inner (by omega)
  have hinputs := (Json.ReadsBack.list (by decide)
    fun l hl => Location.readsBack (h.inputs l hl)).reads inner (by omega)
  have houtputs := (Json.ReadsBack.list (by decide)
    fun l hl => Location.readsBack (h.outputs l hl)).reads inner (by omega)
  have hschema := job.schema.readsBack.reads inner (by omega)
  have hpayload := (Json.ReadsBack.list Nat.one_pos
    fun b (_ : b ∈ job.payload) => StageJob.byte_readsBack b 1).reads inner (by omega)
  refine ⟨inner, hd, ?_⟩
  simp [decoder, toJson, Json.fields?, hi, Json.field, Json.fieldOr, htask, hlocation, hinputs,
    houtputs, hschema, hpayload]
  cases JobKind.decoder inner job.kind.toJson.reread <;> rfl

/-- A job comes back exactly if every value that comes with it is legible. -/
theorem StageJob.readsBackIff {job : StageJob} (h : job.In64) :
    Json.ReadsBackIff job.kind.Legible decoder toJson 7 job := by
  refine ⟨writable_toJson h, fun scope hs => ?_⟩
  obtain ⟨inner, hd, hread⟩ := decoder_toJson h hs
  rw [hread, Option.map_eq_some_iff, ← (JobKind.readsBackIff h.kind).reads inner hd]
  constructor
  · rintro ⟨kind, hkind, hjob⟩
    rwa [← hjob] at hkind ⊢
  · intro hkind
    exact ⟨job.kind, hkind, rfl⟩

namespace ControlRequest

/-- The numbers of a request have 64 bits. -/
def In64 : ControlRequest → Prop
  | accept job config => job.In64 ∧ config.In64
  | resolveOutputLocation _ channel => channel < UInt64.size
  | setupWriters _ | setupReaders _ | run _ => True

/-- Every value that comes with the job of a request is legible. -/
def Legible : ControlRequest → Prop
  | accept job _ => job.kind.Legible
  | resolveOutputLocation .. | setupWriters _ | setupReaders _ | run _ => True

theorem executor_readsBack (executor : String) :
    Json.ReadsBack executorDecoder (fun executor => .object [("executor", .string executor)]) 2
      executor := by
  refine ⟨⟨trivial, trivial⟩, fun scope hs => ?_⟩
  obtain ⟨inner, hi, -⟩ := Json.enter?_of_lt hs (by decide)
  simp [executorDecoder, Json.fields?, hi, Json.field, Json.text]

theorem writable_accept {job : StageJob} {config : QuerySettings} (h : (accept job config).In64) :
    (accept job config).toJson.Writable :=
  ⟨⟨(StageJob.readsBackIff h.1).writable, (QuerySettings.readsBack h.2 default).writable, trivial⟩,
    trivial⟩

/-- The settings of a request to accept a job come back in any case. -/
theorem decoder_accept_eq {job : StageJob} {config : QuerySettings} (h : (accept job config).In64)
    (fresh : Identifier) {scope : Json.Scope} (hs : 9 ≤ scope.depth) :
    ∃ inner : Json.Scope, 7 ≤ inner.depth ∧ decoder fresh scope (accept job config).toJson.reread =
      (StageJob.decoder inner job.toJson.reread).map (accept · config) := by
  obtain ⟨outer, ho, hd⟩ := Json.enter?_of_lt hs (by decide)
  obtain ⟨inner, hi, hd⟩ := Json.enter?_of_lt hd (by decide)
  have hconfig := (QuerySettings.readsBack h.2 fresh).reads inner (by omega)
  refine ⟨inner, hd, ?_⟩
  simp [decoder, toJson, Json.variant?, ho, Json.fields?, hi, Json.field, hconfig]
  cases StageJob.decoder inner job.toJson.reread <;> rfl

/-- A request to accept a job comes back if the job is legible. -/
theorem decoder_accept {job : StageJob} {config : QuerySettings} (h : (accept job config).In64)
    (fresh : Identifier) {scope : Json.Scope} (hs : 9 ≤ scope.depth) (config' : QuerySettings) :
    decoder fresh scope (accept job config).toJson.reread = some (accept job config') ↔
      job.kind.Legible ∧ config = config' := by
  obtain ⟨inner, hd, hread⟩ := decoder_accept_eq h fresh hs
  rw [hread, Option.map_eq_some_iff, ← (StageJob.readsBackIff h.1).reads inner hd]
  constructor
  · rintro ⟨_, hjob, heq⟩
    cases heq
    exact ⟨hjob, rfl⟩
  · rintro ⟨hjob, rfl⟩
    exact ⟨job, hjob, rfl⟩

/-- A request comes back exactly if every value that comes with it is legible. -/
theorem readsBackIff {request : ControlRequest} (h : request.In64) (fresh : Identifier) :
    Json.ReadsBackIff request.Legible (decoder fresh) toJson 9 request := by
  cases request with
  | accept job config =>
    refine ⟨writable_accept h, fun scope hs => ?_⟩
    rw [decoder_accept h fresh hs, and_iff_left rfl]
    rfl
  | setupWriters executor | setupReaders executor | run executor =>
    have hexecutor := executor_readsBack executor
    refine ⟨⟨hexecutor.writable, trivial⟩, fun scope hs => iff_of_true ?_ trivial⟩
    obtain ⟨outer, ho, hd⟩ := Json.enter?_of_lt hs (by decide)
    have hexecutor := hexecutor.reads outer (by omega)
    simp at hexecutor
    simp [decoder, toJson, named, Json.variant?, ho, hexecutor]
  | resolveOutputLocation executor channel =>
    refine ⟨⟨⟨trivial, Json.fits64_of_lt h, trivial⟩, trivial⟩,
      fun scope hs => iff_of_true ?_ trivial⟩
    obtain ⟨outer, ho, hd⟩ := Json.enter?_of_lt hs (by decide)
    obtain ⟨inner, hi, -⟩ := Json.enter?_of_lt hd (by decide)
    have hvariant : Json.variant? scope (resolveOutputLocation executor channel).toJson.reread =
        some ("ResolveOutputLocation", some (outer, .object
          [("executor", .string executor), ("channel_index", .integer channel)])) := by
      simp [toJson, Json.variant?, ho]
    have hfields : Json.fields? ["executor", "channel_index"] (.object
        [("executor", .string executor), ("channel_index", .integer channel)]) =
          some [some (.string executor), some (.integer channel)] := by
      simp [Json.fields?]
    refine Option.bind_eq_some_iff.mpr ⟨_, hvariant, ?_⟩
    refine Option.bind_eq_some_iff.mpr ⟨_, rfl, ?_⟩
    refine Option.bind_eq_some_iff.mpr ⟨_, hfields, ?_⟩
    refine Option.bind_eq_some_iff.mpr ⟨_, hi, ?_⟩
    refine Option.bind_eq_some_iff.mpr ⟨_, rfl, ?_⟩
    exact Option.bind_eq_some_iff.mpr ⟨_, Json.natural_integer h inner, rfl⟩

/-- The other request is the same, but for the kind of a job that is not legible. -/
def Resembles : ControlRequest → ControlRequest → Prop
  | accept job config, other =>
    ∃ kind, (job.kind.Legible → kind = job.kind) ∧ other = accept { job with kind } config
  | request, other => other = request

/-- Whatever a request is read as, it is that request, but for the kind of a job that is not
legible. -/
theorem resembles_of_decodeBytes {request other : ControlRequest} (h : request.In64)
    {fresh : Identifier}
    (hread : Json.decodeBytes (decoder fresh) request.toJson.bytes = some other) :
    request.Resembles other := by
  have hlegible := (readsBackIff h fresh).decodeBytes (by decide)
  cases request with
  | accept job config =>
    have htop : 9 ≤ Json.Scope.top.depth := by decide
    have hdecode := hread
    obtain ⟨inner, hd, haccept⟩ := decoder_accept_eq h fresh htop
    obtain ⟨_, -, hjob⟩ := StageJob.decoder_toJson h.1 hd
    rw [Json.decodeBytes_bytes _ _ (writable_accept h), haccept, hjob, Option.map_map] at hread
    obtain ⟨kind, -, hother⟩ := Option.map_eq_some_iff.mp hread
    refine ⟨kind, fun hkind => ?_, hother.symm⟩
    have hsame := Option.some.inj (hdecode.symm.trans (hlegible.mpr hkind))
    exact congrArg StageJob.kind (accept.inj (hother.trans hsame)).1
  | setupWriters | setupReaders | run | resolveOutputLocation =>
    cases hread.symm.trans (hlegible.mpr trivial)
    rfl

/-- Every value that comes with the job of a request is something else than a floating-point
number. -/
def FloatFree : ControlRequest → Prop
  | accept job _ => ∀ p ∈ job.kind.partitions, ∀ v ∈ p.values, v.isFloat = false
  | resolveOutputLocation .. | setupWriters _ | setupReaders _ | run _ => True

theorem FloatFree.legible {request : ControlRequest} (h : request.FloatFree) :
    request.Legible := by
  cases request with
  | accept job config => exact fun p hp v hv => Value.legible_of_not_isFloat (h p hp v hv)
  | resolveOutputLocation | setupWriters | setupReaders | run => trivial

/-- A request without floating-point numbers comes back. -/
theorem readsBack {request : ControlRequest} (h : request.In64) (hfree : request.FloatFree)
    (fresh : Identifier) : Json.ReadsBack (decoder fresh) toJson 9 request :=
  (readsBackIff h fresh).readsBack hfree.legible

end ControlRequest

end StagedQuery
