import StagedQuery.Codec.Data
import StagedQuery.Proofs.Json.RoundTrip

/-!
# Schemas are read back

`Schema.decodeBytes_toJson`: a schema is what its announcement is read as, whatever its columns
are named. A decoder may go only so deep, so each of the statements says how many levels the
value takes. What a decoder is given is what the text of the value is read as, so values with
floating-point numbers can be spoken of too; of these it may depend on the numbers whether they
come back (`Json.ReadsBackIff`).
-/

namespace StagedQuery

namespace Json

/-- What is written for `a` can be written, and wherever `depth` levels are left, a decoder makes
of its text the value `a` again exactly if `p` holds. -/
structure ReadsBackIff {α : Type} (p : Prop) (decoder : Decoder α) (write : α → Json)
    (depth : Nat) (a : α) : Prop where
  writable : Writable (write a)
  reads : ∀ scope : Scope, depth ≤ scope.depth → (decoder scope (write a).reread = some a ↔ p)

/-- What is written for `a` can be written, and wherever `depth` levels are left, a decoder makes
of its text the value `a` again. -/
structure ReadsBack {α : Type} (decoder : Decoder α) (write : α → Json) (depth : Nat) (a : α) :
    Prop where
  writable : Writable (write a)
  reads : ∀ scope : Scope, depth ≤ scope.depth → decoder scope (write a).reread = some a

variable {α : Type} {decoder : Decoder α} {write : α → Json} {depth : Nat} {a : α}

theorem ReadsBack.iff (h : ReadsBack decoder write depth a) {p : Prop} (hp : p) :
    ReadsBackIff p decoder write depth a :=
  ⟨h.writable, fun scope hs => iff_of_true (h.reads scope hs) hp⟩

theorem ReadsBackIff.readsBack {p : Prop} (h : ReadsBackIff p decoder write depth a) (hp : p) :
    ReadsBack decoder write depth a :=
  ⟨h.writable, fun scope hs => (h.reads scope hs).mpr hp⟩

theorem ReadsBackIff.decodeBytes {p : Prop} (h : ReadsBackIff p decoder write depth a)
    (hdepth : depth ≤ maxDepth) : decodeBytes decoder (write a).bytes = some a ↔ p := by
  rw [decodeBytes_bytes _ _ h.writable]
  exact h.reads .top hdepth

theorem ReadsBack.decodeBytes (h : ReadsBack decoder write depth a) (hdepth : depth ≤ maxDepth) :
    decodeBytes decoder (write a).bytes = some a :=
  ((h.iff trivial).decodeBytes hdepth).mpr trivial

theorem enter?_of_lt {scope : Scope} {depth : Nat} (h : depth < scope.depth) (h0 : 0 < depth) :
    ∃ inner : Scope, scope.enter? = some inner ∧ depth ≤ inner.depth :=
  ⟨{ scope with depth := scope.depth - 1 }, by rw [Scope.enter?, if_neg (by omega)],
    Nat.le_sub_one_of_lt h⟩

theorem rereadItems_map (write : α → Json) (as : List α) :
    rereadItems (as.map write) = as.map fun a => (write a).reread := by
  induction as with
  | nil => rfl
  | cons a as ih => rw [List.map_cons, rereadItems, ih, List.map_cons]

theorem writableItems_map {as : List α} (h : ∀ a ∈ as, Writable (write a)) :
    WritableItems (as.map write) := by
  induction as with
  | nil => trivial
  | cons a as ih =>
    exact ⟨h a List.mem_cons_self, ih fun a ha => h a (List.mem_cons_of_mem _ ha)⟩

/-- A list comes back exactly if every item does. -/
theorem ReadsBackIff.list {p : α → Prop} (h0 : 0 < depth) {as : List α}
    (h : ∀ a ∈ as, ReadsBackIff (p a) decoder write depth a) :
    ReadsBackIff (∀ a ∈ as, p a) (Json.list decoder) (fun as => .array (as.map write)) (depth + 1)
      as where
  writable := writableItems_map fun a ha => (h a ha).writable
  reads scope hs := by
    obtain ⟨inner, hi, hd⟩ := enter?_of_lt hs h0
    rw [reread, rereadItems_map]
    simp only [Json.list, hi, Option.bind_eq_bind, Option.bind_some, List.mapM_map]
    clear hs
    induction as with
    | nil => simp
    | cons a as ih =>
      have ha := (h a List.mem_cons_self).reads inner hd
      have has := ih fun a ha => h a (List.mem_cons_of_mem _ ha)
      rw [List.mapM_cons, List.forall_mem_cons, ← ha, ← has]
      simp only [Function.comp_apply, Option.bind_eq_bind, Option.bind_eq_some_iff,
        Option.pure_def, Option.some.injEq, List.cons.injEq]
      constructor
      · rintro ⟨b, hb, bs, hbs, rfl, rfl⟩
        exact ⟨hb, hbs⟩
      · rintro ⟨hb, hbs⟩
        exact ⟨a, hb, as, hbs, rfl, rfl⟩

theorem ReadsBack.list (h0 : 0 < depth) {as : List α}
    (h : ∀ a ∈ as, ReadsBack decoder write depth a) :
    ReadsBack (Json.list decoder) (fun as => .array (as.map write)) (depth + 1) as :=
  (ReadsBackIff.list h0 fun a ha => (h a ha).iff trivial).readsBack fun _ _ => trivial

end Json

theorem DataType.readsBack (t : DataType) : Json.ReadsBack decoder toJson 1 t :=
  ⟨trivial, fun _ _ => by cases t <;> rfl⟩

theorem Field.readsBack (f : Field) : Json.ReadsBack decoder toJson 2 f where
  writable := ⟨trivial, trivial, trivial, trivial⟩
  reads scope hs := by
    obtain ⟨inner, hi, hd⟩ := Json.enter?_of_lt hs Nat.one_pos
    have ht := (DataType.readsBack f.dataType).reads inner hd
    simp [decoder, toJson, Json.fields?, hi, Json.field, Json.text, Json.boolean, ht]

theorem Schema.readsBack (s : Schema) : Json.ReadsBack decoder toJson 4 s := by
  have columns (fs : List Field) :=
    Json.ReadsBack.list (by decide) fun (f : Field) (_ : f ∈ fs) => f.readsBack
  refine ⟨⟨(columns s.fields).writable, (columns s.keys).writable, trivial⟩, fun scope hs => ?_⟩
  obtain ⟨inner, hi, hd⟩ := Json.enter?_of_lt hs (by decide)
  have hf := (columns s.fields).reads inner hd
  have hk := (columns s.keys).reads inner hd
  simp [decoder, toJson, Json.fields?, hi, Json.field, Json.fieldOr, hf, hk]

/-- A schema is read back from its text. -/
theorem Schema.decodeBytes_toJson (s : Schema) :
    Json.decodeBytes decoder s.toJson.bytes = some s :=
  s.readsBack.decodeBytes (by decide)

end StagedQuery
