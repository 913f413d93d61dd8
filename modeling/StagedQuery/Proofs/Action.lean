import Mathlib.Order.Defs.Unbundled
import StagedQuery.Action

/-!
# Taking computations apart

A computation that may fail succeeds exactly when its parts succeed one after the other. These
are the only lemmas that look into how results and actions are put together; everything else
takes a run apart with them.
-/

namespace StagedQuery

namespace Result

variable {ε α β : Type}

@[simp] theorem ok_bind (a : α) (f : α → Except ε β) : (Except.ok a >>= f) = f a := rfl

@[simp] theorem error_bind (e : ε) (f : α → Except ε β) : (Except.error e >>= f) = .error e := rfl

@[simp] theorem pure_eq (a : α) : (pure a : Except ε α) = .ok a := rfl

@[simp] theorem throw_eq (e : ε) : (throw e : Except ε α) = .error e := rfl

theorem bind_eq_ok {x : Except ε α} {f : α → Except ε β} {b : β} :
    (x >>= f) = .ok b ↔ ∃ a, x = .ok a ∧ f a = .ok b := by
  cases x with
  | ok a => simp
  | error e => simp

theorem mapError_eq_ok {ε' : Type} {x : Except ε α} {f : ε → ε'} {a : α} :
    x.mapError f = .ok a ↔ x = .ok a := by
  cases x with
  | ok b =>
    constructor
    · rintro ⟨⟩
      rfl
    · rintro ⟨⟩
      rfl
  | error e => exact ⟨nofun, nofun⟩

theorem forM_eq_ok {f : α → Except ε Unit} {as : List α} :
    as.forM f = .ok () ↔ ∀ a ∈ as, f a = .ok () := by
  induction as with
  | nil => simp
  | cons a as ih =>
    rw [List.forall_mem_cons, ← ih]
    simp only [List.forM_eq_forM, List.forM_cons, bind_eq_ok]
    exact ⟨fun ⟨⟨⟩, h⟩ => h, fun h => ⟨(), h⟩⟩

/-- The first entry that fails decides. -/
theorem forM_eq_error {f : α → Except ε Unit} {as : List α} {e : ε} :
    as.forM f = .error e ↔ ∃ before a after, as = before ++ a :: after ∧
      (∀ b ∈ before, f b = .ok ()) ∧ f a = .error e := by
  induction as with
  | nil => simp
  | cons a as ih =>
    simp only [List.forM_eq_forM, List.forM_cons] at ih ⊢
    cases hfirst : f a with
    | ok =>
      rw [ok_bind, ih]
      constructor
      · rintro ⟨before, b, after, rfl, hbefore, hb⟩
        exact ⟨a :: before, b, after, rfl, List.forall_mem_cons.mpr ⟨hfirst, hbefore⟩, hb⟩
      · rintro ⟨_ | ⟨first, before⟩, b, after, hsplit, hbefore, hb⟩
        · cases hsplit
          cases hfirst.symm.trans hb
        · cases hsplit
          exact ⟨before, b, after, rfl, (List.forall_mem_cons.mp hbefore).2, hb⟩
    | error e' =>
      constructor
      · rintro ⟨⟩
        exact ⟨[], a, as, rfl, nofun, hfirst⟩
      · rintro ⟨_ | ⟨first, before⟩, b, after, hsplit, hbefore, hb⟩
        · cases hsplit
          exact hfirst.symm.trans hb ▸ rfl
        · cases hsplit
          cases hfirst.symm.trans (List.forall_mem_cons.mp hbefore).1

end Result

namespace Action

variable {σ τ α β : Type} {s s' : σ}

theorem bind_eq_ok {x : Action σ α} {f : α → Action σ β} {b : β} :
    (x >>= f) s = (.ok b, s') ↔ ∃ a t, x s = (.ok a, t) ∧ f a t = (.ok b, s') := by
  cases hx : x s with
  | mk result t =>
    cases result with
    | ok a =>
      rw [bind_ok hx]
      constructor
      · intro h
        exact ⟨a, t, rfl, h⟩
      · rintro ⟨_, _, ⟨⟩, h⟩
        exact h
    | error e => rw [bind_error hx]; simp

theorem ofExcept_eq_ok {x : Except Error α} {a : α} :
    ofExcept x s = (.ok a, s') ↔ x = .ok a ∧ s' = s := by
  cases x with
  | ok b =>
    simp only [ofExcept, Action.pure, Prod.mk.injEq, Except.ok.injEq]
    exact and_congr Iff.rfl eq_comm
  | error e => simp [ofExcept, fail]

theorem ofExcept_bind_eq_ok {x : Except Error α} {f : α → Action σ β} {b : β} :
    (ofExcept x >>= f) s = (.ok b, s') ↔ ∃ a, x = .ok a ∧ f a s = (.ok b, s') := by
  cases x with
  | ok a => simp [bind_ok (show ofExcept (.ok a) s = (.ok a, s) from rfl)]
  | error e =>
    have hrefused : (ofExcept (.error e) : Action σ α) s = (.error e, s) := rfl
    simp [bind_error hrefused]

/-- Behind a guard there is something left to do only if it holds. -/
theorem guard_eq_ok {c : Prop} [Decidable c] {e : Error} {x : Action σ α} {a : α} :
    (if c then fail e >>= fun (_ : Unit) => x else x) s = (.ok a, s') ↔ ¬c ∧ x s = (.ok a, s') := by
  by_cases hc : c
  · rw [if_pos hc]
    exact ⟨nofun, fun h => absurd hc h.1⟩
  · rw [if_neg hc]
    exact (and_iff_right hc).symm

@[simp] theorem ofExcept_ok (a : α) (s : σ) : ofExcept (.ok a) s = (.ok a, s) := rfl

@[simp] theorem get_apply (s : σ) : (get : Action σ σ) s = (.ok s, s) := rfl

theorem get_bind (f : σ → Action σ α) (s : σ) : (get >>= f) s = f s s := rfl

@[simp] theorem modify_apply (f : σ → σ) (s : σ) : modify f s = (.ok (), f s) := rfl

@[simp] theorem fail_apply (e : Error) (s : σ) : (fail e : Action σ α) s = (.error e, s) := rfl

theorem zoom_apply {part : σ → τ} {put : σ → τ → σ} {x : Action τ α} {r : Except Error α} {t : τ}
    (h : x (part s) = (r, t)) : x.zoom part put s = (r, put s t) := by
  simp only [zoom, h]

private theorem map_id (x : Action σ α) : id <$> x = x := by
  funext s
  rcases h : x s with ⟨_ | a, t⟩
  · exact bind_error h
  · exact bind_ok h

private theorem assoc {γ : Type} (x : Action σ α) (f : α → Action σ β) (g : β → Action σ γ) :
    x >>= f >>= g = x >>= fun a => f a >>= g := by
  funext s
  rcases h : x s with ⟨_ | a, t⟩
  · rw [bind_error (bind_error h), bind_error h]
  · rw [bind_ok h]
    rcases h' : f a t with ⟨_ | b, u⟩
    · rw [bind_error ((bind_ok h).trans h'), bind_error h']
    · rw [bind_ok ((bind_ok h).trans h'), bind_ok h']

instance : LawfulMonad (Action σ) := .mk' _ map_id (fun _ _ => rfl) assoc

/-! ### Going through a list -/

@[simp] theorem each_nil (f : α → Action σ Unit) : each f [] = pure () := rfl

@[simp] theorem each_cons (f : α → Action σ Unit) (a : α) (as : List α) :
    each f (a :: as) = f a >>= fun _ => each f as := rfl

theorem each_append (f : α → Action σ Unit) (as bs : List α) :
    each f (as ++ bs) = each f as >>= fun _ => each f bs := by
  induction as with
  | nil => simp
  | cons a as ih => simp [ih]

theorem each_map {γ : Type} (f : α → Action σ Unit) (g : γ → α) (as : List γ) :
    each f (as.map g) = each (fun a => f (g a)) as := by
  induction as with
  | nil => rfl
  | cons a as ih => simp [ih]

theorem each_flatMap {γ : Type} (f : α → Action σ Unit) (g : γ → List α) (as : List γ) :
    each f (as.flatMap g) = each (fun a => each f (g a)) as := by
  induction as with
  | nil => rfl
  | cons a as ih => simp [each_append, ih]

@[simp] theorem fold_nil (f : β → α → Action σ β) (b : β) : fold f b [] = pure b := rfl

@[simp] theorem fold_cons (f : β → α → Action σ β) (b : β) (a : α) (as : List α) :
    fold f b (a :: as) = f b a >>= fun b => fold f b as := rfl

theorem fold_append (f : β → α → Action σ β) (b : β) (as bs : List α) :
    fold f b (as ++ bs) = fold f b as >>= fun b => fold f b bs := by
  induction as generalizing b with
  | nil => simp
  | cons a as ih => simp [ih]

/-! ### What a run does to the state -/

/-- However the action ends, `R` holds between the state before and the state after. -/
def Always (R : σ → σ → Prop) (x : Action σ α) : Prop := ∀ s, R s (x s).2

section Always

variable {R : σ → σ → Prop}

theorem always_modify {f : σ → σ} (h : ∀ s, R s (f s)) : Always R (modify f) := h

theorem always_zoom {R' : τ → τ → Prop} {part : σ → τ} {put : σ → τ → σ} {x : Action τ α}
    (hx : Always R' x) (hput : ∀ s t, R' (part s) t → R s (put s t)) :
    Always R (x.zoom part put) := fun s => hput s _ (hx (part s))

variable [IsPreorder σ R]

theorem Always.bind {x : Action σ α} {f : α → Action σ β} (hx : Always R x)
    (hf : ∀ a, Always R (f a)) : Always R (x >>= f) := by
  intro s
  have h := hx s
  rcases hxs : x s with ⟨e | a, t⟩
  · rw [bind_error hxs]
    rwa [hxs] at h
  · rw [bind_ok hxs]
    rw [hxs] at h
    exact trans_of R h (hf a t)

theorem always_pure (a : α) : Always R (pure a) := refl_of R

theorem always_get : Always R get := refl_of R

theorem always_fail (e : Error) : Always R (fail e : Action σ α) := refl_of R

theorem always_ofExcept (x : Except Error α) : Always R (ofExcept x) := by
  intro s
  cases x <;> exact refl_of R s

theorem always_each {f : α → Action σ Unit} (h : ∀ a, Always R (f a)) (as : List α) :
    Always R (each f as) := by
  induction as with
  | nil => exact always_pure ()
  | cons a as ih => exact (h a).bind fun _ => ih

end Always

/-! ### Partial correctness -/

/-- Started where `P` holds, the action yields something of which `Q` holds and leaves `P` standing,
or it fails with an error of which `E` holds. -/
structure Meets (P : σ → Prop) (Q : α → Prop) (E : Error → Prop) (x : Action σ α) : Prop where
  ok : ∀ s a s', P s → x s = (.ok a, s') → Q a ∧ P s'
  error : ∀ s e s', P s → x s = (.error e, s') → E e

section Meets

variable {P : σ → Prop} {Q : α → Prop} {R : β → Prop} {E : Error → Prop}

theorem Meets.mono {Q' : α → Prop} {x : Action σ α} (h : Meets P Q E x) (himp : ∀ a, Q a → Q' a) :
    Meets P Q' E x where
  ok := fun s a s' hs hx => ⟨himp a (h.ok s a s' hs hx).1, (h.ok s a s' hs hx).2⟩
  error := h.error

theorem Meets.bind {x : Action σ α} {f : α → Action σ β} (hx : Meets P Q E x)
    (hf : ∀ a, Q a → Meets P R E (f a)) : Meets P R E (x >>= f) where
  ok := by
    intro s b s' hs h
    obtain ⟨a, t, hxs, hfs⟩ := bind_eq_ok.mp h
    obtain ⟨ha, ht⟩ := hx.ok s a t hs hxs
    exact (hf a ha).ok t b s' ht hfs
  error := by
    intro s e s' hs h
    rcases hxs : x s with ⟨e' | a, t⟩
    · rw [bind_error hxs] at h
      cases h
      exact hx.error s e s' hs hxs
    · rw [bind_ok hxs] at h
      obtain ⟨ha, ht⟩ := hx.ok s a t hs hxs
      exact (hf a ha).error t e s' ht h

theorem meets_pure {a : α} (h : Q a) : Meets P Q E (pure a) where
  ok := by
    rintro s _ _ hs ⟨⟩
    exact ⟨h, hs⟩
  error := by rintro s e s' hs ⟨⟩

theorem meets_fail {e : Error} (h : E e) : Meets P Q E (fail e) where
  ok := by rintro s a s' hs ⟨⟩
  error := by
    rintro s _ _ hs ⟨⟩
    exact h

theorem meets_get : Meets P P E (get : Action σ σ) where
  ok := by
    rintro s _ _ hs ⟨⟩
    exact ⟨hs, hs⟩
  error := by rintro s e s' hs ⟨⟩

theorem meets_modify {f : σ → σ} (h : ∀ s, P s → P (f s)) :
    Meets P (fun _ => True) E (modify f) where
  ok := by
    rintro s _ _ hs ⟨⟩
    exact ⟨trivial, h s hs⟩
  error := by rintro s e s' hs ⟨⟩

theorem meets_ofExcept {x : Except Error α} (h : ∀ e, x = .error e → E e) :
    Meets P (fun a => x = .ok a) E (ofExcept x : Action σ α) := by
  cases x with
  | ok a => exact meets_pure rfl
  | error e => exact meets_fail (h e rfl)

theorem meets_zoom {part : σ → τ} {put : σ → τ → σ} {P' : τ → Prop} {x : Action τ α}
    (hx : Meets P' Q E x) (hpart : ∀ s, P s → P' (part s))
    (hput : ∀ s t, P s → P' t → P (put s t)) : Meets P Q E (x.zoom part put) where
  ok := by
    intro s a s' hs h
    rcases hxs : x (part s) with ⟨result, t⟩
    rw [zoom_apply hxs] at h
    cases h
    obtain ⟨ha, ht⟩ := hx.ok _ a t (hpart s hs) hxs
    exact ⟨ha, hput s t hs ht⟩
  error := by
    intro s e s' hs h
    rcases hxs : x (part s) with ⟨result, t⟩
    rw [zoom_apply hxs] at h
    cases h
    exact hx.error _ e t (hpart s hs) hxs

end Meets

end Action

end StagedQuery
