import StagedQuery.Error

/-!
# Actions

An action changes a state and yields a value or fails. What it did to the state before
it failed stays done: a writer whose transport breaks has still written what it wrote.
-/

namespace StagedQuery

/-- A step that changes a state and may fail. -/
def Action (σ α : Type) : Type := σ → Except Error α × σ

namespace Action

variable {σ τ α β : Type}

/-- Do nothing. -/
protected def pure (a : α) : Action σ α := fun s => (.ok a, s)

/-- One action after the other; the second is not tried when the first fails. -/
protected def bind (x : Action σ α) (f : α → Action σ β) : Action σ β := fun s =>
  match x s with
  | (.ok a, s') => f a s'
  | (.error e, s') => (.error e, s')

instance : Monad (Action σ) where
  pure := Action.pure
  bind := Action.bind

/-- The state. -/
def get : Action σ σ := fun s => (.ok s, s)

/-- Change the state. -/
def modify (f : σ → σ) : Action σ Unit := fun s => (.ok (), f s)

/-- Fail, and leave the state as it is. -/
def fail (e : Error) : Action σ α := fun s => (.error e, s)

/-- Fail with the error of a result, if it is one. -/
def ofExcept : Except Error α → Action σ α
  | .ok a => Action.pure a
  | .error e => fail e

/-- Act on a part of the state. -/
def zoom (part : σ → τ) (put : σ → τ → σ) (x : Action τ α) : Action σ α := fun s =>
  let (r, t) := x (part s)
  (r, put s t)

/-- Act on an entry of a list; without such an entry, act on nothing and fail. -/
def zoomAt (part : σ → List τ) (put : σ → List τ → σ) (i : Nat) (missing : Error)
    (x : Action τ α) : Action σ α := fun s =>
  match (part s)[i]? with
  | none => (.error missing, s)
  | some t =>
    let (r, t) := x t
    (r, put s ((part s).set i t))

/-- Do an action for each entry of a list, in order, until one fails. -/
def each (f : α → Action σ Unit) : List α → Action σ Unit
  | [] => Action.pure ()
  | a :: as => Action.bind (f a) fun _ => each f as

/-- Go through a list with an action that hands a result on from entry to entry. -/
def fold (f : β → α → Action σ β) : β → List α → Action σ β
  | b, [] => Action.pure b
  | b, a :: as => Action.bind (f b a) fun b => fold f b as

/-- Do an action for each entry of a list, in order, and put together what they yield. -/
def collect (f : α → Action σ (List β)) : List α → Action σ (List β)
  | [] => Action.pure []
  | a :: as =>
    Action.bind (f a) fun bs => Action.bind (collect f as) fun rest => Action.pure (bs ++ rest)

@[simp] theorem pure_apply (a : α) (s : σ) : (pure a : Action σ α) s = (.ok a, s) := rfl

theorem bind_ok {x : Action σ α} {f : α → Action σ β} {s s' : σ} {a : α}
    (h : x s = (.ok a, s')) : (x >>= f) s = f a s' := by
  simp [Bind.bind, Action.bind, h]

theorem bind_error {x : Action σ α} {f : α → Action σ β} {s s' : σ} {e : Error}
    (h : x s = (.error e, s')) : (x >>= f) s = (.error e, s') := by
  simp [Bind.bind, Action.bind, h]

/-! ### Actions that use something up -/

/-- An action that never makes the state larger, in some measure. -/
def Shrinks (size : σ → Nat) (x : Action σ α) : Prop := ∀ s, size (x s).2 ≤ size s

variable {size : σ → Nat}

theorem Shrinks.bind {x : Action σ α} {f : α → Action σ β}
    (hx : Shrinks size x) (hf : ∀ a, Shrinks size (f a)) : Shrinks size (x >>= f) := by
  intro s
  have h := hx s
  cases hr : x s with
  | mk result s' =>
    rw [hr] at h
    cases result with
    | ok a => rw [bind_ok hr]; exact Nat.le_trans (hf a s') h
    | error e => rw [bind_error hr]; exact h

theorem shrinks_pure (a : α) : Shrinks size (pure a : Action σ α) := fun _ => Nat.le_refl _

theorem shrinks_get : Shrinks size (get : Action σ σ) := fun _ => Nat.le_refl _

theorem shrinks_fail (e : Error) : Shrinks size (fail e : Action σ α) := fun _ => Nat.le_refl _

theorem shrinks_modify {f : σ → σ} (h : ∀ s, size (f s) ≤ size s) :
    Shrinks size (modify f) := h

theorem shrinks_ofExcept (x : Except Error α) : Shrinks size (ofExcept x : Action σ α) := by
  intro s; cases x <;> exact Nat.le_refl _

theorem shrinks_zoom {part : σ → τ} {put : σ → τ → σ} {inner : τ → Nat} {x : Action τ α}
    (hx : Shrinks inner x) (hsize : ∀ s, size s = inner (part s))
    (hput : ∀ s t, part (put s t) = t) : Shrinks size (x.zoom part put) := by
  intro s
  simp only [zoom, hsize, hput]
  exact hx (part s)

end Action

end StagedQuery
