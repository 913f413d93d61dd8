import StagedQuery.Executor.State

/-!
# Changes of an executor

Whatever happens to an executor, its log only grows and a terminal status stays; and each change has
a version of its own, so that a state of the same version is the same state
(`ExecutorState.Change.evolves`).
-/

namespace StagedQuery

namespace ExecutorState

/-- What can happen to an executor. -/
inductive Change
  | start
  | succeed (now : Nat)
  | fail (now : Nat) (message : String)
  | log (now : Nat) (level : LogLevel) (message : String)
  deriving DecidableEq

/-- The state after a change. -/
def Change.apply : Change → ExecutorState → ExecutorState
  | .start, s => s.start.2
  | .succeed now, s => (s.succeed now).2
  | .fail now message, s => (s.fail now message).2
  | .log now level message, s => s.log now level message

/-- The second state is the first one, or a later one. -/
structure Evolves (s s' : ExecutorState) : Prop where
  logs_prefix : s.logs <+: s'.logs
  terminal : s.status.isTerminal = true → s'.status = s.status
  reported_eq : s'.reported = s.reported
  later : s' = s ∨ s.version < s'.version

namespace Evolves

variable {s s' s'' : ExecutorState}

theorem refl (s : ExecutorState) : Evolves s s := ⟨List.prefix_refl _, fun _ => rfl, rfl, .inl rfl⟩

theorem version_le (h : Evolves s s') : s.version ≤ s'.version := by
  obtain rfl | hlt := h.later
  · exact Nat.le_refl _
  · exact Nat.le_of_lt hlt

theorem trans (h : Evolves s s') (h' : Evolves s' s'') : Evolves s s'' where
  logs_prefix := h.logs_prefix.trans h'.logs_prefix
  terminal := by
    intro hterminal
    have hsame := h.terminal hterminal
    exact (h'.terminal (hsame ▸ hterminal)).trans hsame
  reported_eq := h'.reported_eq.trans h.reported_eq
  later := by
    obtain rfl | hlt := h.later
    · exact h'.later
    · exact .inr (Nat.lt_of_lt_of_le hlt h'.version_le)

/-- Nothing happened if the version is the same. -/
theorem eq_of_version_le (h : Evolves s s') (hle : s'.version ≤ s.version) : s' = s := by
  obtain heq | hlt := h.later
  · exact heq
  · exact absurd hlt (Nat.not_lt.mpr hle)

/-- A latched status stays; otherwise it is what is to be latched. -/
theorem latch (h : Evolves s s') {status : JobStatus}
    (hlatch : s.status.isTerminal = false → s'.status = status)
    (hstatus : status.isTerminal = true) :
    s'.status.isTerminal = true ∧
      (s'.status = .succeed →
        s.status = .succeed ∨ s.status.isTerminal = false ∧ status = .succeed) := by
  cases hlatched : s.status.isTerminal with
  | true =>
    have hsame := h.terminal hlatched
    exact ⟨by rw [hsame, hlatched], fun hsucceed => .inl (hsame.symm.trans hsucceed)⟩
  | false =>
    have hnew := hlatch hlatched
    exact ⟨by rw [hnew, hstatus], fun hsucceed => .inr ⟨rfl, hnew.symm.trans hsucceed⟩⟩

end Evolves

theorem evolves_log (s : ExecutorState) (now : Nat) (level : LogLevel) (message : String) :
    Evolves s (s.log now level message) :=
  ⟨List.prefix_append _ _, fun _ => rfl, rfl, .inr (Nat.lt_succ_self _)⟩

/-- A status that is not latched may be exchanged. -/
theorem evolves_latch {s : ExecutorState} (h : ¬ s.status.isTerminal = true) (status : JobStatus) :
    Evolves s (touch { s with status }) :=
  ⟨List.prefix_refl _, fun hterminal => absurd hterminal h, rfl, .inr (Nat.lt_succ_self _)⟩

theorem evolves_start (s : ExecutorState) : Evolves s s.start.2 := by
  unfold start
  by_cases htodo : s.status = .todo
  · rw [if_pos htodo]
    exact evolves_latch (by simp [htodo, JobStatus.isTerminal]) .running
  · rw [if_neg htodo]
    exact .refl s

theorem evolves_succeed (s : ExecutorState) (now : Nat) : Evolves s (s.succeed now).2 := by
  unfold succeed
  by_cases hterminal : s.status.isTerminal = true
  · rw [if_pos hterminal]
    exact evolves_log s now _ _
  · rw [if_neg hterminal]
    exact evolves_latch hterminal .succeed

theorem evolves_fail (s : ExecutorState) (now : Nat) (message : String) :
    Evolves s (s.fail now message).2 := by
  have hlog := evolves_log s now .error message
  unfold fail
  dsimp only
  by_cases hterminal : (s.log now .error message).status.isTerminal = true
  · rw [if_pos hterminal]
    exact hlog
  · rw [if_neg hterminal]
    exact hlog.trans (evolves_latch hterminal .error)

theorem status_succeed {s : ExecutorState} (h : s.status.isTerminal = false) (now : Nat) :
    (s.succeed now).2.status = .succeed := by
  rw [succeed, h]
  rfl

theorem status_fail {s : ExecutorState} (h : s.status.isTerminal = false) (now : Nat)
    (message : String) : (s.fail now message).2.status = .error := by
  have hlog : (s.log now .error message).status.isTerminal = false := h
  simp only [fail, hlog]
  rfl

theorem Change.evolves (c : Change) (s : ExecutorState) : Evolves s (c.apply s) := by
  cases c with
  | start => exact evolves_start s
  | succeed now => exact evolves_succeed s now
  | fail now message => exact evolves_fail s now message
  | log now level message => exact evolves_log s now level message

end ExecutorState

end StagedQuery
