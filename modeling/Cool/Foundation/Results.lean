import Mathlib.Logic.Basic

/-!
# Programs that may fail

What the result of two programs in sequence says of each: for `Except`, for a state on top of it, and for
`EStateM`, where the state after a failure is kept.
-/

namespace Foundation

section Except

variable {ε α β : Type} {x : Except ε α} {f : α → Except ε β}

theorem ok_bind (a : α) (f : α → Except ε β) : (Except.ok a >>= f) = f a := rfl

theorem error_bind (e : ε) (f : α → Except ε β) : (Except.error e >>= f) = .error e := rfl

theorem bind_ok_iff {r : β} : (x >>= f) = .ok r ↔ ∃ a, x = .ok a ∧ f a = .ok r := by
  cases x with
  | error e => simp [error_bind]
  | ok a => simp [ok_bind]

end Except

section StateT

variable {σ ε α β : Type} {x : StateT σ (Except ε) α} {f : α → StateT σ (Except ε) β} {s t : σ}

theorem bind_run (x : StateT σ (Except ε) α) (f : α → StateT σ (Except ε) β) (s : σ) :
    (x >>= f) s = x s >>= fun done => f done.1 done.2 := rfl

theorem bind_ran {a : α} (ran : x s = .ok (a, t)) (f : α → StateT σ (Except ε) β) : (x >>= f) s = f a t := by
  rw [bind_run, ran, ok_bind]

theorem bind_failed {e : ε} (failed : x s = .error e) (f : α → StateT σ (Except ε) β) : (x >>= f) s = .error e := by
  rw [bind_run, failed, error_bind]

theorem bind_ok {b : β} (ran : (x >>= f) s = .ok (b, t)) : ∃ a s', x s = .ok (a, s') ∧ f a s' = .ok (b, t) := by
  obtain ⟨done, first, second⟩ := bind_ok_iff.mp ran
  exact ⟨done.1, done.2, first, second⟩

end StateT

section EStateM

variable {ε σ α β : Type} {x : EStateM ε σ α} {f : α → EStateM ε σ β} {s t : σ}

theorem bind_returned {a : α} (returned : x s = .ok a t) : (x >>= f) s = f a t := by
  show EStateM.bind x f s = _
  rw [EStateM.bind, returned]

theorem bind_returns {b : β} (returned : (x >>= f) s = .ok b t) : ∃ a s', x s = .ok a s' ∧ f a s' = .ok b t := by
  change EStateM.bind x f s = .ok b t at returned
  rw [EStateM.bind] at returned
  split at returned
  · rename_i first
    exact ⟨_, _, first, returned⟩
  · cases returned

end EStateM

end Foundation
