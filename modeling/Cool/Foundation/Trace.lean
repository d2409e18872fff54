import Mathlib.Data.List.Basic

/-!
# Traces of calls

Calls that answer, change a state and can fail, beside calls on an abstract state that cannot. A trace is the answers
of a sequence of calls, each with what is visible of the state behind it. Whether the two traces agree is decided call
by call, along the abstract states.
-/

namespace Foundation

variable {σ τ α β ε : Type*} {exec : σ → α → Except ε (β × σ)} {spec : τ → α → β × τ} {view : σ → τ}

def trace (exec : σ → α → Except ε (β × σ)) (view : σ → τ) : σ → List α → Except ε (List (β × τ))
  | _, [] => .ok []
  | s, a :: as =>
    match exec s a with
    | .error e => .error e
    | .ok (b, s') => (trace exec view s' as).map ((b, view s') :: ·)

def specTrace (spec : τ → α → β × τ) : τ → List α → List (β × τ)
  | _, [] => []
  | t, a :: as => spec t a :: specTrace spec (spec t a).2 as

/-- `ok` holds of every call and the abstract state it is made in. -/
def Along (spec : τ → α → β × τ) (ok : τ → α → Prop) : τ → List α → Prop
  | _, [] => True
  | t, a :: as => ok t a ∧ Along spec ok (spec t a).2 as

/-- One call agrees with its specification. -/
def Agrees (exec : σ → α → Except ε (β × σ)) (spec : τ → α → β × τ) (view : σ → τ) (s : σ) (a : α) : Prop :=
  ∃ b s', exec s a = .ok (b, s') ∧ spec (view s) a = (b, view s')

theorem agrees_of_ok {s s' : σ} {a : α} {b : β} (called : exec s a = .ok (b, s')) :
    Agrees exec spec view s a ↔ spec (view s) a = (b, view s') := by
  simp [Agrees, called]

theorem not_agrees {s : σ} {a : α} {e : ε} (failed : exec s a = .error e) : ¬ Agrees exec spec view s a := by
  simp [Agrees, failed]

theorem trace_cons {s s' : σ} {a : α} {b : β} (called : exec s a = .ok (b, s')) (as : List α) :
    trace exec view s (a :: as) = (trace exec view s' as).map ((b, view s') :: ·) := by
  simp only [trace, called]

theorem trace_iff {I : σ → Prop} {ok : τ → α → Prop} (step : ∀ s a, I s → (Agrees exec spec view s a ↔ ok (view s) a))
    (keep : ∀ s a b s', I s → exec s a = .ok (b, s') → I s') {s : σ} (start : I s) (as : List α) :
    trace exec view s as = .ok (specTrace spec (view s) as) ↔ Along spec ok (view s) as := by
  induction as generalizing s with
  | nil => simp [trace, specTrace, Along]
  | cons a as ih =>
    rw [specTrace, Along, ← step s a start]
    cases called : exec s a with
    | error e =>
      have failed : trace exec view s (a :: as) = .error e := by simp only [trace, called]
      simp [failed, Agrees, called]
    | ok result =>
      obtain ⟨b, s'⟩ := result
      have next := ih (keep s a b s' start called)
      rw [trace_cons called]
      constructor
      · intro same
        cases rest : trace exec view s' as with
        | error e =>
          rw [rest] at same
          cases same
        | ok outs =>
          rw [rest] at same
          obtain ⟨here, later⟩ := List.cons.inj (Except.ok.inj same)
          rw [← here] at later ⊢
          refine ⟨⟨b, s', called, here.symm⟩, next.mp ?_⟩
          rw [rest, later]
      · rintro ⟨⟨b', s'', called', here⟩, later⟩
        obtain ⟨rfl, rfl⟩ := Prod.mk.inj (Except.ok.inj (called.symm.trans called'))
        rw [here] at later ⊢
        rw [next.mpr later]
        rfl

end Foundation
