import Cool.Foundation.Results

/-!
# Pre- and postconditions

A program here reads and changes a state, and may fail. The triple says what holds where it does not fail.
The rules follow the way programs are put together; a program that keeps a property has it before and after.
-/

namespace Foundation

variable {σ ε α β : Type} {P I : σ → Prop} {Q : α → σ → Prop} {R : β → σ → Prop}

def Triple (P : σ → Prop) (x : StateT σ (Except ε) α) (Q : α → σ → Prop) : Prop :=
  ∀ s a t, P s → x s = .ok (a, t) → Q a t

abbrev Keeps (I : σ → Prop) (x : StateT σ (Except ε) α) : Prop := Triple I x fun _ => I

theorem Triple.pure {a : α} (holds : ∀ s, P s → Q a s) : Triple P (pure a : StateT σ (Except ε) α) Q := by
  intro s b t before ran
  cases ran
  exact holds s before

theorem Triple.bind {x : StateT σ (Except ε) α} {f : α → StateT σ (Except ε) β} (first : Triple P x Q)
    (second : ∀ a, Triple (Q a) (f a) R) : Triple P (x >>= f) R := by
  intro s b t before ran
  obtain ⟨a, s', middle, last⟩ := bind_ok ran
  exact second a s' b t (first s a s' before middle) last

theorem Triple.ite {p : Prop} [Decidable p] {x y : StateT σ (Except ε) α} (yes : Triple P x Q) (no : Triple P y Q) :
    Triple P (if p then x else y) Q := by
  split
  · exact yes
  · exact no

theorem Triple.imp {P' : σ → Prop} {Q' : α → σ → Prop} {x : StateT σ (Except ε) α} (triple : Triple P x Q)
    (before : ∀ s, P' s → P s) (after : ∀ a s, Q a s → Q' a s) : Triple P' x Q' := by
  intro s a t holds ran
  exact after a t (triple s a t (before s holds) ran)

theorem Keeps.pure (a : α) : Keeps I (pure a : StateT σ (Except ε) α) :=
  Triple.pure fun _ before => before

end Foundation
