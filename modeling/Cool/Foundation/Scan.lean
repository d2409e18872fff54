import Mathlib.Data.List.Basic

/-!
# Scanners

A scanner reads its input symbol by symbol. Each symbol moves it on or makes it leave before the
input is spent. The input can be cut anywhere, and a relation between two scanners that each symbol
keeps is kept by whole inputs.
-/

namespace Foundation

variable {α β γ σ τ ε δ : Type*}

/-- `next` is ready for more input, `stop` has left the loop. -/
inductive Move (σ : Type*) where
  | next (s : σ)
  | stop (s : σ)
  deriving DecidableEq, Repr

namespace Move

def state : Move σ → σ
  | next s => s
  | stop s => s

def Holds (N J : σ → Prop) : Move σ → Prop
  | next s => N s
  | stop s => J s

inductive Rel (N J : σ → τ → Prop) : Move σ → Move τ → Prop
  | next {s : σ} {t : τ} : N s t → Rel N J (.next s) (.next t)
  | stop {s : σ} {t : τ} : J s t → Rel N J (.stop s) (.stop t)

end Move

def scan (step : α → σ → Except ε (Move σ)) : List α → σ → Except ε (Move σ)
  | [], s => .ok (.next s)
  | a :: l, s =>
    match step a s with
    | .error e => .error e
    | .ok (.next s') => scan step l s'
    | .ok (.stop s') => .ok (.stop s')

section Scan

variable {step : α → σ → Except ε (Move σ)} {l r : List α} {s s' : σ}

theorem scan_append_of_next (first : scan step l s = .ok (.next s')) :
    scan step (l ++ r) s = scan step r s' := by
  fun_induction scan step l s with
  | case1 s => cases first; rfl
  | case2 => cases first
  | case3 a l s s₁ hstep ih => simp only [List.cons_append, scan, hstep, ih first]
  | case4 => cases first

theorem scan_append_of_stop (first : scan step l s = .ok (.stop s')) :
    scan step (l ++ r) s = .ok (.stop s') := by
  fun_induction scan step l s with
  | case1 s => cases first
  | case2 => cases first
  | case3 a l s s₁ hstep ih => simp only [List.cons_append, scan, hstep, ih first]
  | case4 a l s s₁ hstep => cases first; simp only [List.cons_append, scan, hstep]

/-- A way through a whole input, along which every symbol moves the scanner on. -/
theorem scan_along (place : List α → σ)
    (moves : ∀ r a rest, l = r ++ a :: rest → step a (place r) = .ok (.next (place (r ++ [a])))) :
    scan step l (place []) = .ok (.next (place l)) := by
  induction l generalizing place with
  | nil => rfl
  | cons a l ih =>
    rw [scan, moves [] a l rfl]
    exact ih (fun r => place (a :: r)) fun r b rest split => moves (a :: r) b rest (by rw [split]; rfl)

theorem scan_holds {N : List α → σ → Prop} {J : σ → Prop}
    (keep : ∀ a l s m, N (a :: l) s → step a s = .ok m → m.Holds (N l) J) {m : Move σ}
    (start : N l s) (run : scan step l s = .ok m) : m.Holds (N []) J := by
  fun_induction scan step l s with
  | case1 s => cases run; exact start
  | case2 => cases run
  | case3 a l s s₁ hstep ih => exact ih (keep a l s _ start hstep) run
  | case4 a l s s₁ hstep => cases run; exact keep a l s _ start hstep

theorem scan_faults {N : List α → σ → Prop} {J : σ → Prop} {E : ε → Prop}
    (keep : ∀ a l s m, N (a :: l) s → step a s = .ok m → m.Holds (N l) J)
    (faults : ∀ a l s e, N (a :: l) s → step a s = .error e → E e) {e : ε}
    (start : N l s) (run : scan step l s = .error e) : E e := by
  fun_induction scan step l s with
  | case1 s => cases run
  | case2 a l s e hstep => cases run; exact faults a l s _ start hstep
  | case3 a l s s₁ hstep ih => exact ih (keep a l s _ start hstep) run
  | case4 => cases run

end Scan

/-! ### Machines with a table -/

/-- A symbol without an edge makes the machine leave. Along an edge it runs something, and goes on or leaves. -/
def follow (edge : Option β) (run : β → Except ε γ) (last : β → Prop) [DecidablePred last] (dead : σ)
    (moved : β → γ → σ) : Except ε (Move σ) :=
  match edge with
  | none => .ok (.stop dead)
  | some e =>
    match run e with
    | .error f => .error f
    | .ok a => if last e then .ok (.stop (moved e a)) else .ok (.next (moved e a))

/-- Everything that can come of it. -/
inductive Followed (edge : Option β) (run : β → Except ε γ) (last : β → Prop) (dead : σ) (moved : β → γ → σ) :
    Move σ → Prop where
  | rejected (dead_end : edge = none) : Followed edge run last dead moved (.stop dead)
  | finished {e : β} {a : γ} (taken : edge = some e) (performed : run e = .ok a) (done : last e) :
      Followed edge run last dead moved (.stop (moved e a))
  | advanced {e : β} {a : γ} (taken : edge = some e) (performed : run e = .ok a) (going : ¬ last e) :
      Followed edge run last dead moved (.next (moved e a))

section Follow

variable {edge : Option β} {run : β → Except ε γ} {last : β → Prop} [DecidablePred last] {dead : σ} {moved : β → γ → σ}

theorem follow_iff {m : Move σ} : follow edge run last dead moved = .ok m ↔ Followed edge run last dead moved m := by
  constructor
  · intro returned
    unfold follow at returned
    split at returned
    · cases returned
      exact .rejected rfl
    · split at returned
      · cases returned
      · rename_i performed
        split at returned
        · rename_i done
          cases returned
          exact .finished rfl performed done
        · rename_i going
          cases returned
          exact .advanced rfl performed going
  · intro followed
    unfold follow
    cases followed with
    | rejected dead_end => rw [dead_end]
    | finished taken performed done => simp only [taken, performed, if_pos done]
    | advanced taken performed going => simp only [taken, performed, if_neg going]

theorem follow_error {f : ε} : follow edge run last dead moved = .error f ↔ ∃ e, edge = some e ∧ run e = .error f := by
  unfold follow
  constructor
  · intro failed
    split at failed
    · cases failed
    · rename_i e
      refine ⟨e, rfl, ?_⟩
      split at failed
      · rename_i ran
        cases failed
        exact ran
      · split at failed <;> cases failed
  · intro ⟨e, taken, failed⟩
    simp only [taken, failed]

end Follow

/-- Forward simulation: where the scanner on `τ` gets through, so does the one on `σ`, in step. -/
theorem scan_simulates {stepA : α → σ → Except ε (Move σ)} {stepB : α → τ → Except δ (Move τ)}
    {R : List α → σ → τ → Prop} {J : σ → τ → Prop}
    (keep : ∀ a l s t m, R (a :: l) s t → stepB a t = .ok m →
      ∃ m', stepA a s = .ok m' ∧ m'.Rel (R l) J m)
    {l : List α} {s : σ} {t : τ} {m : Move τ} (related : R l s t) (run : scan stepB l t = .ok m) :
    ∃ m', scan stepA l s = .ok m' ∧ m'.Rel (R []) J m := by
  induction l generalizing s t with
  | nil => cases run; exact ⟨_, rfl, .next related⟩
  | cons a l ih =>
    unfold scan at run
    split at run
    · cases run
    · rename_i t' hstep
      obtain ⟨_, hstepA, rel⟩ := keep a l s t _ related hstep
      cases rel with
      | next related' => simpa only [scan, hstepA] using ih related' run
    · rename_i t' hstep
      cases run
      obtain ⟨_, hstepA, rel⟩ := keep a l s t _ related hstep
      cases rel with
      | stop left => exact ⟨_, by simp only [scan, hstepA], .stop left⟩

end Foundation
