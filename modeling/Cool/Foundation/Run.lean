import Mathlib.Data.List.Induction
import Mathlib.Logic.Relation

/-!
# Runs of a transition system

A run is a finite sequence of labelled steps. A property that holds at the start and that every
step keeps holds at the end of every run, and so at every state the run passes through. What a run
has recorded so far is a list that grows at its end; `EachAfter` is a property of every entry
together with the entries before it.
-/

namespace Foundation

variable {σ α : Type*} {step : σ → α → σ → Prop} {s t : σ} {as : List α}

inductive Run (step : σ → α → σ → Prop) (s : σ) : List α → σ → Prop where
  | nil : Run step s [] s
  | snoc {t u : σ} {as : List α} {a : α} (run : Run step s as t) (last : step t a u) :
      Run step s (as ++ [a]) u

theorem Run.invariant {I : σ → Prop} (run : Run step s as t)
    (keep : ∀ s a t, I s → step s a t → I t) (start : I s) : I t := by
  induction run with
  | nil => exact start
  | snoc _ last ih => exact keep _ _ _ ih last

theorem Run.mono {step' : σ → α → σ → Prop} (run : Run step s as t) (more : ∀ s a t, step s a t → step' s a t) :
    Run step' s as t := by
  induction run with
  | nil => exact .nil
  | snoc _ last ih => exact ih.snoc (more _ _ _ last)

theorem Run.reachable (run : Run step s as t) : Relation.ReflTransGen (fun s t => ∃ a, step s a t) s t := by
  induction run with
  | nil => exact .refl
  | snoc _ last ih => exact ih.tail ⟨_, last⟩

theorem Run.append {u : σ} {bs : List α} (first : Run step s as t) (second : Run step t bs u) :
    Run step s (as ++ bs) u := by
  induction second with
  | nil => rwa [List.append_nil]
  | snoc _ last ih =>
    rw [← List.append_assoc]
    exact ih.snoc last

theorem exists_run_of_reachable (reachable : Relation.ReflTransGen (fun s t => ∃ a, step s a t) s t) :
    ∃ as, Run step s as t := by
  induction reachable with
  | refl => exact ⟨[], .nil⟩
  | tail _ last ih =>
    obtain ⟨as, run⟩ := ih
    obtain ⟨a, last⟩ := last
    exact ⟨_, run.snoc last⟩

/-- Where no state has two successors, whatever is reached goes on to where a run ends. -/
theorem reachable_final {r : σ → σ → Prop} {u : σ} (unique : Relator.RightUnique r) (reached : Relation.ReflTransGen r s t)
    (final : ∀ u, ¬ r t u) (other : Relation.ReflTransGen r s u) : Relation.ReflTransGen r u t := by
  rcases Relation.ReflTransGen.total_of_right_unique unique reached other with beyond | onward
  · rcases beyond.cases_head with rfl | ⟨v, more, -⟩
    · exact .refl
    · exact absurd more (final v)
  · exact onward

theorem Run.continues {t' : σ} {as' : List α} (unique : ∀ s a t a' t', step s a t → step s a' t' → t = t')
    (run : Run step s as t) (final : ∀ a u, ¬ step t a u) (run' : Run step s as' t') :
    ∃ bs, Run step t' bs t := by
  have right : Relator.RightUnique fun s t => ∃ a, step s a t := by
    rintro s t u ⟨a, first⟩ ⟨b, second⟩
    exact unique s a t b u first second
  apply exists_run_of_reachable
  refine reachable_final right run.reachable ?_ run'.reachable
  rintro u ⟨a, more⟩
  exact final a u more

/-- Where no state has two successors and a run has come among states that always go on, none stops. -/
theorem reachable_goes_on {r : σ → σ → Prop} {I : σ → Prop} {u : σ} (unique : Relator.RightUnique r)
    (reached : Relation.ReflTransGen r s t) (inside : I t) (on : ∀ t, I t → ∃ u, r t u ∧ I u)
    (other : Relation.ReflTransGen r s u) : ∃ v, r u v := by
  rcases Relation.ReflTransGen.total_of_right_unique unique reached other with beyond | onward
  · have stays : I u := by
      clear other
      induction beyond with
      | refl => exact inside
      | tail _ last ih =>
        obtain ⟨v, more, next⟩ := on _ ih
        rw [unique last more]
        exact next
    obtain ⟨v, more, -⟩ := on u stays
    exact ⟨v, more⟩
  · rcases onward.cases_head with rfl | ⟨v, more, -⟩
    · obtain ⟨v, more, -⟩ := on u inside
      exact ⟨v, more⟩
    · exact ⟨v, more⟩

/-- A step function that can fail runs through a list of labels. -/
theorem Run.of_foldlM {ε : Type*} {next : σ → α → Except ε σ} (ok : as.foldlM next s = .ok t) :
    Run (fun s a t => next s a = .ok t) s as t := by
  induction as using List.reverseRecOn generalizing t with
  | nil => cases ok; exact .nil
  | append_singleton as a ih =>
    rw [List.foldlM_append] at ok
    cases before : as.foldlM next s with
    | error fault => rw [before] at ok; cases ok
    | ok u =>
      rw [before] at ok
      have last : [a].foldlM next u = next u a := by rw [List.foldlM_cons]; exact bind_pure _
      exact (ih before).snoc (last.symm.trans ok)

/-- A run that is computed, with what is looked at in the state it ends in. -/
theorem Run.of_seen {ε β : Type*} {next : σ → α → Except ε σ} {see : σ → β} {b : β}
    (seen : (as.foldlM next s).toOption.map see = some b) :
    ∃ t, Run (fun s a t => next s a = .ok t) s as t ∧ see t = b := by
  cases ran : as.foldlM next s with
  | error fault => rw [ran] at seen; cases seen
  | ok t =>
    rw [ran] at seen
    exact ⟨t, .of_foldlM ran, Option.some.inj seen⟩

section

variable {ε : Type*} {allowed : Bool} {next : Except ε σ}

/-- A step that is made only where it is allowed; the one that is not fails without a fault. -/
def guarded (allowed : Bool) (next : Except ε σ) : Except (Option ε) σ :=
  if allowed then next.mapError some else .error none

theorem guarded_eq_ok_iff : guarded allowed next = .ok t ↔ allowed = true ∧ next = .ok t := by
  cases allowed <;> cases next <;> simp [guarded, Except.mapError]

theorem guarded_eq_error_iff {fault : ε} :
    guarded allowed next = .error (some fault) ↔ allowed = true ∧ next = .error fault := by
  cases allowed <;> cases next <;> simp [guarded, Except.mapError]

end

section

variable {ε : Type*} {next : σ → α → Except ε σ} {result : σ → α → σ} {Passes : α → Prop}

/-- Whether a step fails depends on its label alone: the labels all pass. -/
theorem foldlM_passes (pass : ∀ s a, Passes a → next s a = .ok (result s a)) (all : ∀ a ∈ as, Passes a) :
    as.foldlM next s = .ok (as.foldl result s) := by
  induction as generalizing s with
  | nil => rfl
  | cons a as ih =>
    rw [List.foldlM_cons, pass s a (all a List.mem_cons_self)]
    exact ih fun a member => all a (List.mem_cons_of_mem _ member)

theorem foldlM_fails (pass : ∀ s a, Passes a → next s a = .ok (result s a))
    (fails : ∀ s a, ¬ Passes a → ∃ fault, next s a = .error fault) (some_ : ∃ a ∈ as, ¬ Passes a) :
    ∃ fault, as.foldlM next s = .error fault := by
  induction as generalizing s with
  | nil =>
    obtain ⟨a, member, _⟩ := some_
    cases member
  | cons a as ih =>
    rw [List.foldlM_cons]
    by_cases ok : Passes a
    · rw [pass s a ok]
      obtain ⟨b, member, bad⟩ := some_
      rcases List.mem_cons.mp member with rfl | later
      · exact absurd ok bad
      · exact ih ⟨b, later, bad⟩
    · obtain ⟨fault, failed⟩ := fails s a ok
      rw [failed]
      exact ⟨fault, rfl⟩

end

def EachAfter (P : List α → α → Prop) (l : List α) : Prop :=
  ∀ pre a post, l = pre ++ a :: post → P pre a

theorem EachAfter.nil {P : List α → α → Prop} : EachAfter P [] := by
  intro pre a post split
  simp at split

theorem EachAfter.snoc {P : List α → α → Prop} {l : List α} {a : α} (past : EachAfter P l)
    (last : P l a) : EachAfter P (l ++ [a]) := by
  intro pre b post split
  rcases post.eq_nil_or_concat with rfl | ⟨post, z, rfl⟩
  · obtain ⟨rfl, same⟩ := List.append_inj' split rfl
    cases same
    exact last
  · refine past pre b post ?_
    rw [List.concat_eq_append, ← List.cons_append, ← List.append_assoc] at split
    exact (List.append_inj' split rfl).1

end Foundation
