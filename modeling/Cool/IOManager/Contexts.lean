import Cool.IOManager.Basic
import Mathlib.Algebra.Group.Int.Defs
import Mathlib.Data.List.Basic

/-!
# The table of fd contexts

`addEvent` looks at the size of `m_fdContexts` under a read lock, and a thread that finds its
descriptor beyond the end takes the write lock in a second step and resizes the table to one and a
half times its own descriptor. Nothing compares that with the size the table has by then.
-/

namespace Cool.IOManager.Contexts

/-- A `FdContext` object, by the order of its creation, with the `fd` it was given. -/
structure Object where
  id : Nat
  fd : Nat
  deriving DecidableEq, Repr

structure Table where
  contexts : List (Option Object)
  created : Nat
  deriving DecidableEq, Repr

/-- The loop of `resizeContext` from index `i` on. -/
def fill (i created : Nat) : List (Option Object) → List (Option Object) × Nat
  | [] => ([], created)
  | none :: rest =>
    let (filled, created') := fill (i + 1) (created + 1) rest
    (some ⟨created, i⟩ :: filled, created')
  | some o :: rest =>
    let (filled, created') := fill (i + 1) created rest
    (some o :: filled, created')

def resizeContext (t : Table) (size : Nat) : Table :=
  let resized := t.contexts.take size ++ List.replicate (size - t.contexts.length) none
  let (contexts, created) := fill 0 t.created resized
  ⟨contexts, created⟩

/-- A `size_t` cast to `int`. -/
def toInt (n : Nat) : Int := Int.bmod n (2 ^ 32)

/-- `pending` gives, for a thread between the two locks of `addEvent`, its descriptor. -/
structure Threads where
  table : Table
  pending : Nat → Option Fd

inductive Action where
  | test (thread : Nat) (fd : Fd)
  | grow (thread : Nat)
  deriving DecidableEq, Repr

/-- A step of a thread. A thread that is not where the step starts does nothing. -/
def step (s : Threads) : Action → Threads
  | .test thread fd =>
    if s.pending thread = none ∧ ¬ toInt s.table.contexts.length > fd.val then
      { s with pending := Function.update s.pending thread (some fd) }
    else s
  | .grow thread =>
    match s.pending thread with
    | none => s
    | some fd =>
      -- `fd * 1.5` is exact in a `double`, and truncated to a `size_t`
      ⟨resizeContext s.table (fd.val * 3 / 2), Function.update s.pending thread none⟩

/-- The state of `IOManager()`, after `resizeContext(32)`. -/
def new : Threads := ⟨resizeContext ⟨[], 0⟩ 32, fun _ => none⟩

def run (actions : List Action) : Threads := actions.foldl step new

/-! ### Resizing -/

variable {t : Table} {s : Threads} {size k : Nat} {o : Object}

theorem length_fill (i created : Nat) (l : List (Option Object)) : (fill i created l).1.length = l.length := by
  fun_induction fill i created l <;> simp_all

theorem fill_filled (i created : Nat) (l : List (Option Object)) : none ∉ (fill i created l).1 := by
  fun_induction fill i created l <;> simp_all

theorem fill_keeps {i created : Nat} {l : List (Option Object)} (found : l[k]? = some (some o)) :
    (fill i created l).1[k]? = some (some o) := by
  fun_induction fill i created l generalizing k with
  | case1 => simp at found
  | case2 i created rest filled created' rest' ih =>
    cases k with
    | zero => simp at found
    | succ k => exact (congrArg (fun p => p.1[k]?) rest').symm.trans (ih found)
  | case3 i created o rest filled created' rest' ih =>
    cases k with
    | zero => exact found
    | succ k => exact (congrArg (fun p => p.1[k]?) rest').symm.trans (ih found)

theorem length_resizeContext (t : Table) (size : Nat) : (resizeContext t size).contexts.length = size := by
  unfold resizeContext
  rw [length_fill, List.length_append, List.length_take, List.length_replicate]
  omega

theorem resizeContext_filled (t : Table) (size : Nat) : none ∉ (resizeContext t size).contexts :=
  fill_filled _ _ _

theorem resizeContext_keeps (roomy : t.contexts.length ≤ size) (found : t.contexts[k]? = some (some o)) :
    (resizeContext t size).contexts[k]? = some (some o) := by
  have bound := (List.getElem?_eq_some_iff.mp found).1
  refine fill_keeps ?_
  rw [List.take_of_length_le roomy, List.getElem?_append_left bound]
  exact found

/-! ### Runs -/

/-- Every context stays where it is for the rest of the run, and a thread that has resized the table
finds its descriptor in it. -/
def Kept (actions : List Action) : Prop :=
  (∀ before between after, actions = before ++ between ++ after → ∀ (k : Nat) (o : Object),
    (run before).table.contexts[k]? = some (some o) →
    (run (before ++ between)).table.contexts[k]? = some (some o)) ∧
  ∀ before thread (fd : Fd) after, actions = before ++ .grow thread :: after →
    (run before).pending thread = some fd → fd.val < (run (before ++ [.grow thread])).table.contexts.length

/-- No thread resizes the table to less than the size it has at that moment. -/
def Roomy (actions : List Action) : Prop :=
  ∀ before thread (fd : Fd) after, actions = before ++ .grow thread :: after →
    (run before).pending thread = some fd → (run before).table.contexts.length ≤ fd.val * 3 / 2

theorem run_snoc (actions : List Action) (a : Action) : run (actions ++ [a]) = step (run actions) a := by
  simp [run]

theorem Roomy.prefix_of {before after : List Action} (roomy : Roomy (before ++ after)) : Roomy before := by
  intro before' thread fd after' split
  refine roomy before' thread fd (after' ++ after) ?_
  rw [split, List.append_assoc, List.cons_append]

theorem grow_table {thread : Nat} {fd : Fd} (pending : s.pending thread = some fd) :
    (step s (.grow thread)).table = resizeContext s.table (fd.val * 3 / 2) := by
  simp [step, pending]

theorem step_table (s : Threads) (a : Action) :
    (step s a).table = s.table ∨ ∃ thread fd, a = .grow thread ∧ s.pending thread = some fd ∧
      (step s a).table = resizeContext s.table (fd.val * 3 / 2) := by
  cases a with
  | test thread fd =>
    unfold step
    dsimp only
    split <;> exact .inl rfl
  | grow thread =>
    cases pending : s.pending thread with
    | none => simp [step, pending]
    | some fd => exact .inr ⟨thread, fd, rfl, pending, grow_table pending⟩

theorem run_filled (actions : List Action) : none ∉ (run actions).table.contexts := by
  induction actions using List.reverseRecOn with
  | nil => exact resizeContext_filled _ _
  | append_singleton actions a ih =>
    rw [run_snoc]
    rcases step_table (run actions) a with same | ⟨_, _, _, _, resized⟩
    · rwa [same]
    · rw [resized]
      exact resizeContext_filled _ _

theorem Roomy.least {actions : List Action} (roomy : Roomy actions) :
    32 ≤ (run actions).table.contexts.length := by
  induction actions using List.reverseRecOn with
  | nil => exact Nat.le_of_eq (length_resizeContext _ _).symm
  | append_singleton actions a ih =>
    have before := ih roomy.prefix_of
    rw [run_snoc]
    rcases step_table (run actions) a with same | ⟨thread, fd, rfl, pending, resized⟩
    · rwa [same]
    · rw [resized, length_resizeContext]
      exact before.trans (roomy actions thread fd [] rfl pending)

theorem Roomy.keeps {before between after : List Action} (roomy : Roomy (before ++ between ++ after))
    (found : (run before).table.contexts[k]? = some (some o)) :
    (run (before ++ between)).table.contexts[k]? = some (some o) := by
  induction between using List.reverseRecOn generalizing after with
  | nil => rwa [List.append_nil]
  | append_singleton between a ih =>
    rw [← List.append_assoc, List.append_assoc] at roomy
    have old := ih roomy
    rw [← List.append_assoc, run_snoc]
    rcases step_table (run (before ++ between)) a with same | ⟨thread, fd, rfl, pending, resized⟩
    · rwa [same]
    · rw [resized]
      exact resizeContext_keeps (roomy _ thread fd after rfl pending) old

/-- A resize to less than the size of the table loses the context at its new end. -/
theorem Kept.roomy {actions : List Action} (kept : Kept actions) : Roomy actions := by
  intro before thread fd after split pending
  by_contra shrinks
  have short : fd.val * 3 / 2 < (run before).table.contexts.length := Nat.lt_of_not_le shrinks
  obtain ⟨o, found⟩ : ∃ o, (run before).table.contexts[fd.val * 3 / 2]? = some (some o) := by
    have entry := List.getElem?_eq_getElem short
    cases here : (run before).table.contexts[fd.val * 3 / 2] with
    | none => exact absurd (here ▸ List.getElem_mem short) (run_filled before)
    | some o => exact ⟨o, by rw [entry, here]⟩
  have still := kept.1 before [.grow thread] after (by rw [split]; simp) _ o found
  have bound := (List.getElem?_eq_some_iff.mp still).1
  rw [run_snoc, grow_table pending, length_resizeContext] at bound
  exact Nat.lt_irrefl _ bound

/-- The contexts stay where they are exactly in the runs in which no thread resizes the table to less
than the size it has by then. -/
theorem contexts_kept_iff (actions : List Action) : Kept actions ↔ Roomy actions := by
  refine ⟨Kept.roomy, fun roomy => ⟨?_, ?_⟩⟩
  · intro before between after split k o found
    exact (split ▸ roomy : Roomy (before ++ between ++ after)).keeps found
  · intro before thread fd after split pending
    have least := (split ▸ roomy : Roomy (before ++ .grow thread :: after)).prefix_of.least
    have enough := roomy before thread fd after split pending
    rw [run_snoc, grow_table pending, length_resizeContext]
    omega

/-- Two threads find their descriptors beyond the table. The one with the larger descriptor resizes
it to 150, then the other to 60. -/
theorem contexts_lost : ¬ Kept [.test 0 100, .test 1 40, .grow 0, .grow 1] := by
  intro kept
  have waiting : (run [.test 0 100, .test 1 40]).pending 0 = some 100 := by decide
  have enough := kept.roomy [.test 0 100, .test 1 40, .grow 0] 1 40 [] rfl (by decide)
  have size : (run ([.test 0 100, .test 1 40] ++ [.grow 0])).table.contexts.length = 150 := by
    rw [run_snoc, grow_table waiting, length_resizeContext]
    rfl
  exact absurd (size ▸ enough) (by decide)

end Cool.IOManager.Contexts
