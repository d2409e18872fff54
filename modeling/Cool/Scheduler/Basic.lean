import Cool.IOManager.Basic
import Mathlib.Data.List.Basic

/-!
# `Fiber` and the queue of `Scheduler`

The functions of `Scheduler` that hold `m_mutex`, each as one step on `m_fibers`: the two forms of
`schedule`, and the search of `run` for the next task. Whether `tickle` is to be called afterwards is
part of their result.
-/

namespace Cool

/-- What `cool::thread_id()` gives. -/
abbrev ThreadId := Fin (2 ^ 31)

abbrev FiberId := Nat

namespace Fiber

inductive State where
  | init
  | hold
  | exec
  | term
  | ready
  | error
  deriving DecidableEq, Repr

/-- Where `swapcontext` into `m_ctx` arrives: at the start of `MainFunc`, behind the `swapOut` that
saved it, or behind the last `swapOut` of `MainFunc`. -/
inductive Context where
  | start
  | suspended
  | finished
  deriving DecidableEq, Repr

end Fiber

/-- A `Fiber` with a stack of its own; `cb` is `none` when `m_cb` is empty. -/
structure Fiber (κ : Type) where
  state : Fiber.State
  cb : Option κ
  ctx : Fiber.Context
  deriving DecidableEq, Repr

namespace Scheduler

variable {κ : Type}

/-- The assertions on the way of a task. -/
inductive Fault where
  /-- `ASSERT(it->fiber || it->cb)` in `run`. -/
  | emptyTask
  /-- `ASSERT(m_state != State::EXEC)` in `swapIn`. -/
  | swapIn
  /-- `ASSERT(m_state == TERM || INIT || ERROR)` in `Fiber::reset`. -/
  | reset
  /-- `ASSERT2(false, "never reach here")` in `MainFunc`. -/
  | neverReach
  deriving DecidableEq, Repr

structure FiberAndThread (κ : Type) where
  fiber : Option FiberId := none
  cb : Option κ := none
  threadId : Int := -1
  deriving DecidableEq, Repr

/-- What `schedule` is given, by value or through a pointer. -/
inductive FiberOrCb (κ : Type) where
  | fiber (f : Option FiberId)
  | cb (f : Option κ)
  deriving DecidableEq, Repr

/-- The constructors of `FiberAndThread`. -/
def FiberOrCb.andThread (thr : Int) : FiberOrCb κ → FiberAndThread κ
  | .fiber f => { fiber := f, threadId := thr }
  | .cb f => { cb := f, threadId := thr }

/-- What the `swap` of a constructor that is given a pointer leaves behind it. -/
def FiberOrCb.swapped : FiberOrCb κ → FiberOrCb κ
  | .fiber _ => .fiber none
  | .cb _ => .cb none

def FiberAndThread.hasTask (ft : FiberAndThread κ) : Bool := ft.fiber.isSome || ft.cb.isSome

/-- `scheduleNoLock(fc, thread_id)`: `need_tickle`, and the queue. -/
def scheduleNoLock (fibers : List (FiberAndThread κ)) (fc : FiberOrCb κ) (threadId : Int) :
    Bool × List (FiberAndThread κ) :=
  let ft := fc.andThread threadId
  (fibers.isEmpty, if ft.hasTask then fibers ++ [ft] else fibers)

/-- The loop of `schedule(begin, end)`. -/
def scheduleRange (needTickle : Bool) (fibers : List (FiberAndThread κ)) :
    List (FiberOrCb κ) → Bool × List (FiberAndThread κ)
  | [] => (needTickle, fibers)
  | fc :: rest =>
    let (need, fibers) := scheduleNoLock fibers fc (-1)
    scheduleRange (need || needTickle) fibers rest

/-- The loop of `run` over `m_fibers` on thread `t`: `tickle_me`, and where the iterator stops. -/
def locate (state : FiberId → Fiber.State) (t : ThreadId) :
    List (FiberAndThread κ) → Except Fault (Bool × Option Nat)
  | [] => .ok (false, none)
  | it :: rest =>
    if it.threadId ≠ -1 ∧ it.threadId ≠ t.val then
      (locate state t rest).map fun found => (true, found.2.map (· + 1))
    else if !it.hasTask then .error .emptyTask
    else if it.fiber.any (fun f => state f == .exec) then
      (locate state t rest).map fun found => (found.1, found.2.map (· + 1))
    else .ok (false, some 0)

/-- The locked section of `run`: `ft` is `none` when it stays empty. -/
def pick (state : FiberId → Fiber.State) (t : ThreadId) (fibers : List (FiberAndThread κ)) :
    Except Fault (Bool × Option (FiberAndThread κ) × List (FiberAndThread κ)) :=
  match locate state t fibers with
  | .error fault => .error fault
  | .ok (tickleMe, none) => .ok (tickleMe, none, fibers)
  | .ok (tickleMe, some i) => .ok (tickleMe, fibers[i]?, fibers.eraseIdx i)

/-- A task that thread `t` may take: not bound to another thread, and its fiber is not executing. -/
def Eligible (state : FiberId → Fiber.State) (t : ThreadId) (it : FiberAndThread κ) : Prop :=
  (it.threadId = -1 ∨ it.threadId = t.val) ∧ ∀ f, it.fiber = some f → state f ≠ .exec

/-! ### What the search finds -/

variable {state : FiberId → Fiber.State} {t : ThreadId} {fibers : List (FiberAndThread κ)}

theorem eligible_iff {it : FiberAndThread κ} :
    Eligible state t it ↔
      ¬ (it.threadId ≠ -1 ∧ it.threadId ≠ t.val) ∧ it.fiber.any (fun f => state f == .exec) = false := by
  cases h : it.fiber <;> simp [Eligible, h, or_iff_not_imp_left]

/-- Where an iterator stops that looks for the first eligible task. -/
def Stops (state : FiberId → Fiber.State) (t : ThreadId) (fibers : List (FiberAndThread κ)) :
    Option Nat → Prop
  | none => ∀ it ∈ fibers, ¬ Eligible state t it
  | some i => ∃ it, fibers[i]? = some it ∧ it.hasTask = true ∧ Eligible state t it ∧
      ∀ j < i, ∀ it', fibers[j]? = some it' → ¬ Eligible state t it'

theorem Stops.cons {it : FiberAndThread κ} {i : Option Nat} (skipped : ¬ Eligible state t it)
    (stops : Stops state t fibers i) : Stops state t (it :: fibers) (i.map (· + 1)) := by
  cases i with
  | none => exact List.forall_mem_cons.mpr ⟨skipped, stops⟩
  | some i =>
    obtain ⟨it', here, task, eligible, first⟩ := stops
    refine ⟨it', here, task, eligible, fun j before it'' at_j => ?_⟩
    cases j with
    | zero => exact Option.some.inj at_j ▸ skipped
    | succ j => exact first j (Nat.lt_of_succ_lt_succ before) it'' at_j

theorem locate_stops {tickleMe : Bool} {i : Option Nat}
    (found : locate state t fibers = .ok (tickleMe, i)) : Stops state t fibers i := by
  induction fibers generalizing i tickleMe with
  | nil => cases found; simp [Stops]
  | cons it rest ih =>
    have passed (skipped : ¬ Eligible state t it) (tickle : Bool → Bool)
        (found : (locate state t rest).map (fun found => (tickle found.1, found.2.map (· + 1))) =
          .ok (tickleMe, i)) : Stops state t (it :: rest) i := by
      cases later : locate state t rest with
      | error fault => rw [later] at found; cases found
      | ok stop => rw [later] at found; cases found; exact .cons skipped (ih later)
    unfold locate at found
    split at found
    · rename_i other
      exact passed (fun eligible => (eligible_iff.mp eligible).1 other) (fun _ => true) found
    · rename_i own
      split at found
      · cases found
      · rename_i task
        split at found
        · rename_i executing
          exact passed (fun eligible => by simp [(eligible_iff.mp eligible).2] at executing) id found
        · rename_i idle
          cases found
          refine ⟨it, rfl, by simpa using task, eligible_iff.mpr ⟨own, by simpa using idle⟩, ?_⟩
          exact fun j before => absurd before (Nat.not_lt_zero j)

theorem locate_ok (tasks : ∀ it ∈ fibers, it.hasTask = true) : ∃ found, locate state t fibers = .ok found := by
  induction fibers with
  | nil => exact ⟨_, rfl⟩
  | cons it rest ih =>
    obtain ⟨task, tasks⟩ := List.forall_mem_cons.mp tasks
    obtain ⟨found, later⟩ := ih tasks
    unfold locate
    rw [later, task]
    simp only [Bool.not_true, Bool.false_eq_true, if_false, Except.map]
    split
    · exact ⟨_, rfl⟩
    · split <;> exact ⟨_, rfl⟩

theorem pick_some {tickleMe : Bool} {ft : FiberAndThread κ} {rest : List (FiberAndThread κ)}
    (picked : pick state t fibers = .ok (tickleMe, some ft, rest)) :
    ∃ before after, fibers = before ++ ft :: after ∧ rest = before ++ after ∧ Eligible state t ft := by
  unfold pick at picked
  split at picked
  · cases picked
  · cases picked
  · rename_i i found
    obtain ⟨it, here, -, eligible, -⟩ := locate_stops found
    obtain ⟨bound, same⟩ := List.getElem?_eq_some_iff.mp here
    rw [here] at picked
    cases picked
    refine ⟨fibers.take i, fibers.drop (i + 1), ?_, List.eraseIdx_eq_take_drop_succ .., eligible⟩
    rw [← same, ← List.drop_eq_getElem_cons bound, List.take_append_drop]

theorem mem_of_rest {ft it : FiberAndThread κ} {before after : List (FiberAndThread κ)}
    (split : fibers = before ++ ft :: after) (rest : it ∈ before ++ after) : it ∈ fibers := by
  rw [split]
  exact ((List.sublist_cons_self ft after).append_left before).mem rest

theorem pick_none {tickleMe : Bool} {rest : List (FiberAndThread κ)}
    (picked : pick state t fibers = .ok (tickleMe, none, rest)) :
    ∀ it ∈ fibers, ¬ Eligible state t it := by
  unfold pick at picked
  split at picked
  · cases picked
  · rename_i found
    exact locate_stops found
  · rename_i found
    obtain ⟨it, here, -⟩ := locate_stops found
    rw [here] at picked
    cases picked

theorem pick_ok (tasks : ∀ it ∈ fibers, it.hasTask = true) : ∃ found, pick state t fibers = .ok found := by
  have found : ∃ found, locate state t fibers = .ok found := locate_ok tasks
  obtain ⟨⟨tickleMe, i⟩, located⟩ := found
  unfold pick
  rw [located]
  cases i with
  | none => exact ⟨_, rfl⟩
  | some i => exact ⟨_, rfl⟩

/-! ### What is pushed -/

theorem scheduleNoLock_eq (fibers : List (FiberAndThread κ)) (fc : FiberOrCb κ) (threadId : Int) :
    (scheduleNoLock fibers fc threadId).2 =
      fibers ++ [fc.andThread threadId].filter FiberAndThread.hasTask := by
  unfold scheduleNoLock
  dsimp only
  split
  · rename_i task
    rw [List.filter_cons_of_pos task, List.filter_nil]
  · rename_i empty
    rw [List.filter_cons_of_neg empty, List.filter_nil, List.append_nil]

theorem scheduleRange_eq (needTickle : Bool) (fibers : List (FiberAndThread κ)) (fcs : List (FiberOrCb κ)) :
    (scheduleRange needTickle fibers fcs).2 =
      fibers ++ (fcs.map (·.andThread (-1))).filter FiberAndThread.hasTask := by
  induction fcs generalizing needTickle fibers with
  | nil => simp [scheduleRange]
  | cons fc rest ih =>
    have first := scheduleNoLock_eq fibers fc (-1)
    unfold scheduleRange
    dsimp only
    rw [ih, first, List.append_assoc, ← List.filter_append]
    rfl

end Scheduler

end Cool
