import Cool.Foundation.Slots
import Cool.Scheduler.Machine

/-!
# What `stopping` can tell

`m_active_thread_count` is the number of threads that have picked a task and have not come back from
its `swapIn`. A fiber that yields `READY` comes back before it is in the queue again, so that for a
while neither the count nor the queue shows it.
-/

namespace Cool.Scheduler

open Foundation Foundation.Slots

open IOManager (increment decrement increment_count decrement_count)

variable {κ : Type}

/-- From `++m_active_thread_count` to `--m_active_thread_count`. -/
def Pc.active : Pc κ → Bool
  | .picked _ => true
  | .task .idle _ _ => false
  | .task _ _ phase =>
    match phase with
    | .swapIn | .mark | .switch | .run | .leave _ | .back => true
    | _ => false
  | _ => false

namespace System

variable {s s' : System κ} {a : Action κ} {t u : ThreadId} {th : Thread κ} {f : FiberId}

def busy (threads : ThreadId → Option (Thread κ)) (t : ThreadId) : Option Unit :=
  (threads t).bind fun th => if th.pc.active then some () else none

def Counted (s : System κ) : Prop := s.activeThreadCount = (contents (busy s.threads)).card

theorem busy_update (threads : ThreadId → Option (Thread κ)) (t : ThreadId) (th : Thread κ) :
    busy (Function.update threads t (some th)) =
      Function.update (busy threads) t (if th.pc.active then some () else none) := by
  funext u
  by_cases same : u = t
  · subst same
    simp [busy]
  · simp [busy, same]

theorem count_small (threads : ThreadId → Option (Thread κ)) : (contents (busy threads)).card < 2 ^ 33 := by
  rw [card_contents]
  refine Nat.lt_of_le_of_lt (Finset.card_le_univ _) ?_
  rw [Fintype.card_fin]
  decide

theorem busy_here (here : s.threads t = some th) :
    busy s.threads t = if th.pc.active then some () else none := by
  rw [busy, here, Option.bind_some]

section Step

variable (counted : Counted s) (threads : s'.threads = Function.update s.threads t (some th))

include counted threads

theorem Counted.same (before : busy s.threads t = if th.pc.active then some () else none)
    (count : s'.activeThreadCount = s.activeThreadCount) : Counted s' := by
  rw [Counted, count, counted, threads, busy_update, ← before, Function.update_eq_self]

theorem Counted.enter (before : busy s.threads t = none) (active : th.pc.active = true)
    (count : s'.activeThreadCount = increment s.activeThreadCount) : Counted s' := by
  rw [Counted, count, counted, increment_count (count_small _), threads, busy_update, active, if_pos rfl,
    contents_put before, Multiset.card_cons]

theorem Counted.leave (before : busy s.threads t = some ()) (active : th.pc.active = false)
    (count : s'.activeThreadCount = decrement s.activeThreadCount) : Counted s' := by
  have taken := congrArg Multiset.card (contents_take before)
  have small := count_small s.threads
  rw [Multiset.card_cons] at taken
  rw [taken] at small
  rw [Counted, count, counted, taken, decrement_count small, threads, busy_update, active]
  rfl

end Step

theorem Moves.active {fiber fiber' : Fiber κ} {b : Branch} {code : Option Code} {phase phase' : Phase}
    (moves : Moves fiber b code phase phase' fiber') :
    (Pc.task b f phase' : Pc κ).active = (Pc.task b f phase : Pc κ).active := by
  cases b <;> cases moves <;> rfl

theorem Counted.step (counted : Counted s) (step : Stepped s a s') : Counted s' := by
  cases step with
  | outside a registered => exact counted
  | flags autostop stop => exact counted
  | create cb => exact counted
  | start idle absent => exact counted.same rfl (by rw [busy, absent]; rfl) rfl
  | idling here at_pc none_eligible => exact counted.same rfl (by rw [busy_here here, at_pc]; rfl) rfl
  | pick here at_pc split eligible => exact counted.enter rfl (by rw [busy_here here, at_pc]; rfl) rfl rfl
  | resume here at_pc fiber => exact counted.same rfl (by rw [busy_here here, at_pc]; rfl) rfl
  | reset here at_pc no_fiber callback kept => exact counted.same rfl (by rw [busy_here here, at_pc]; rfl) rfl
  | begin here at_pc no_fiber callback kept => exact counted.same rfl (by rw [busy_here here, at_pc]; rfl) rfl
  | drop here at_pc no_fiber => exact counted.leave rfl (by rw [busy_here here, at_pc]; rfl) rfl rfl
  | move here at_pc moves => exact counted.same rfl (by rw [busy_here here, at_pc, moves.active]) rfl
  | backIdle here at_pc => exact counted.same rfl (by rw [busy_here here, at_pc]; rfl) rfl
  | @back t th b f here at_pc active =>
    refine counted.leave rfl ?_ (by cases b <;> rfl) rfl
    rw [busy_here here, at_pc]
    cases b with
    | idle => exact absurd rfl active
    | fiber | cb => rfl
  | @finish t th b f here at_pc other ended =>
    exact counted.same rfl (by rw [busy_here here, at_pc]; cases b <;> rfl) rfl
  | @hold t th b f here at_pc =>
    exact counted.same rfl (by rw [busy_here here, at_pc]; cases b <;> rfl) rfl
  | @recycle t th b f here at_pc =>
    exact counted.same rfl (by rw [busy_here here, at_pc]; cases b <;> rfl) rfl
  | @requeue t th b f here at_pc =>
    exact counted.same rfl (by rw [busy_here here, at_pc]; cases b <;> rfl) rfl
  | exit here at_pc ended => exact counted.same rfl (by rw [busy_here here, at_pc]; rfl) rfl
  | rest here at_pc live => exact counted.same rfl (by rw [busy_here here, at_pc]; rfl) rfl

theorem Counted.new : Counted (System.new : System κ) :=
  (congrArg Multiset.card contents_none).symm

theorem Counted.idle (counted : Counted s) (none_active : s.activeThreadCount = 0)
    (here : s.threads t = some th) : th.pc.active = false := by
  by_contra active
  rw [Bool.not_eq_false] at active
  have member : () ∈ contents (busy s.threads) :=
    mem_contents.mpr ⟨t, by rw [busy_here here, active]; rfl⟩
  rw [Multiset.card_eq_zero.mp (counted.symm.trans none_active)] at member
  exact Multiset.notMem_zero _ member

/-! ### Shutdown -/

/-- A task has written `READY`, and its thread has not put it back yet. -/
def Returning (s : System κ) (pc : Pc κ) : Prop :=
  ∃ b f phase, pc = .task b f phase ∧ b ≠ .idle ∧ phase ≠ .swapIn ∧ phase ≠ .mark ∧
    ((s.heap f).state = .ready ∨ phase = .requeue)

/-- Nothing is queued, picked, executing or waiting to be put back. -/
def Settled (s : System κ) : Prop :=
  s.fibers = [] ∧ ∀ t th, s.threads t = some th → th.pc.active = false ∧ ¬ s.Returning th.pc

def shutdown (s : System κ) : Bool := s.autostop && s.stop

/-- Once the flags say that the scheduler is to stop, no fiber yields `READY`, and they come to say
so while no `READY` task is on its way back to the queue. -/
def YieldsEarly (s : System κ) : Action κ → Prop
  | .code _ .yieldToReady => s.shutdown = false
  | .flags autostop stop =>
    (autostop && stop) = true → ∀ t th, s.threads t = some th → ¬ s.Returning th.pc
  | _ => True

def Early (s : System κ) : Prop :=
  s.shutdown = true → ∀ t th, s.threads t = some th → ¬ s.Returning th.pc

theorem Returning.of_ready {pc : Pc κ} (ready : ∀ f, (s'.heap f).state = .ready → (s.heap f).state = .ready)
    (returning : s'.Returning pc) : s.Returning pc := by
  obtain ⟨b, f, phase, at_pc, task, entered, marked, written⟩ := returning
  exact ⟨b, f, phase, at_pc, task, entered, marked, written.imp_left (ready f)⟩

/-- A step by which no fiber becomes `READY`. -/
theorem Early.update (early : Early s) (threads : s'.threads = Function.update s.threads t (some th))
    (flags : s'.autostop = s.autostop ∧ s'.stop = s.stop)
    (ready : ∀ f, (s'.heap f).state = .ready → (s.heap f).state = .ready)
    (own : s.shutdown = true → ¬ s'.Returning th.pc) : Early s' := by
  intro down
  have down : s.shutdown = true := by rwa [shutdown, flags.1, flags.2] at down
  refine threads_update threads (own down) fun u uh here returning => ?_
  exact early down u uh here (returning.of_ready ready)

/-- A step by which no fiber becomes `READY`, to a place that is not in a task, or not yet. -/
theorem Early.pass (early : Early s) (threads : s'.threads = Function.update s.threads t (some th))
    (flags : s'.autostop = s.autostop ∧ s'.stop = s.stop)
    (ready : ∀ f, (s'.heap f).state = .ready → (s.heap f).state = .ready)
    (outside : ∀ b f phase, th.pc = .task b f phase → b = .idle ∨ phase = .swapIn) : Early s' := by
  refine early.update threads flags ready fun _ => ?_
  rintro ⟨b, f, phase, at_pc, task, entered, -⟩
  exact (outside b f phase at_pc).elim task entered

theorem ready_setFiber {fiber : Fiber κ} (ready : fiber.state = .ready → (s.heap f).state = .ready) (g : FiberId) :
    ((s.setFiber f fiber).heap g).state = .ready → (s.heap g).state = .ready := by
  intro after
  by_cases same : g = f
  · subst same
    exact ready (by simpa [setFiber] using after)
  · simpa [setFiber, same] using after

theorem ready_create (cb : Option κ) (g : FiberId) :
    ((s.create cb).heap g).state = .ready → (s.heap g).state = .ready := by
  refine ready_setFiber ?_ g
  intro ready
  cases ready

theorem Moves.ready_of {fiber fiber' : Fiber κ} {b : Branch} {code : Option Code} {phase phase' : Phase}
    (moves : Moves fiber b code phase phase' fiber') (yields : code ≠ some .yieldToReady) :
    fiber'.state = .ready → fiber.state = .ready := by
  cases moves <;> simp_all

theorem Moves.returning_of {fiber fiber' : Fiber κ} {b : Branch} {code : Option Code} {phase phase' : Phase}
    (moves : Moves fiber b code phase phase' fiber') (yields : code ≠ some .yieldToReady)
    (marked : phase' ≠ .mark) (written : fiber'.state = .ready ∨ phase' = .requeue) :
    phase ≠ .swapIn ∧ phase ≠ .mark ∧ fiber.state = .ready := by
  cases moves <;> simp_all

theorem Early.step (early : Early s) (yields : s.YieldsEarly a) (step : Stepped s a s') : Early s' := by
  cases step with
  | outside a registered => exact early
  | flags autostop stop => exact yields
  | create cb =>
    exact fun down t th here returning => early down t th here (returning.of_ready (ready_create cb))
  | start idle absent =>
    exact early.pass rfl ⟨rfl, rfl⟩ (ready_create _) (by rintro _ _ _ ⟨⟩)
  | idling here at_pc none_eligible =>
    exact early.pass rfl ⟨rfl, rfl⟩ (fun _ => id) (by rintro _ _ _ ⟨⟩)
  | pick here at_pc split eligible =>
    exact early.pass rfl ⟨rfl, rfl⟩ (fun _ => id) (by rintro _ _ _ ⟨⟩)
  | resume here at_pc fiber =>
    exact early.pass rfl ⟨rfl, rfl⟩ (fun _ => id) (by rintro _ _ _ ⟨⟩; exact .inr rfl)
  | reset here at_pc no_fiber callback kept =>
    refine early.pass rfl ⟨rfl, rfl⟩ (ready_setFiber ?_) ?_
    · intro ready
      cases ready
    · rintro _ _ _ ⟨⟩
      exact .inr rfl
  | begin here at_pc no_fiber callback kept =>
    exact early.pass rfl ⟨rfl, rfl⟩ (ready_create _) (by rintro _ _ _ ⟨⟩; exact .inr rfl)
  | drop here at_pc no_fiber => exact early.pass rfl ⟨rfl, rfl⟩ (fun _ => id) (by rintro _ _ _ ⟨⟩)
  | @move t th b f code phase phase' fiber here at_pc moves =>
    by_cases yielded : code = some .yieldToReady
    · subst yielded
      intro down
      exact absurd (down.symm.trans yields) (by decide)
    · refine early.update rfl ⟨rfl, rfl⟩ (ready_setFiber (moves.ready_of yielded)) fun down => ?_
      rintro ⟨_, _, _, ⟨⟩, task, -, marked, written⟩
      rw [setThread, setFiber] at written
      simp only [Function.update_self] at written
      obtain ⟨entered, marked, ready⟩ := moves.returning_of yielded marked written
      exact early down t th here ⟨b, f, phase, at_pc, task, entered, marked, .inl ready⟩
  | backIdle here at_pc =>
    exact early.pass rfl ⟨rfl, rfl⟩ (fun _ => id) (by rintro _ _ _ ⟨⟩; exact .inl rfl)
  | @back t th b f here at_pc active =>
    refine early.update rfl ⟨rfl, rfl⟩ (fun _ => id) fun down => ?_
    rintro ⟨_, _, _, ⟨⟩, task, -, -, ready | requeued⟩
    · exact early down t th here ⟨b, f, .back, at_pc, task, by decide, by decide, .inl ready⟩
    · cases requeued
  | finish here at_pc other ended =>
    exact early.pass rfl ⟨rfl, rfl⟩ (fun _ => id) (by rintro _ _ _ ⟨⟩)
  | hold here at_pc =>
    refine early.pass rfl ⟨rfl, rfl⟩ (ready_setFiber ?_) (by rintro _ _ _ ⟨⟩)
    intro ready
    cases ready
  | recycle here at_pc =>
    refine early.pass rfl ⟨rfl, rfl⟩ (ready_setFiber ?_) (by rintro _ _ _ ⟨⟩)
    intro ready
    cases ready
  | requeue here at_pc => exact early.pass rfl ⟨rfl, rfl⟩ (fun _ => id) (by rintro _ _ _ ⟨⟩)
  | exit here at_pc ended => exact early.pass rfl ⟨rfl, rfl⟩ (fun _ => id) (by rintro _ _ _ ⟨⟩)
  | rest here at_pc live =>
    exact early.pass rfl ⟨rfl, rfl⟩ (fun _ => id) (by rintro _ _ _ ⟨⟩; exact .inl rfl)

/-- In a run in which no fiber yields `READY` once the scheduler is to stop, and none is on its way
back to the queue when that is decided, `stopping` answers true only when there is nothing left. -/
theorem stopping_settled {actions : List (Action κ)}
    (run : Run (fun s a s' => s.YieldsEarly a ∧ s.step a = .ok s') new actions s)
    (stops : s.stopping = true) : s.Settled := by
  have counted : Counted s :=
    run.invariant (fun s a s' counted step => counted.step (step_stepped step.2)) Counted.new
  have early : Early s := by
    refine run.invariant (fun s a s' early step => early.step step.1 (step_stepped step.2)) ?_
    intro down t th here
    cases here
  simp only [stopping, Bool.and_eq_true, List.isEmpty_iff, beq_iff_eq] at stops
  obtain ⟨⟨⟨autostop, stop⟩, empty⟩, none_active⟩ := stops
  refine ⟨empty, fun t th here => ⟨counted.idle none_active here, early ?_ t th here⟩⟩
  rw [shutdown, autostop, stop, Bool.and_self]

theorem stopping_settled_finished :
    ∃ s, Run (fun s a s' => s.YieldsEarly a ∧ s.step a = .ok s') (new : System Nat)
      [.flags true true, .start 0 0, .schedule (.cb (some 7)) (-1), .run 0, .run 0, .run 0, .run 0, .run 0,
        .code 0 .return, .run 0, .run 0] s ∧ s.stopping = true ∧ s.Settled := by
  have run : Run (fun s a s' => s.YieldsEarly a ∧ s.step a = .ok s') (new : System Nat) [.flags true true] _ :=
    Run.nil.snoc ⟨fun _ t th here => (Option.some_ne_none th here.symm).elim, rfl⟩
  have run := run.snoc (a := .start 0 0) ⟨by trivial, rfl⟩
  have run := run.snoc (a := .schedule (.cb (some 7)) (-1)) ⟨by trivial, rfl⟩
  have run := run.snoc (a := .run 0) ⟨by trivial, rfl⟩
  have run := run.snoc (a := .run 0) ⟨by trivial, rfl⟩
  have run := run.snoc (a := .run 0) ⟨by trivial, rfl⟩
  have run := run.snoc (a := .run 0) ⟨by trivial, rfl⟩
  have run := run.snoc (a := .run 0) ⟨by trivial, rfl⟩
  have run := run.snoc (a := .code 0 .return) ⟨by trivial, rfl⟩
  have run := run.snoc (a := .run 0) ⟨by trivial, rfl⟩
  have run := run.snoc (a := .run 0) ⟨by trivial, rfl⟩
  suffices stops : System.stopping _ = true from ⟨_, run, stops, stopping_settled run stops⟩
  decide

/-- A fiber yields `READY`; its thread has counted itself out and has not put it back. -/
def yieldedLate : List (Action Nat) :=
  [.start 0 0, .create (some 7), .schedule (.fiber (some 1)) (-1), .flags true true,
    .run 0, .run 0, .run 0, .run 0, .run 0, .code 0 .yieldToReady, .run 0, .run 0]

theorem stopping_unsettled :
    ∃ s, Run (fun s a s' => step s a = .ok s') (new : System Nat) yieldedLate s ∧
      s.stopping = true ∧ ¬ s.Settled := by
  have seen : (yieldedLate.foldlM step new).toOption.map (fun s => (s.stopping, s.threads 0, (s.heap 1).state)) =
      some (true, some ⟨.task .fiber 1 .check, none, 0⟩, .ready) := by decide
  obtain ⟨s, run, seen⟩ := Run.of_seen seen
  simp only [Prod.mk.injEq] at seen
  obtain ⟨stops, here, ready⟩ := seen
  refine ⟨s, run, stops, fun settled => (settled.2 0 _ here).2 ?_⟩
  exact ⟨_, _, _, rfl, by decide, by decide, by decide, .inl ready⟩

end System

end Cool.Scheduler
