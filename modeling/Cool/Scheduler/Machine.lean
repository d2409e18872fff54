import Cool.Foundation.Run
import Cool.Scheduler.Basic

/-!
# `Scheduler::run` on several threads

Each step is one access of a thread to what the threads share: the locked search, one read or write
of a fiber's state, one change of a counter, one `swapcontext`. A condition such as
`state() != TERM && state() != ERROR` reads the state once. What the code of a fiber does is left
open, and so is `idle`, which is virtual.
-/

namespace Cool

namespace Fiber

variable {κ : Type}

def new (cb : Option κ) : Fiber κ := ⟨.init, cb, .start⟩

/-- `Fiber::reset(cb)`, unless its assertion fails. -/
def reset (fiber : Fiber κ) (cb : Option κ) : Option (Fiber κ) :=
  if fiber.state = .term ∨ fiber.state = .init ∨ fiber.state = .error then some (new cb) else none

theorem reset_some {fiber fiber' : Fiber κ} {cb : Option κ} (reset : fiber.reset cb = some fiber') :
    fiber' = new cb := by
  unfold Fiber.reset at reset
  split at reset
  · exact (Option.some.inj reset).symm
  · cases reset

end Fiber

namespace Scheduler

open IOManager (increment decrement)

/-- The three ways in which `run` comes to call `swapIn`. -/
inductive Branch where
  | fiber
  | cb
  | idle
  deriving DecidableEq, Repr

/-- From the call of `swapIn` on a fiber to the end of the turn of the loop. -/
inductive Phase where
  /-- The assertion of `swapIn`. -/
  | swapIn
  /-- `m_state = State::EXEC`. -/
  | mark
  /-- `swapcontext` into the fiber. -/
  | switch
  /-- The fiber executes. -/
  | run
  /-- `swapcontext` out of the fiber, which will leave `m_ctx` as given. -/
  | leave (ctx : Fiber.Context)
  /-- The decrement behind `swapIn`. -/
  | back
  /-- `state() == READY`. -/
  | check
  /-- The tests for `TERM` and `ERROR`. -/
  | settle
  /-- `state(HOLD)`. -/
  | hold
  /-- `cb_fiber->reset(nullptr)`. -/
  | recycle
  /-- `schedule` of a fiber that was `READY`. -/
  | requeue
  deriving DecidableEq, Repr

inductive Pc (κ : Type) where
  | top
  | picked (ft : FiberAndThread κ)
  | task (b : Branch) (f : FiberId) (phase : Phase)
  | idling
  | exited
  deriving DecidableEq, Repr

/-- The locals of `run`. -/
structure Thread (κ : Type) where
  pc : Pc κ
  cbFiber : Option FiberId
  idleFiber : FiberId
  deriving DecidableEq, Repr

/-- `created` fibers have been constructed; `registered` are those with an event that may still wake
them. A thread that is not in `run` has no locals. -/
structure System (κ : Type) where
  fibers : List (FiberAndThread κ)
  activeThreadCount : Nat
  idleThreadCount : Nat
  stop : Bool
  autostop : Bool
  heap : FiberId → Fiber κ
  created : Nat
  registered : FiberId → Bool
  threads : ThreadId → Option (Thread κ)

variable {κ : Type}

/-- The fiber a thread has taken. -/
def Pc.fiber : Pc κ → Option FiberId
  | .picked ft => ft.fiber
  | .task _ f _ => some f
  | _ => none

def Thread.Owns (th : Thread κ) (f : FiberId) : Prop :=
  th.pc.fiber = some f ∨ th.cbFiber = some f ∨ th.idleFiber = f

namespace System

def new : System κ where
  fibers := []
  activeThreadCount := 0
  idleThreadCount := 0
  stop := true
  autostop := false
  heap := fun _ => Fiber.new none
  created := 0
  registered := fun _ => false
  threads := fun _ => none

def setThread (s : System κ) (t : ThreadId) (th : Thread κ) : System κ :=
  { s with threads := Function.update s.threads t (some th) }

def setFiber (s : System κ) (f : FiberId) (fiber : Fiber κ) : System κ :=
  { s with heap := Function.update s.heap f fiber }

def setState (s : System κ) (f : FiberId) (state : Fiber.State) : System κ :=
  s.setFiber f { s.heap f with state := state }

/-- `new Fiber(cb)`. -/
def create (s : System κ) (cb : Option κ) : System κ :=
  { s.setFiber s.created (Fiber.new cb) with created := s.created + 1 }

def push (s : System κ) (fc : FiberOrCb κ) (threadId : Int) : System κ :=
  { s with fibers := (scheduleNoLock s.fibers fc threadId).2 }

def stopping (s : System κ) : Bool :=
  s.autostop && s.stop && s.fibers.isEmpty && s.activeThreadCount == 0

/-- The next step of `run`, `swapIn` or `swapOut` on a thread. -/
def advance (s : System κ) (t : ThreadId) (th : Thread κ) : Except Fault (System κ) :=
  match th.pc with
  | .top =>
    match pick (fun f => (s.heap f).state) t s.fibers with
    | .error fault => .error fault
    | .ok (_, none, _) => .ok (s.setThread t { th with pc := .idling })
    | .ok (_, some ft, fibers) =>
      .ok { s.setThread t { th with pc := .picked ft } with
        fibers := fibers, activeThreadCount := increment s.activeThreadCount }
  | .picked ft =>
    match ft.fiber, ft.cb, th.cbFiber with
    -- `state() != TERM || state() != ERROR` is true of every state
    | some f, _, _ => .ok (s.setThread t { th with pc := .task .fiber f .swapIn })
    | none, some cb, some f =>
      match (s.heap f).reset (some cb) with
      | none => .error .reset
      | some fiber => .ok ((s.setFiber f fiber).setThread t { th with pc := .task .cb f .swapIn })
    | none, some cb, none =>
      .ok ((s.create (some cb)).setThread t
        { th with pc := .task .cb s.created .swapIn, cbFiber := some s.created })
    | none, none, _ =>
      .ok { s.setThread t { th with pc := .top } with
        activeThreadCount := decrement s.activeThreadCount }
  | .task b f .swapIn =>
    if (s.heap f).state = .exec then .error .swapIn
    else .ok (s.setThread t { th with pc := .task b f .mark })
  | .task b f .mark => .ok ((s.setState f .exec).setThread t { th with pc := .task b f .switch })
  | .task b f .switch =>
    if (s.heap f).ctx = .finished then .error .neverReach
    else .ok (s.setThread t { th with pc := .task b f .run })
  | .task _ _ .run => .ok s
  | .task b f (.leave ctx) =>
    .ok ((s.setFiber f { s.heap f with ctx := ctx }).setThread t { th with pc := .task b f .back })
  | .task .idle f .back =>
    .ok { s.setThread t { th with pc := .task .idle f .settle } with
      idleThreadCount := decrement s.idleThreadCount }
  | .task b f .back =>
    .ok { s.setThread t { th with pc := .task b f .check } with
      activeThreadCount := decrement s.activeThreadCount }
  | .task b f .check =>
    if (s.heap f).state = .ready then .ok (s.setThread t { th with pc := .task b f .requeue })
    else .ok (s.setThread t { th with pc := .task b f .settle })
  | .task b f .settle =>
    if (s.heap f).state = .term ∨ (s.heap f).state = .error then
      .ok (s.setThread t { th with pc := if b = .cb then .task b f .recycle else .top })
    else .ok (s.setThread t { th with pc := .task b f .hold })
  | .task b f .hold =>
    .ok ((s.setState f .hold).setThread t
      { th with pc := .top, cbFiber := if b = .cb then none else th.cbFiber })
  | .task _ f .recycle =>
    match (s.heap f).reset none with
    | none => .error .reset
    | some fiber => .ok ((s.setFiber f fiber).setThread t { th with pc := .top })
  | .task _ f .requeue =>
    .ok ((s.push (.fiber (some f)) (-1)).setThread t { th with pc := .top, cbFiber := none })
  | .idling =>
    if (s.heap th.idleFiber).state = .term then .ok (s.setThread t { th with pc := .exited })
    else .ok { s.setThread t { th with pc := .task .idle th.idleFiber .swapIn } with
      idleThreadCount := increment s.idleThreadCount }
  | .exited => .ok s

/-- What the code of a fiber may do with the fiber itself. -/
inductive Code where
  | yieldToReady
  | yieldToHold
  | swapOut
  | return
  | throw
  /-- It registers for an event, as `addEvent` does. -/
  | register
  deriving DecidableEq, Repr

/-- The fiber `f` that executes on thread `t`. An empty `m_cb` throws as soon as it is called. -/
def execute (s : System κ) (t : ThreadId) (th : Thread κ) (b : Branch) (f : FiberId) (code : Code) :
    System κ :=
  let fiber := s.heap f
  match code with
  | .throw =>
    (s.setState f .error).setThread t { th with pc := .task b f (.leave .finished) }
  | _ =>
    if fiber.cb.isNone then s
    else
      match code with
      | .yieldToReady => (s.setState f .ready).setThread t { th with pc := .task b f (.leave .suspended) }
      | .yieldToHold => (s.setState f .hold).setThread t { th with pc := .task b f (.leave .suspended) }
      | .swapOut => s.setThread t { th with pc := .task b f (.leave .suspended) }
      | .return =>
        (s.setFiber f { fiber with state := .term, cb := none }).setThread t
          { th with pc := .task b f (.leave .finished) }
      | .register => { s with registered := Function.update s.registered f true }
      | .throw => s

inductive Action (κ : Type) where
  /-- A thread enters `run` and makes its idle fiber. -/
  | start (t : ThreadId) (idle : κ)
  | run (t : ThreadId)
  | code (t : ThreadId) (code : Code)
  | create (cb : Option κ)
  | schedule (fc : FiberOrCb κ) (threadId : Int)
  | range (fcs : List (FiberOrCb κ))
  /-- An event is delivered, timed out or cancelled. -/
  | wake (f : FiberId)
  /-- `start` and `stop` write `m_autostop` and `m_stop`. -/
  | flags (autostop stop : Bool)

/-- Only fibers that have been constructed can be passed on. -/
def known (created : Nat) : FiberOrCb κ → Bool
  | .fiber (some f) => f < created
  | _ => true

/-- An action that is not possible does nothing. -/
def step (s : System κ) : Action κ → Except Fault (System κ)
  | .start t idle =>
    match s.threads t with
    | some _ => .ok s
    | none => .ok ((s.create (some idle)).setThread t ⟨.top, none, s.created⟩)
  | .run t =>
    match s.threads t with
    | none => .ok s
    | some th => s.advance t th
  | .code t code =>
    match s.threads t with
    | some ⟨.task b f .run, cbFiber, idleFiber⟩ =>
      .ok (s.execute t ⟨.task b f .run, cbFiber, idleFiber⟩ b f code)
    | _ => .ok s
  | .create cb => .ok (s.create cb)
  | .schedule fc threadId => if known s.created fc then .ok (s.push fc threadId) else .ok s
  | .range fcs =>
    if fcs.all (known s.created) then .ok { s with fibers := (scheduleRange false s.fibers fcs).2 } else .ok s
  | .wake f =>
    if s.registered f ∧ f < s.created then
      .ok { s.push (.fiber (some f)) (-1) with registered := Function.update s.registered f false }
    else .ok s
  | .flags autostop stop => .ok { s with autostop := autostop, stop := stop }

/-! ### The steps, case by case -/

/-- What an action from outside adds to the queue. -/
def pushes (s : System κ) : Action κ → List (FiberAndThread κ)
  | .schedule fc threadId =>
    if known s.created fc then [fc.andThread threadId].filter FiberAndThread.hasTask else []
  | .range fcs =>
    if fcs.all (known s.created) then (fcs.map (·.andThread (-1))).filter FiberAndThread.hasTask else []
  | .wake f => if s.registered f ∧ f < s.created then [{ fiber := some f }] else []
  | _ => []

/-- The thread's own step, or one that the code of its fiber makes. -/
def Action.of (t : ThreadId) : Option Code → Action κ
  | none => .run t
  | some made => .code t made

/-- The steps in a turn of the loop that concern its fiber alone. -/
inductive Moves (fiber : Fiber κ) (b : Branch) : Option Code → Phase → Phase → Fiber κ → Prop where
  | swapIn (idle : fiber.state ≠ .exec) : Moves fiber b none .swapIn .mark fiber
  | mark : Moves fiber b none .mark .switch { fiber with state := .exec }
  | switch (live : fiber.ctx ≠ .finished) : Moves fiber b none .switch .run fiber
  | yieldToReady (task : fiber.cb ≠ none) :
      Moves fiber b (some .yieldToReady) .run (.leave .suspended) { fiber with state := .ready }
  | yieldToHold (task : fiber.cb ≠ none) :
      Moves fiber b (some .yieldToHold) .run (.leave .suspended) { fiber with state := .hold }
  | swapOut (task : fiber.cb ≠ none) : Moves fiber b (some .swapOut) .run (.leave .suspended) fiber
  | return (task : fiber.cb ≠ none) :
      Moves fiber b (some .return) .run (.leave .finished) { fiber with state := .term, cb := none }
  | throw : Moves fiber b (some .throw) .run (.leave .finished) { fiber with state := .error }
  | leave {ctx} : Moves fiber b none (.leave ctx) .back { fiber with ctx := ctx }
  | ready (ready : fiber.state = .ready) : Moves fiber b none .check .requeue fiber
  | settle (other : fiber.state ≠ .ready) : Moves fiber b none .check .settle fiber
  | hold (term : fiber.state ≠ .term) (error : fiber.state ≠ .error) :
      Moves fiber b none .settle .hold fiber
  | recycle (callback : b = .cb) (ended : fiber.state = .term ∨ fiber.state = .error) :
      Moves fiber b none .settle .recycle fiber

/-- Every step, with what it found and the state it leaves. -/
inductive Stepped (s : System κ) : Action κ → System κ → Prop where
  | outside (a : Action κ) (registered : FiberId → Bool) :
      Stepped s a { s with fibers := s.fibers ++ s.pushes a, registered := registered }
  | flags (autostop stop : Bool) :
      Stepped s (.flags autostop stop) { s with autostop := autostop, stop := stop }
  | create (cb : Option κ) : Stepped s (.create cb) (s.create cb)
  | start {t : ThreadId} (idle : κ) (absent : s.threads t = none) :
      Stepped s (.start t idle) ((s.create (some idle)).setThread t ⟨.top, none, s.created⟩)
  | idling {t : ThreadId} {th : Thread κ} (here : s.threads t = some th) (at_pc : th.pc = .top)
      (none_eligible : ∀ it ∈ s.fibers, ¬ Eligible (fun f => (s.heap f).state) t it) :
      Stepped s (.run t) (s.setThread t { th with pc := .idling })
  | pick {t : ThreadId} {th : Thread κ} {ft : FiberAndThread κ} {before after : List (FiberAndThread κ)}
      (here : s.threads t = some th) (at_pc : th.pc = .top) (split : s.fibers = before ++ ft :: after)
      (eligible : Eligible (fun f => (s.heap f).state) t ft) :
      Stepped s (.run t) { s.setThread t { th with pc := .picked ft } with
        fibers := before ++ after, activeThreadCount := increment s.activeThreadCount }
  | resume {t : ThreadId} {th : Thread κ} {ft : FiberAndThread κ} {f : FiberId}
      (here : s.threads t = some th) (at_pc : th.pc = .picked ft) (fiber : ft.fiber = some f) :
      Stepped s (.run t) (s.setThread t { th with pc := .task .fiber f .swapIn })
  | reset {t : ThreadId} {th : Thread κ} {ft : FiberAndThread κ} {cb : κ} {f : FiberId}
      (here : s.threads t = some th) (at_pc : th.pc = .picked ft) (no_fiber : ft.fiber = none)
      (callback : ft.cb = some cb) (kept : th.cbFiber = some f) :
      Stepped s (.run t)
        ((s.setFiber f (Fiber.new (some cb))).setThread t { th with pc := .task .cb f .swapIn })
  | begin {t : ThreadId} {th : Thread κ} {ft : FiberAndThread κ} {cb : κ}
      (here : s.threads t = some th) (at_pc : th.pc = .picked ft) (no_fiber : ft.fiber = none)
      (callback : ft.cb = some cb) (kept : th.cbFiber = none) :
      Stepped s (.run t) ((s.create (some cb)).setThread t
        { th with pc := .task .cb s.created .swapIn, cbFiber := some s.created })
  | drop {t : ThreadId} {th : Thread κ} {ft : FiberAndThread κ} (here : s.threads t = some th)
      (at_pc : th.pc = .picked ft) (no_fiber : ft.fiber = none) :
      Stepped s (.run t) { s.setThread t { th with pc := .top } with
        activeThreadCount := decrement s.activeThreadCount }
  | move {t : ThreadId} {th : Thread κ} {b : Branch} {f : FiberId} {code : Option Code} {phase phase' : Phase}
      {fiber : Fiber κ} (here : s.threads t = some th) (at_pc : th.pc = .task b f phase)
      (moves : Moves (s.heap f) b code phase phase' fiber) :
      Stepped s (.of t code) ((s.setFiber f fiber).setThread t { th with pc := .task b f phase' })
  | backIdle {t : ThreadId} {th : Thread κ} {f : FiberId} (here : s.threads t = some th)
      (at_pc : th.pc = .task .idle f .back) :
      Stepped s (.run t) { s.setThread t { th with pc := .task .idle f .settle } with
        idleThreadCount := decrement s.idleThreadCount }
  | back {t : ThreadId} {th : Thread κ} {b : Branch} {f : FiberId} (here : s.threads t = some th)
      (at_pc : th.pc = .task b f .back) (active : b ≠ .idle) :
      Stepped s (.run t) { s.setThread t { th with pc := .task b f .check } with
        activeThreadCount := decrement s.activeThreadCount }
  | finish {t : ThreadId} {th : Thread κ} {b : Branch} {f : FiberId} (here : s.threads t = some th)
      (at_pc : th.pc = .task b f .settle) (other : b ≠ .cb)
      (ended : (s.heap f).state = .term ∨ (s.heap f).state = .error) :
      Stepped s (.run t) (s.setThread t { th with pc := .top })
  | hold {t : ThreadId} {th : Thread κ} {b : Branch} {f : FiberId} (here : s.threads t = some th)
      (at_pc : th.pc = .task b f .hold) :
      Stepped s (.run t) ((s.setState f .hold).setThread t
        { th with pc := .top, cbFiber := if b = .cb then none else th.cbFiber })
  | recycle {t : ThreadId} {th : Thread κ} {b : Branch} {f : FiberId} (here : s.threads t = some th)
      (at_pc : th.pc = .task b f .recycle) :
      Stepped s (.run t) ((s.setFiber f (Fiber.new none)).setThread t { th with pc := .top })
  | requeue {t : ThreadId} {th : Thread κ} {b : Branch} {f : FiberId} (here : s.threads t = some th)
      (at_pc : th.pc = .task b f .requeue) :
      Stepped s (.run t) { s.setThread t { th with pc := .top, cbFiber := none } with
        fibers := s.fibers ++ [{ fiber := some f }] }
  | exit {t : ThreadId} {th : Thread κ} (here : s.threads t = some th) (at_pc : th.pc = .idling)
      (ended : (s.heap th.idleFiber).state = .term) :
      Stepped s (.run t) (s.setThread t { th with pc := .exited })
  | rest {t : ThreadId} {th : Thread κ} (here : s.threads t = some th) (at_pc : th.pc = .idling)
      (live : (s.heap th.idleFiber).state ≠ .term) :
      Stepped s (.run t) { s.setThread t { th with pc := .task .idle th.idleFiber .swapIn } with
        idleThreadCount := increment s.idleThreadCount }

variable {s s' : System κ} {a : Action κ} {t : ThreadId} {th : Thread κ}

theorem Stepped.note (none_pushed : s.pushes a = []) (registered : FiberId → Bool) :
    Stepped s a { s with registered := registered } := by
  have outside := Stepped.outside (s := s) a registered
  rwa [none_pushed, List.append_nil] at outside

theorem Stepped.stay (none_pushed : s.pushes a = []) : Stepped s a s :=
  .note none_pushed s.registered

@[simp]
theorem setFiber_self (s : System κ) (f : FiberId) : s.setFiber f (s.heap f) = s := by
  rw [setFiber, Function.update_eq_self]

/-- A step that only reads the fiber it concerns. -/
theorem Stepped.read {b : Branch} {f : FiberId} {code : Option Code} {phase phase' : Phase}
    (here : s.threads t = some th) (at_pc : th.pc = .task b f phase)
    (moves : Moves (s.heap f) b code phase phase' (s.heap f)) :
    Stepped s (.of t code) (s.setThread t { th with pc := .task b f phase' }) := by
  have moved := Stepped.move here at_pc moves
  rwa [setFiber_self] at moved

theorem picked_stepped {ft : FiberAndThread κ} (here : s.threads t = some th) (pc : th.pc = .picked ft)
    (ok : s.advance t th = .ok s') : Stepped s (.run t) s' := by
  simp only [advance, pc] at ok
  split at ok
  · rename_i fiber
    cases ok
    exact .resume here pc fiber
  · rename_i no_fiber callback kept
    split at ok
    · cases ok
    · rename_i reset
      cases ok
      rw [Fiber.reset_some reset]
      exact .reset here pc no_fiber callback kept
  · rename_i no_fiber callback kept
    cases ok
    exact .begin here pc no_fiber callback kept
  · rename_i no_fiber _
    cases ok
    exact .drop here pc no_fiber

theorem turn_stepped {b : Branch} {f : FiberId} {phase : Phase} (here : s.threads t = some th)
    (pc : th.pc = .task b f phase) (ok : s.advance t th = .ok s') : Stepped s (.run t) s' := by
  cases phase with
  | swapIn =>
    simp only [advance, pc] at ok
    split at ok
    · cases ok
    · rename_i idle
      cases ok
      exact .read here pc (.swapIn idle)
  | mark =>
    simp only [advance, pc] at ok
    cases ok
    exact .move here pc .mark
  | switch =>
    simp only [advance, pc] at ok
    split at ok
    · cases ok
    · rename_i live
      cases ok
      exact .read here pc (.switch live)
  | run =>
    simp only [advance, pc] at ok
    cases ok
    exact .stay rfl
  | leave ctx =>
    simp only [advance, pc] at ok
    cases ok
    exact .move here pc .leave
  | back =>
    cases b with
    | idle =>
      simp only [advance, pc] at ok
      cases ok
      exact .backIdle here pc
    | fiber | cb =>
      simp only [advance, pc] at ok
      cases ok
      exact .back here pc (by decide)
  | check =>
    simp only [advance, pc] at ok
    split at ok
    · rename_i ready
      cases ok
      exact .read here pc (.ready ready)
    · rename_i other
      cases ok
      exact .read here pc (.settle other)
  | settle =>
    simp only [advance, pc] at ok
    split at ok
    · rename_i ended
      cases ok
      split
      · rename_i callback
        exact .read here pc (.recycle callback ended)
      · rename_i other
        exact .finish here pc other ended
    · rename_i live
      cases ok
      rw [not_or] at live
      exact .read here pc (.hold live.1 live.2)
  | hold =>
    simp only [advance, pc] at ok
    cases ok
    exact .hold here pc
  | recycle =>
    simp only [advance, pc] at ok
    split at ok
    · cases ok
    · rename_i reset
      cases ok
      rw [Fiber.reset_some reset]
      exact .recycle here pc
  | requeue =>
    simp only [advance, pc] at ok
    cases ok
    exact .requeue here pc

theorem advance_stepped (here : s.threads t = some th) (ok : s.advance t th = .ok s') :
    Stepped s (.run t) s' := by
  cases pc : th.pc with
  | top =>
    simp only [advance, pc] at ok
    split at ok
    · cases ok
    · rename_i picked
      cases ok
      exact .idling here pc (pick_none picked)
    · rename_i picked
      cases ok
      obtain ⟨before, after, split, rfl, eligible⟩ := pick_some picked
      exact .pick here pc split eligible
  | picked ft => exact picked_stepped here pc ok
  | task b f phase => exact turn_stepped here pc ok
  | idling =>
    simp only [advance, pc] at ok
    split at ok
    · rename_i ended
      cases ok
      exact .exit here pc ended
    · rename_i live
      cases ok
      exact .rest here pc live
  | exited =>
    simp only [advance, pc] at ok
    cases ok
    exact .stay rfl

theorem execute_stepped {b : Branch} {f : FiberId} {code : Code} (here : s.threads t = some th)
    (pc : th.pc = .task b f .run) : Stepped s (.code t code) (s.execute t th b f code) := by
  cases code with
  | throw => exact .move here pc .throw
  | _ =>
    unfold execute
    dsimp only
    split
    · exact .stay rfl
    · rename_i called
      have task : (s.heap f).cb ≠ none := by
        simpa [Option.isNone_iff_eq_none] using called
      first
      | exact .move here pc (.yieldToReady task)
      | exact .move here pc (.yieldToHold task)
      | exact .read here pc (.swapOut task)
      | exact .move here pc (.return task)
      | exact .note rfl _

theorem step_stepped (ok : s.step a = .ok s') : Stepped s a s' := by
  unfold step at ok
  split at ok
  · split at ok
    · cases ok
      exact .stay rfl
    · rename_i absent
      cases ok
      exact .start _ absent
  · split at ok
    · cases ok
      exact .stay rfl
    · rename_i here
      exact advance_stepped here ok
  · split at ok
    · rename_i here
      cases ok
      exact execute_stepped here rfl
    · cases ok
      exact .stay rfl
  · cases ok
    exact .create _
  · rename_i fc threadId
    split at ok
    · rename_i known
      cases ok
      have outside := Stepped.outside (s := s) (.schedule fc threadId) s.registered
      rwa [pushes, if_pos known, ← scheduleNoLock_eq] at outside
    · rename_i unknown
      cases ok
      exact .stay (if_neg unknown)
  · rename_i fcs
    split at ok
    · rename_i known
      cases ok
      have outside := Stepped.outside (s := s) (.range fcs) s.registered
      rwa [pushes, if_pos known, ← scheduleRange_eq false] at outside
    · rename_i unknown
      cases ok
      exact .stay (if_neg unknown)
  · rename_i f
    split at ok
    · rename_i registered
      cases ok
      have outside := Stepped.outside (s := s) (.wake f) (Function.update s.registered f false)
      rwa [pushes, if_pos registered] at outside
    · rename_i quiet
      cases ok
      exact .stay (if_neg quiet)
  · cases ok
    exact .flags _ _

/-! ### Fibers that are referred to -/

variable {u : ThreadId} {f : FiberId}

def Owns (s : System κ) (t : ThreadId) (f : FiberId) : Prop :=
  ∃ th, s.threads t = some th ∧ th.Owns f

def queued (s : System κ) : List FiberId := s.fibers.filterMap FiberAndThread.fiber

/-- The thread has entered the context of the fiber and has not finished saving it. -/
def Executing (s : System κ) (t : ThreadId) (f : FiberId) : Prop :=
  ∃ th b phase, s.threads t = some th ∧ th.pc = .task b f phase ∧
    (phase = .run ∨ ∃ ctx, phase = .leave ctx)

theorem owns_update {old : System κ} (threads : s.threads = Function.update old.threads t (some th)) :
    s.Owns u f ↔ u = t ∧ th.Owns f ∨ u ≠ t ∧ old.Owns u f := by
  unfold Owns
  rw [threads]
  by_cases same : u = t
  · subst same
    simp
  · simp [same]

/-- What holds of every thread, when only one of them has changed. -/
theorem threads_update {P : ThreadId → Thread κ → Prop}
    (threads : s'.threads = Function.update s.threads t (some th)) (own : P t th)
    (others : ∀ u uh, s.threads u = some uh → P u uh) : ∀ u uh, s'.threads u = some uh → P u uh := by
  intro u uh here
  rw [threads] at here
  by_cases same : u = t
  · rw [same, Function.update_self] at here
    cases here
    exact same ▸ own
  · rw [Function.update_of_ne same] at here
    exact others u uh here

theorem Thread.Owns.of_pc {pc : Pc κ} (owns : ({ th with pc := pc } : Thread κ).Owns f) :
    pc.fiber = some f ∨ th.Owns f := by
  rcases owns with taken | owns
  · exact .inl taken
  · exact .inr (.inr owns)

/-- At the end of a turn the thread keeps a callback's fiber at most, and its idle fiber. -/
theorem Thread.Owns.of_top {cbFiber : Option FiberId}
    (owns : ({ th with pc := .top, cbFiber := cbFiber } : Thread κ).Owns f) :
    cbFiber = some f ∨ th.idleFiber = f := by
  rcases owns with taken | owns
  · cases taken
  · exact owns

theorem kept_of_hold {b : Branch} {cbFiber : Option FiberId}
    (kept : (if b = .cb then none else cbFiber) = some f) : b ≠ .cb ∧ cbFiber = some f := by
  split at kept
  · cases kept
  · rename_i other
    exact ⟨other, kept⟩

theorem pushes_known {ft : FiberAndThread κ} (member : ft ∈ s.pushes a) (fiber : ft.fiber = some f) :
    f < s.created := by
  have of_known (fc : FiberOrCb κ) (threadId : Int) (known : System.known s.created fc = true)
      (same : ft = fc.andThread threadId) : f < s.created := by
    subst same
    cases fc with
    | fiber g =>
      cases fiber
      simpa [System.known] using known
    | cb cb => cases fiber
  unfold pushes at member
  split at member
  · split at member
    · rename_i fc threadId known
      exact of_known fc threadId known (List.mem_singleton.mp (List.mem_of_mem_filter member))
    · cases member
  · split at member
    · rename_i fcs known
      obtain ⟨fc, among, same⟩ := List.mem_map.mp (List.mem_of_mem_filter member)
      exact of_known fc (-1) (List.all_eq_true.mp known fc among) same.symm
    · cases member
  · split at member
    · rename_i registered
      cases List.mem_singleton.mp member
      cases fiber
      exact registered.2
    · cases member
  · cases member

theorem Executing.owns (executing : s.Executing t f) : s.Owns t f := by
  obtain ⟨th, b, phase, here, at_pc, -⟩ := executing
  exact ⟨th, here, .inl (by rw [at_pc]; rfl)⟩

/-- A fiber that is queued, or that a thread has in one of its locals. -/
def Refers (s : System κ) (f : FiberId) : Prop := f ∈ s.queued ∨ ∃ t, s.Owns t f

def Known (s : System κ) : Prop := ∀ f, s.Refers f → f < s.created

theorem Known.update (known : Known s) (threads : s'.threads = Function.update s.threads t (some th))
    (created : s.created ≤ s'.created) (queued : ∀ f ∈ s'.queued, s.Refers f)
    (owns : ∀ f, th.Owns f → s.Refers f ∨ f < s'.created) : Known s' := by
  rintro f (member | ⟨u, owned⟩)
  · exact (known f (queued f member)).trans_le created
  · rcases (owns_update threads).mp owned with ⟨-, owned⟩ | ⟨-, owned⟩
    · exact (owns f owned).elim (fun refers => (known f refers).trans_le created) id
    · exact (known f (.inr ⟨u, owned⟩)).trans_le created

theorem Known.go_on {pc : Pc κ} (known : Known s) (here : s.threads t = some th)
    (taken : pc.fiber = none ∨ pc.fiber = th.pc.fiber)
    (threads : s'.threads = Function.update s.threads t (some { th with pc := pc }))
    (fibers : s'.fibers = s.fibers) (created : s'.created = s.created) : Known s' := by
  refine known.update threads created.ge (fun f member => .inl ?_) fun f owns => .inl (.inr ⟨t, th, here, ?_⟩)
  · rwa [queued, fibers] at member
  · rcases Thread.Owns.of_pc owns with now | owns
    · rcases taken with none_taken | same
      · cases none_taken.symm.trans now
      · exact .inl (same.symm.trans now)
    · exact owns

theorem Known.step (known : Known s) (step : Stepped s a s') : Known s' := by
  cases step with
  | outside a registered =>
    rintro f (member | owned)
    · obtain ⟨ft, member, fiber⟩ := List.mem_filterMap.mp member
      rcases List.mem_append.mp member with before | pushed
      · exact known f (.inl (List.mem_filterMap.mpr ⟨ft, before, fiber⟩))
      · exact pushes_known (s := s) pushed fiber
    · exact known f (.inr owned)
  | flags autostop stop => exact known
  | create cb => exact fun f refers => (known f refers).trans (Nat.lt_succ_self _)
  | start idle absent =>
    refine known.update rfl (Nat.le_succ _) (fun f => .inl) ?_
    rintro f (taken | kept | idle)
    · cases taken
    · cases kept
    · exact .inr (idle ▸ Nat.lt_succ_self _)
  | idling here at_pc none_eligible => exact known.go_on here (.inl rfl) rfl rfl rfl
  | @pick t th ft before after here at_pc split eligible =>
    have among {g : FiberId} {it : FiberAndThread κ} (member : it ∈ s.fibers) (fiber : it.fiber = some g) :
        s.Refers g := .inl (List.mem_filterMap.mpr ⟨it, member, fiber⟩)
    refine known.update rfl le_rfl (fun f member => ?_) fun f owns => .inl ?_
    · obtain ⟨it, member, fiber⟩ := List.mem_filterMap.mp member
      exact among (mem_of_rest split member) fiber
    · rcases Thread.Owns.of_pc owns with taken | owns
      · exact among (split ▸ List.mem_append_cons_self) taken
      · exact .inr ⟨t, th, here, owns⟩
  | resume here at_pc fiber =>
    exact known.go_on here (.inr (by rw [at_pc]; exact fiber.symm)) rfl rfl rfl
  | reset here at_pc no_fiber callback kept =>
    refine known.update rfl le_rfl (fun f => .inl) fun f owns => .inl (.inr ⟨_, _, here, ?_⟩)
    exact (Thread.Owns.of_pc owns).elim (fun taken => .inr (.inl (kept.trans taken))) id
  | begin here at_pc no_fiber callback kept =>
    refine known.update rfl (Nat.le_succ _) (fun f => .inl) ?_
    rintro f (taken | made | idle)
    · exact .inr (Option.some.inj taken ▸ Nat.lt_succ_self _)
    · exact .inr (Option.some.inj made ▸ Nat.lt_succ_self _)
    · exact .inl (.inr ⟨_, _, here, .inr (.inr idle)⟩)
  | drop here at_pc no_fiber => exact known.go_on here (.inl rfl) rfl rfl rfl
  | move here at_pc moves => exact known.go_on here (.inr (by rw [at_pc]; rfl)) rfl rfl rfl
  | backIdle here at_pc => exact known.go_on here (.inr (by rw [at_pc]; rfl)) rfl rfl rfl
  | back here at_pc active => exact known.go_on here (.inr (by rw [at_pc]; rfl)) rfl rfl rfl
  | finish here at_pc other ended => exact known.go_on here (.inl rfl) rfl rfl rfl
  | hold here at_pc =>
    refine known.update rfl le_rfl (fun f => .inl) fun f owns => .inl (.inr ⟨_, _, here, ?_⟩)
    rcases Thread.Owns.of_top owns with kept | idle
    · exact .inr (.inl (kept_of_hold kept).2)
    · exact .inr (.inr idle)
  | recycle here at_pc => exact known.go_on here (.inl rfl) rfl rfl rfl
  | @requeue t th b f here at_pc =>
    refine known.update rfl le_rfl (fun g member => ?_) fun g owns => .inl (.inr ⟨t, th, here, ?_⟩)
    · obtain ⟨it, member, fiber⟩ := List.mem_filterMap.mp member
      rcases List.mem_append.mp member with before | last
      · exact .inl (List.mem_filterMap.mpr ⟨it, before, fiber⟩)
      · cases List.mem_singleton.mp last
        exact .inr ⟨t, th, here, .inl (by rw [at_pc]; exact fiber)⟩
    · rcases Thread.Owns.of_top owns with kept | idle
      · cases kept
      · exact .inr (.inr idle)
  | exit here at_pc ended => exact known.go_on here (.inl rfl) rfl rfl rfl
  | rest here at_pc live =>
    refine known.update rfl le_rfl (fun f => .inl) fun f owns => .inl (.inr ⟨_, _, here, ?_⟩)
    exact (Thread.Owns.of_pc owns).elim (fun taken => .inr (.inr (Option.some.inj taken))) id

theorem Known.new : Known (System.new : System κ) := by
  rintro f (member | ⟨t, th, here, -⟩)
  · cases member
  · cases here

end System

end Scheduler

end Cool
