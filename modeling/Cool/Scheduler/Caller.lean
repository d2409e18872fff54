import Cool.Scheduler.Machine

/-!
# `stop` on the thread of the caller

A scheduler that uses its caller and has no thread of its own does all its work in `stop`: that enters
`run`, which comes back when the idle fiber has ended. The callbacks are programs here. Between two
switches a program schedules callbacks, and then it returns, throws or yields; nothing else runs
meanwhile. `Rounds` is what is expected of `stop`: a queue of programs that take turns.
-/

namespace Cool.Scheduler

open Foundation

open IOManager (increment decrement)

variable {κ : Type}

/-- How a program gives up the thread. `again` schedules its own fiber and then yields. -/
inductive Exit (κ : Type) where
  | returns
  | throws
  | hold
  | ready (rest : κ)
  | again (threadId : Int) (rest : κ)

namespace Exit

def actions (t : ThreadId) (f : FiberId) : Exit κ → List (System.Action κ)
  | .returns => [.code t .return]
  | .throws => [.code t .throw]
  | .hold => [.code t .yieldToHold]
  | .ready _ => [.code t .yieldToReady]
  | .again threadId _ => [.schedule (.fiber (some f)) threadId, .code t .yieldToHold]

def rest : Exit κ → Option κ
  | .returns | .throws | .hold => none
  | .ready rest => some rest
  | .again _ rest => some rest

/-- What the switch out of the fiber finds. -/
def fiber (fiber : Fiber κ) : Exit κ → Fiber κ
  | .returns => { fiber with state := .term, cb := none }
  | .throws => { fiber with state := .error }
  | .ready _ => { fiber with state := .ready }
  | .hold => { fiber with state := .hold }
  | .again _ _ => { fiber with state := .hold }

def ctx : Exit κ → Fiber.Context
  | .returns | .throws => .finished
  | .ready _ | .hold | .again _ _ => .suspended

def pushed (f : FiberId) : Exit κ → List (FiberAndThread κ)
  | .returns | .throws | .hold | .ready _ => []
  | .again threadId _ => [{ fiber := some f, threadId := threadId }]

def requeued : Exit κ → List (Int × κ)
  | .returns | .throws | .hold => []
  | .ready rest => [(-1, rest)]
  | .again threadId rest => [(threadId, rest)]

end Exit

/-- What a program does up to its next switch. -/
abbrev Segment (κ : Type) := κ → List (Int × κ) × Exit κ

/-- `rest` is where the program of a suspended fiber goes on, and `ran` what has run so far. -/
structure Caller (κ : Type) where
  sys : System κ
  rest : FiberId → κ
  ran : List κ

namespace Caller

/-- The program that a switch into the fiber continues. -/
def current (s : System κ) (rest : FiberId → κ) (f : FiberId) : κ :=
  match (s.heap f).ctx, (s.heap f).cb with
  | .start, some cb => cb
  | _, _ => rest f

def spawn (e : Int × κ) : System.Action κ := .schedule (.cb (some e.2)) e.1

/-- One step of the thread. The idle fiber runs `while (!stopping()) YieldToHold()`. -/
def drive (segment : Segment κ) (t : ThreadId) (d : Caller κ) : Except Fault (Caller κ) :=
  match d.sys.threads t with
  | some ⟨.task .idle _ .run, _, _⟩ =>
    (d.sys.step (.code t (if d.sys.stopping then .return else .yieldToHold))).map fun sys => { d with sys := sys }
  | some ⟨.task _ f .run, _, _⟩ =>
    let k := current d.sys d.rest f
    (((segment k).1.map spawn ++ (segment k).2.actions t f).foldlM System.step d.sys).map fun sys =>
      ⟨sys, (segment k).2.rest.elim d.rest (Function.update d.rest f), d.ran ++ [k]⟩
  | _ => (d.sys.step (.run t)).map fun sys => { d with sys := sys }

/-- The tasks are scheduled, `stop` sets `m_autostop` and `m_stop`, and the root fiber enters `run`. With
nothing to do, `stop` returns before that. -/
def entered (t : ThreadId) (idle : κ) (tasks : List (Int × κ)) : Except Fault (Caller κ) :=
  let actions : List (System.Action κ) := tasks.map spawn ++ [.flags true true, .start t idle]
  (actions.foldlM System.step System.new).map fun sys => ⟨sys, fun _ => idle, []⟩

def Exited (t : ThreadId) (d : Caller κ) : Prop := (d.sys.threads t).map (·.pc) = some .exited

def Step (segment : Segment κ) (t : ThreadId) (d d' : Caller κ) : Prop := ¬ d.Exited t ∧ drive segment t d = .ok d'

abbrev Steps (segment : Segment κ) (t : ThreadId) : Caller κ → Caller κ → Prop := Relation.ReflTransGen (Step segment t)

/-! ### Programs that take turns -/

def foreign (t : ThreadId) (e : Int × κ) : Bool := e.1 ≠ -1 && e.1 ≠ t.val

/-- The first program that is not for another thread runs up to its next switch; what it schedules, and
the program itself when it is to go on, is put behind the others. -/
inductive Rounds (segment : Segment κ) (t : ThreadId) : List (Int × κ) → List κ → List (Int × κ) → Prop where
  | rest {queue : List (Int × κ)} (none_here : ∀ e ∈ queue, foreign t e = true) : Rounds segment t queue [] queue
  | turn {before after left : List (Int × κ)} {e : Int × κ} {ran : List κ} (passed : ∀ e ∈ before, foreign t e = true)
      (here : foreign t e = false)
      (rounds : Rounds segment t (before ++ after ++ (segment e.2).1 ++ (segment e.2).2.requeued) ran left) :
      Rounds segment t (before ++ e :: after) (e.2 :: ran) left

/-! ### The steps of a turn -/

variable {segment : Segment κ} {t : ThreadId} {s : System κ} {pc : Pc κ} {c : Option FiberId} {i f : FiberId}
  {b : Branch} {rest : FiberId → κ} {ran : List κ}

/-- The state with the locals of `run`. -/
def on (t : ThreadId) (s : System κ) (pc : Pc κ) (c : Option FiberId) (i : FiberId) (rest : FiberId → κ) (ran : List κ) :
    Caller κ :=
  ⟨s.setThread t ⟨pc, c, i⟩, rest, ran⟩

theorem threads_on : (on t s pc c i rest ran).sys.threads t = some ⟨pc, c, i⟩ := Function.update_self ..

theorem setThread_idem (th th' : Thread κ) : (s.setThread t th).setThread t th' = s.setThread t th' := by
  unfold System.setThread
  dsimp only
  rw [Function.update_idem]

/-- A step of the thread itself, with what it changes beside its locals. -/
theorem drive_on {s' : System κ} {pc' : Pc κ} {c' : Option FiberId} (quiet : ∀ b f, pc ≠ .task b f .run)
    (advanced : (s.setThread t ⟨pc, c, i⟩).advance t ⟨pc, c, i⟩ =
      .ok ((s'.setThread t ⟨pc, c, i⟩).setThread t ⟨pc', c', i⟩)) :
    drive segment t (on t s pc c i rest ran) = .ok (on t s' pc' c' i rest ran) := by
  have stepped : (s.setThread t ⟨pc, c, i⟩).step (.run t) = .ok (s'.setThread t ⟨pc', c', i⟩) := by
    have there : (s.setThread t ⟨pc, c, i⟩).threads t = some ⟨pc, c, i⟩ := Function.update_self ..
    rw [setThread_idem] at advanced
    unfold System.step
    dsimp only
    rw [there]
    exact advanced
  have other : drive segment t (on t s pc c i rest ran) =
      ((s.setThread t ⟨pc, c, i⟩).step (.run t)).map fun sys => ⟨sys, rest, ran⟩ := by
    unfold drive
    rw [threads_on]
    cases pc with
    | task b f phase =>
      cases phase with
      | run => exact absurd rfl (quiet b f)
      | _ => cases b <;> rfl
    | _ => rfl
  rw [other, stepped]
  rfl

theorem drive_swapIn (resting : (s.heap f).state ≠ .exec) :
    drive segment t (on t s (.task b f .swapIn) c i rest ran) = .ok (on t s (.task b f .mark) c i rest ran) :=
  drive_on (by simp) (if_neg resting)

theorem drive_mark : drive segment t (on t s (.task b f .mark) c i rest ran) =
    .ok (on t (s.setState f .exec) (.task b f .switch) c i rest ran) :=
  drive_on (by simp) rfl

theorem drive_switch (live : (s.heap f).ctx ≠ .finished) :
    drive segment t (on t s (.task b f .switch) c i rest ran) = .ok (on t s (.task b f .run) c i rest ran) :=
  drive_on (by simp) (if_neg live)

theorem drive_leave {ctx : Fiber.Context} : drive segment t (on t s (.task b f (.leave ctx)) c i rest ran) =
    .ok (on t (s.setFiber f { s.heap f with ctx := ctx }) (.task b f .back) c i rest ran) :=
  drive_on (by simp) rfl

/-- The counters stand beside the locals. -/
theorem setThread_active (s : System κ) (th th' : Thread κ) (fibers : List (FiberAndThread κ)) (n : Nat) :
    ({ (s.setThread t th).setThread t th' with fibers := fibers, activeThreadCount := n } : System κ) =
      ({ s with fibers := fibers, activeThreadCount := n }.setThread t th).setThread t th' := rfl

theorem setThread_idle (s : System κ) (th th' : Thread κ) (n : Nat) :
    ({ (s.setThread t th).setThread t th' with idleThreadCount := n } : System κ) =
      ({ s with idleThreadCount := n }.setThread t th).setThread t th' := rfl

theorem drive_back (task : b ≠ .idle) : drive segment t (on t s (.task b f .back) c i rest ran) =
    .ok (on t { s with activeThreadCount := decrement s.activeThreadCount } (.task b f .check) c i rest ran) := by
  have count : (s.setThread t ⟨.task b f .back, c, i⟩).activeThreadCount = s.activeThreadCount := rfl
  refine drive_on (by simp) ?_
  unfold System.advance
  cases b with
  | idle => exact absurd rfl task
  | fiber | cb =>
    dsimp only
    rw [count]
    exact congrArg Except.ok (setThread_active s _ _ s.fibers _)

theorem drive_back_idle : drive segment t (on t s (.task .idle f .back) c i rest ran) =
    .ok (on t { s with idleThreadCount := decrement s.idleThreadCount } (.task .idle f .settle) c i rest ran) := by
  have count : (s.setThread t ⟨.task .idle f .back, c, i⟩).idleThreadCount = s.idleThreadCount := rfl
  refine drive_on (by simp) ?_
  unfold System.advance
  dsimp only
  rw [count]
  exact congrArg Except.ok (setThread_idle s _ _ _)

theorem drive_ready (ready : (s.heap f).state = .ready) : drive segment t (on t s (.task b f .check) c i rest ran) =
    .ok (on t s (.task b f .requeue) c i rest ran) :=
  drive_on (by simp) (if_pos ready)

theorem drive_check (other : (s.heap f).state ≠ .ready) : drive segment t (on t s (.task b f .check) c i rest ran) =
    .ok (on t s (.task b f .settle) c i rest ran) :=
  drive_on (by simp) (if_neg other)

theorem drive_ended (ended : (s.heap f).state = .term ∨ (s.heap f).state = .error) :
    drive segment t (on t s (.task b f .settle) c i rest ran) =
      .ok (on t s (if b = .cb then .task b f .recycle else .top) c i rest ran) :=
  drive_on (by simp) (if_pos ended)

theorem drive_settle (live : ¬ ((s.heap f).state = .term ∨ (s.heap f).state = .error)) :
    drive segment t (on t s (.task b f .settle) c i rest ran) = .ok (on t s (.task b f .hold) c i rest ran) :=
  drive_on (by simp) (if_neg live)

theorem drive_hold : drive segment t (on t s (.task b f .hold) c i rest ran) =
    .ok (on t (s.setState f .hold) .top (if b = .cb then none else c) i rest ran) :=
  drive_on (by simp) rfl

theorem drive_recycle (ended : (s.heap f).state = .term ∨ (s.heap f).state = .error) :
    drive segment t (on t s (.task b f .recycle) c i rest ran) =
      .ok (on t (s.setFiber f (Fiber.new none)) .top c i rest ran) := by
  have reset : ((s.setThread t ⟨.task b f .recycle, c, i⟩).heap f).reset none = some (Fiber.new none) :=
    if_pos (ended.imp_right .inr)
  refine drive_on (by simp) ?_
  unfold System.advance
  dsimp only
  rw [reset]
  rfl

theorem drive_requeue : drive segment t (on t s (.task b f .requeue) c i rest ran) =
    .ok (on t { s with fibers := s.fibers ++ [{ fiber := some f }] } .top none i rest ran) :=
  drive_on (by simp) rfl

theorem drive_idling (live : (s.heap i).state ≠ .term) : drive segment t (on t s .idling c i rest ran) =
    .ok (on t { s with idleThreadCount := increment s.idleThreadCount } (.task .idle i .swapIn) c i rest ran) := by
  have count : (s.setThread t ⟨.idling, c, i⟩).idleThreadCount = s.idleThreadCount := rfl
  refine drive_on (by simp) ?_
  unfold System.advance
  dsimp only
  rw [count]
  exact (if_neg live).trans (congrArg Except.ok (setThread_idle s _ _ _))

theorem drive_exit (ended : (s.heap i).state = .term) : drive segment t (on t s .idling c i rest ran) =
    .ok (on t s .exited c i rest ran) :=
  drive_on (by simp) (if_pos ended)

theorem drive_resume {ft : FiberAndThread κ} (fiber : ft.fiber = some f) :
    drive segment t (on t s (.picked ft) c i rest ran) = .ok (on t s (.task .fiber f .swapIn) c i rest ran) := by
  refine drive_on (by simp) ?_
  unfold System.advance
  dsimp only
  rw [fiber]

theorem drive_begin {k : κ} {threadId : Int} :
    drive segment t (on t s (.picked ⟨none, some k, threadId⟩) none i rest ran) =
      .ok (on t (s.create (some k)) (.task .cb s.created .swapIn) (some s.created) i rest ran) :=
  drive_on (by simp) rfl

theorem drive_reset {k : κ} {threadId : Int} (recycled : s.heap f = Fiber.new none) :
    drive segment t (on t s (.picked ⟨none, some k, threadId⟩) (some f) i rest ran) =
      .ok (on t (s.setFiber f (Fiber.new (some k))) (.task .cb f .swapIn) (some f) i rest ran) := by
  have reset : ((s.setThread t ⟨.picked ⟨none, some k, threadId⟩, some f, i⟩).heap f).reset (some k) =
      some (Fiber.new (some k)) := by
    change (s.heap f).reset (some k) = _
    rw [recycled]
    rfl
  refine drive_on (by simp) ?_
  unfold System.advance
  dsimp only
  rw [reset]
  rfl

/-! ### The queue -/

theorem locate_foreign {state : FiberId → Fiber.State} {fibers : List (FiberAndThread κ)}
    (all : ∀ it ∈ fibers, it.threadId ≠ -1 ∧ it.threadId ≠ t.val) : ∃ tickle, locate state t fibers = .ok (tickle, none) := by
  induction fibers with
  | nil => exact ⟨false, rfl⟩
  | cons it fibers ih =>
    obtain ⟨tickle, found⟩ := ih fun it member => all it (List.mem_cons_of_mem _ member)
    refine ⟨true, ?_⟩
    unfold locate
    rw [if_pos (all it List.mem_cons_self), found]
    rfl

theorem locate_first {state : FiberId → Fiber.State} {before after : List (FiberAndThread κ)} {ft : FiberAndThread κ}
    (passed : ∀ it ∈ before, it.threadId ≠ -1 ∧ it.threadId ≠ t.val)
    (here : ¬ (ft.threadId ≠ -1 ∧ ft.threadId ≠ t.val)) (task : ft.hasTask = true)
    (resting : ft.fiber.any (fun f => state f == .exec) = false) :
    ∃ tickle, locate state t (before ++ ft :: after) = .ok (tickle, some before.length) := by
  induction before with
  | nil =>
    refine ⟨false, ?_⟩
    rw [List.nil_append]
    unfold locate
    rw [if_neg here, task, resting]
    rfl
  | cons it before ih =>
    obtain ⟨tickle, found⟩ := ih fun it member => passed it (List.mem_cons_of_mem _ member)
    refine ⟨true, ?_⟩
    rw [List.cons_append]
    unfold locate
    rw [if_pos (passed it List.mem_cons_self), found]
    rfl

theorem drive_pick {before after : List (FiberAndThread κ)} {ft : FiberAndThread κ} (split : s.fibers = before ++ ft :: after)
    (passed : ∀ it ∈ before, it.threadId ≠ -1 ∧ it.threadId ≠ t.val)
    (here : ¬ (ft.threadId ≠ -1 ∧ ft.threadId ≠ t.val)) (task : ft.hasTask = true)
    (resting : ft.fiber.any (fun f => (s.heap f).state == .exec) = false) :
    drive segment t (on t s .top c i rest ran) =
      .ok (on t { s with fibers := before ++ after, activeThreadCount := increment s.activeThreadCount } (.picked ft) c i rest
        ran) := by
  obtain ⟨tickle, found⟩ : ∃ tickle, locate (fun f => (s.heap f).state) t (before ++ ft :: after) =
      .ok (tickle, some before.length) := locate_first passed here task resting
  have picked : pick (fun f => ((s.setThread t ⟨.top, c, i⟩).heap f).state) t (s.setThread t ⟨.top, c, i⟩).fibers =
      .ok (tickle, some ft, before ++ after) := by
    change pick (fun f => (s.heap f).state) t s.fibers = _
    unfold pick
    rw [split, found]
    simp [List.eraseIdx_append_of_length_le]
  have count : (s.setThread t ⟨.top, c, i⟩).activeThreadCount = s.activeThreadCount := rfl
  refine drive_on (by simp) ?_
  unfold System.advance
  dsimp only
  rw [picked]
  dsimp only
  rw [count]
  exact congrArg Except.ok (setThread_active s _ _ _ _)

theorem drive_none (all : ∀ it ∈ s.fibers, it.threadId ≠ -1 ∧ it.threadId ≠ t.val) :
    drive segment t (on t s .top c i rest ran) = .ok (on t s .idling c i rest ran) := by
  obtain ⟨tickle, found⟩ : ∃ tickle, locate (fun f => (s.heap f).state) t s.fibers = .ok (tickle, none) :=
    locate_foreign all
  have picked : pick (fun f => ((s.setThread t ⟨.top, c, i⟩).heap f).state) t (s.setThread t ⟨.top, c, i⟩).fibers =
      .ok (tickle, none, s.fibers) := by
    change pick (fun f => (s.heap f).state) t s.fibers = _
    unfold pick
    rw [found]
  refine drive_on (by simp) ?_
  unfold System.advance
  dsimp only
  rw [picked]

/-! ### Programs -/

def entry (e : Int × κ) : FiberAndThread κ := { cb := some e.2, threadId := e.1 }

theorem foldlM_spawn (spawned : List (Int × κ)) (actions : List (System.Action κ)) :
    (spawned.map spawn ++ actions).foldlM System.step s =
      actions.foldlM System.step { s with fibers := s.fibers ++ spawned.map entry } := by
  induction spawned generalizing s with
  | nil => simp
  | cons e spawned ih =>
    have first : s.step (spawn e) = .ok { s with fibers := s.fibers ++ [entry e] } := rfl
    rw [List.map_cons, List.cons_append, List.foldlM_cons, first]
    change (spawned.map spawn ++ actions).foldlM System.step { s with fibers := s.fibers ++ [entry e] } = _
    rw [ih]
    simp

theorem step_code {s' : System κ} {made : System.Code}
    (executed : (s.setThread t ⟨.task b f .run, c, i⟩).execute t ⟨.task b f .run, c, i⟩ b f made =
      (s'.setThread t ⟨.task b f .run, c, i⟩).setThread t ⟨pc, c, i⟩) :
    (s.setThread t ⟨.task b f .run, c, i⟩).step (.code t made) = .ok (s'.setThread t ⟨pc, c, i⟩) := by
  have there : (s.setThread t ⟨.task b f .run, c, i⟩).threads t = some ⟨.task b f .run, c, i⟩ := Function.update_self ..
  rw [setThread_idem] at executed
  unfold System.step
  dsimp only
  rw [there]
  exact congrArg Except.ok executed

/-- The switch out of a fiber, as its code makes it. -/
theorem step_exit (exit : Exit κ) (task : (s.heap f).cb.isNone = false) (known : f < s.created) :
    (exit.actions t f).foldlM System.step (s.setThread t ⟨.task b f .run, c, i⟩) =
      .ok (({ s with fibers := s.fibers ++ exit.pushed f }.setFiber f (exit.fiber (s.heap f))).setThread t
        ⟨.task b f (.leave exit.ctx), c, i⟩) := by
  have code {s s' : System κ} {pc : Pc κ} {made : System.Code}
      (executed : (s.setThread t ⟨.task b f .run, c, i⟩).execute t ⟨.task b f .run, c, i⟩ b f made =
        (s'.setThread t ⟨.task b f .run, c, i⟩).setThread t ⟨pc, c, i⟩) :
      [System.Action.code t made].foldlM System.step (s.setThread t ⟨.task b f .run, c, i⟩) =
        .ok (s'.setThread t ⟨pc, c, i⟩) := by
    rw [List.foldlM_cons, step_code executed]
    rfl
  have live : ¬ (s.heap f).cb.isNone = true := by simp [task]
  cases exit with
  | returns =>
    simp only [Exit.pushed, List.append_nil]
    exact code (if_neg live)
  | throws =>
    simp only [Exit.pushed, List.append_nil]
    exact code rfl
  | hold =>
    simp only [Exit.pushed, List.append_nil]
    exact code (if_neg live)
  | ready rest =>
    simp only [Exit.pushed, List.append_nil]
    exact code (if_neg live)
  | again threadId rest =>
    have queued : (s.setThread t ⟨.task b f .run, c, i⟩).step (.schedule (.fiber (some f)) threadId) =
        .ok (({ s with fibers := s.fibers ++ [{ fiber := some f, threadId := threadId }] } : System κ).setThread t
          ⟨.task b f .run, c, i⟩) := if_pos (decide_eq_true known)
    rw [Exit.actions, List.foldlM_cons, queued]
    exact code (if_neg live)

theorem drive_run (task : (s.heap f).cb.isNone = false) (known : f < s.created) (busy : b ≠ .idle) {k : κ}
    (program : current s rest f = k) :
    drive segment t (on t s (.task b f .run) c i rest ran) =
      .ok (on t ({ s with fibers := s.fibers ++ (segment k).1.map entry ++ (segment k).2.pushed f }.setFiber f
          ((segment k).2.fiber (s.heap f))) (.task b f (.leave (segment k).2.ctx)) c i
        ((segment k).2.rest.elim rest (Function.update rest f)) (ran ++ [k])) := by
  have ran_all : ((segment k).1.map spawn ++ (segment k).2.actions t f).foldlM System.step
      (s.setThread t ⟨.task b f .run, c, i⟩) =
      .ok (({ s with fibers := s.fibers ++ (segment k).1.map entry ++ (segment k).2.pushed f }.setFiber f
        ((segment k).2.fiber (s.heap f))).setThread t ⟨.task b f (.leave (segment k).2.ctx), c, i⟩) := by
    rw [foldlM_spawn]
    exact step_exit (s := { s with fibers := s.fibers ++ (segment k).1.map entry }) (segment k).2 task known
  have here : current (s.setThread t ⟨.task b f .run, c, i⟩) rest f = k := program
  unfold drive
  rw [threads_on]
  cases b with
  | idle => exact absurd rfl busy
  | fiber | cb =>
    dsimp only [on]
    rw [here, ran_all]
    rfl

theorem drive_idle_stop (task : (s.heap i).cb.isNone = false) (stopping : s.stopping = true) :
    drive segment t (on t s (.task .idle i .run) c i rest ran) =
      .ok (on t (s.setFiber i { s.heap i with state := .term, cb := none }) (.task .idle i (.leave .finished)) c i rest
        ran) := by
  have live : ¬ (s.heap i).cb.isNone = true := by simp [task]
  have here : (on t s (.task .idle i .run) c i rest ran).sys.stopping = true := stopping
  have stepped : (s.setThread t ⟨.task .idle i .run, c, i⟩).step (.code t .return) =
      .ok ((s.setFiber i { s.heap i with state := .term, cb := none }).setThread t ⟨.task .idle i (.leave .finished), c, i⟩) :=
    step_code (if_neg live)
  unfold drive
  rw [threads_on]
  dsimp only
  rw [if_pos here]
  exact congrArg (Except.map fun sys => (⟨sys, rest, ran⟩ : Caller κ)) stepped

theorem drive_idle_hold (task : (s.heap i).cb.isNone = false) (going : s.stopping = false) :
    drive segment t (on t s (.task .idle i .run) c i rest ran) =
      .ok (on t (s.setFiber i { s.heap i with state := .hold }) (.task .idle i (.leave .suspended)) c i rest ran) := by
  have live : ¬ (s.heap i).cb.isNone = true := by simp [task]
  have here : ¬ (on t s (.task .idle i .run) c i rest ran).sys.stopping = true := by
    change ¬ s.stopping = true
    simp [going]
  have stepped : (s.setThread t ⟨.task .idle i .run, c, i⟩).step (.code t .yieldToHold) =
      .ok ((s.setFiber i { s.heap i with state := .hold }).setThread t ⟨.task .idle i (.leave .suspended), c, i⟩) :=
    step_code (if_neg live)
  unfold drive
  rw [threads_on]
  dsimp only
  rw [if_neg here]
  exact congrArg (Except.map fun sys => (⟨sys, rest, ran⟩ : Caller κ)) stepped

end Caller

end Cool.Scheduler
