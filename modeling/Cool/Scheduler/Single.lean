import Cool.Scheduler.Machine

/-!
# The assertions on a single scheduler thread

Fibers and callbacks may be scheduled from anywhere, but only one thread is in `run`. A fiber whose
context has come to its end is `TERM` or `ERROR`; what keeps `run` from entering it again is that no
such fiber is in the queue and that the idle fiber is never `ERROR`.
-/

namespace Cool.Scheduler

open Foundation

variable {κ : Type}

def Over (state : Fiber.State) : Prop := state = .term ∨ state = .error

/-- The state that `Fiber::reset` asserts. -/
def Reusable (state : Fiber.State) : Prop := state = .term ∨ state = .init ∨ state = .error

/-- What is true of the fiber of a task in each phase of its turn. -/
def Phase.Sane (b : Branch) (fiber : Fiber κ) : Phase → Prop
  | .swapIn | .mark => ¬ Over fiber.state
  | .switch | .run => fiber.state = .exec
  | .leave ctx => (ctx = .finished → Over fiber.state) ∧ (fiber.cb = none → Over fiber.state)
  | .back | .check | .settle => fiber.cb = none → Over fiber.state
  | .hold => ¬ Over fiber.state ∧ fiber.cb ≠ none
  | .recycle => Over fiber.state ∧ b = .cb
  | .requeue => fiber.state = .ready ∧ fiber.cb ≠ none

/-- The phases in which the fiber may be `EXEC`. -/
def Phase.entered : Phase → Bool
  | .switch | .run | .leave _ | .back | .check | .settle | .hold => true
  | _ => false

def Pc.entered : Pc κ → Option FiberId
  | .task _ f phase => if phase.entered then some f else none
  | _ => none

def Pc.current : Pc κ → Option (Branch × FiberId)
  | .task b f _ => some (b, f)
  | _ => none

def Pc.Sane (heap : FiberId → Fiber κ) : Pc κ → Prop
  | .picked ft => ∀ f, ft.fiber = some f → ¬ Over (heap f).state
  | .task b f phase => phase.Sane b (heap f)
  | _ => True

/-- An entry that thread `t` may take. -/
def FiberAndThread.For (ft : FiberAndThread κ) (t : ThreadId) : Prop := ft.threadId = -1 ∨ ft.threadId = t.val

namespace System

variable {s s' : System κ} {a : Action κ} {t : ThreadId} {th : Thread κ} {f : FiberId}

/-- Only thread `t` enters `run`; a fiber that is over is not scheduled again, and none gets over while
it is still queued; the idle fiber does not throw. -/
structure Orderly (t : ThreadId) (s : System κ) (a : Action κ) : Prop where
  single : ∀ u idle, a = .start u idle → u = t
  pushed : ∀ ft ∈ s.pushes a, ∀ f, ft.fiber = some f → ft.For t → ¬ Over (s.heap f).state
  ends : ∀ th b f code, a = .code t code → code = .return ∨ code = .throw → s.threads t = some th →
    th.pc = .task b f .run → ∀ ft ∈ s.fibers, ft.fiber = some f → ¬ ft.For t
  idle : ∀ th b, a = .code t .throw → s.threads t = some th → th.pc ≠ .task b th.idleFiber .run

/-! ### The invariant -/

/-- What the locals of `run` say about the fibers. A `cb_fiber` that is kept, and is not running a
callback, has an empty `m_cb`. -/
structure Sane (heap : FiberId → Fiber κ) (th : Thread κ) : Prop where
  at_pc : th.pc.Sane heap
  idle : (heap th.idleFiber).state ≠ .error
  callback : ∀ f, th.pc.current = some (.cb, f) → th.cbFiber = some f
  kept : ∀ f, th.cbFiber = some f → th.pc.current = some (.cb, f) ∨
    (heap f).cb = none ∧ ((∃ b, th.pc.current = some (b, f)) ∨ Reusable (heap f).state)

structure Sound (t : ThreadId) (s : System κ) : Prop where
  known : Known s
  only : ∀ u th, s.threads u = some th → u = t
  tasks : ∀ ft ∈ s.fibers, ft.hasTask = true
  queued : ∀ ft ∈ s.fibers, ∀ f, ft.fiber = some f → ft.For t → ¬ Over (s.heap f).state
  finished : ∀ f, (s.heap f).ctx = .finished → Over (s.heap f).state
  executing : ∀ f, (s.heap f).state = .exec → ∃ th, s.threads t = some th ∧ th.pc.entered = some f
  sane : ∀ th, s.threads t = some th → Sane s.heap th

theorem Over.ne_exec {state : Fiber.State} (ended : Over state) : state ≠ .exec := by
  rintro rfl
  rcases ended with term | error
  · cases term
  · cases error

theorem Moves.sane {fiber fiber' : Fiber κ} {b : Branch} {code : Option Code} {phase phase' : Phase}
    (moves : Moves fiber b code phase phase' fiber') (sane : phase.Sane b fiber) : phase'.Sane b fiber' := by
  cases moves <;> simp_all [Phase.Sane, Over]

theorem Moves.finished {fiber fiber' : Fiber κ} {b : Branch} {code : Option Code} {phase phase' : Phase}
    (moves : Moves fiber b code phase phase' fiber') (sane : phase.Sane b fiber)
    (finished : fiber.ctx = .finished → Over fiber.state) :
    fiber'.ctx = .finished → Over fiber'.state := by
  cases moves <;> simp_all [Phase.Sane, Over]

theorem Moves.entered {fiber fiber' : Fiber κ} {b : Branch} {code : Option Code} {phase phase' : Phase}
    (moves : Moves fiber b code phase phase' fiber') (entered : fiber.state = .exec → phase.entered = true) :
    fiber'.state = .exec → phase'.entered = true := by
  cases moves with
  | recycle callback ended => exact fun exec => absurd exec (Over.ne_exec ended)
  | _ => simp_all [Phase.entered]

theorem Moves.empty {fiber fiber' : Fiber κ} {b : Branch} {code : Option Code} {phase phase' : Phase}
    (moves : Moves fiber b code phase phase' fiber') (empty : fiber.cb = none) : fiber'.cb = none := by
  cases moves <;> simp_all

theorem Moves.error {fiber fiber' : Fiber κ} {b : Branch} {code : Option Code} {phase phase' : Phase}
    (moves : Moves fiber b code phase phase' fiber') (error : fiber'.state = .error) :
    fiber.state = .error ∨ phase = .run ∧ code = some .throw := by
  cases moves <;> simp_all

theorem Moves.ended {fiber fiber' : Fiber κ} {b : Branch} {code : Option Code} {phase phase' : Phase}
    (moves : Moves fiber b code phase phase' fiber') (ended : Over fiber'.state) :
    Over fiber.state ∨ phase = .run ∧ (code = some .return ∨ code = some .throw) := by
  cases moves <;> simp_all [Over]

theorem Sound.update (sound : Sound t s) (step : Stepped s a s')
    (threads : s'.threads = Function.update s.threads t (some th)) (tasks : ∀ ft ∈ s'.fibers, ft.hasTask = true)
    (queued : ∀ ft ∈ s'.fibers, ∀ f, ft.fiber = some f → ft.For t → ¬ Over (s'.heap f).state)
    (finished : ∀ f, (s'.heap f).ctx = .finished → Over (s'.heap f).state)
    (executing : ∀ f, (s'.heap f).state = .exec → th.pc.entered = some f) (sane : Sane s'.heap th) :
    Sound t s' := by
  have here : s'.threads t = some th := by rw [threads, Function.update_self]
  refine ⟨sound.known.step step, ?_, tasks, queued, finished, fun f exec => ⟨th, here, executing f exec⟩, ?_⟩
  · exact threads_update (P := fun u _ => u = t) threads rfl sound.only
  · intro th' there
    cases here.symm.trans there
    exact sane

theorem Sound.entered (sound : Sound t s) (here : s.threads t = some th) (exec : (s.heap f).state = .exec) :
    th.pc.entered = some f := by
  obtain ⟨th', there, entered⟩ := sound.executing f exec
  cases here.symm.trans there
  exact entered

theorem Pc.entered_task {b : Branch} {phase : Phase} {g : FiberId}
    (entered : (Pc.task b f phase : Pc κ).entered = some g) : g = f ∧ phase.entered = true := by
  unfold Pc.entered at entered
  dsimp only at entered
  split at entered
  · rename_i inside
    exact ⟨(Option.some.inj entered).symm, inside⟩
  · cases entered

theorem Sane.reusable {heap : FiberId → Fiber κ} (sane : Sane heap th) (idle : th.pc.current = none)
    (kept : th.cbFiber = some f) : (heap f).cb = none ∧ Reusable (heap f).state := by
  rcases sane.kept f kept with callback | ⟨empty, ⟨b, current⟩ | reusable⟩
  · cases idle.symm.trans callback
  · cases idle.symm.trans current
  · exact ⟨empty, reusable⟩

/-- Between two turns the thread only looks. -/
theorem Sound.between {pc : Pc κ} (sound : Sound t s) (step : Stepped s a s') (here : s.threads t = some th)
    (idle : th.pc.current = none) (threads : s'.threads = Function.update s.threads t (some { th with pc := pc }))
    (fibers : ∀ ft ∈ s'.fibers, ft ∈ s.fibers) (heap : s'.heap = s.heap) (at_pc : pc.Sane s.heap)
    (callback : ∀ f, pc.current ≠ some (.cb, f)) : Sound t s' := by
  refine sound.update step threads ?_ ?_ ?_ ?_ ?_
  · exact fun ft member => sound.tasks ft (fibers ft member)
  · rw [heap]
    exact fun ft member => sound.queued ft (fibers ft member)
  · rw [heap]
    exact sound.finished
  · rw [heap]
    intro f exec
    have entered := sound.entered here exec
    cases at_task : th.pc with
    | task b f phase =>
      rw [at_task] at idle
      cases idle
    | _ =>
      rw [at_task] at entered
      cases entered
  · rw [heap]
    have sane := sound.sane th here
    refine ⟨at_pc, sane.idle, fun f current => absurd current (callback f), fun f kept => ?_⟩
    have ⟨empty, reusable⟩ := sane.reusable idle kept
    exact .inr ⟨empty, .inr reusable⟩

/-- In a turn the thread changes the fiber of its task alone, and queues no other. -/
theorem Sound.change {b : Branch} {phase : Phase} {fiber : Fiber κ} {pc : Pc κ} {cbFiber : Option FiberId}
    (sound : Sound t s) (step : Stepped s a s') (here : s.threads t = some th) (at_pc : th.pc = .task b f phase)
    (threads : s'.threads = Function.update s.threads t (some { th with pc := pc, cbFiber := cbFiber }))
    (fibers : ∀ ft ∈ s'.fibers, ft ∈ s.fibers ∨ ft = { fiber := some f } ∧ ¬ Over fiber.state)
    (heap : s'.heap = Function.update s.heap f fiber) (finished : fiber.ctx = .finished → Over fiber.state)
    (entered : fiber.state = .exec → pc.entered = some f)
    (ended : Over fiber.state → Over (s.heap f).state ∨ ∀ ft ∈ s.fibers, ft.fiber = some f → ¬ ft.For t)
    (error : th.idleFiber = f → fiber.state ≠ .error) (at_pc' : pc.Sane s'.heap)
    (callback : ∀ g, pc.current = some (.cb, g) → cbFiber = some g)
    (kept : ∀ g, cbFiber = some g → pc.current = some (.cb, g) ∨
      (s'.heap g).cb = none ∧ ((∃ b, pc.current = some (b, g)) ∨ Reusable (s'.heap g).state)) : Sound t s' := by
  have elsewhere {g : FiberId} (other : g ≠ f) : s'.heap g = s.heap g := by rw [heap, Function.update_of_ne other]
  have at_f : s'.heap f = fiber := by rw [heap, Function.update_self]
  refine sound.update step threads ?_ ?_ ?_ ?_ ⟨at_pc', ?_, callback, kept⟩
  · intro ft member
    rcases fibers ft member with there | ⟨rfl, -⟩
    · exact sound.tasks ft there
    · rfl
  · intro ft member g taken mine
    rcases fibers ft member with there | ⟨rfl, live⟩
    · by_cases same : g = f
      · rw [same, at_f]
        intro now
        rcases ended now with already | unqueued
        · exact sound.queued ft there f (same ▸ taken) mine already
        · exact unqueued ft there (same ▸ taken) mine
      · rw [elsewhere same]
        exact sound.queued ft there g taken mine
    · rw [← Option.some.inj taken, at_f]
      exact live
  · rw [heap]
    refine (Function.forall_update_iff s.heap fun _ fiber => fiber.ctx = .finished → Over fiber.state).mpr ?_
    exact ⟨finished, fun g _ => sound.finished g⟩
  · rw [heap]
    refine (Function.forall_update_iff s.heap fun g fiber => fiber.state = .exec → pc.entered = some g).mpr ?_
    refine ⟨entered, fun g other exec => ?_⟩
    -- of the fibers only that of the task can be `EXEC`
    have only := sound.entered here exec
    rw [at_pc] at only
    exact absurd (Pc.entered_task only).1 other
  · show (s'.heap th.idleFiber).state ≠ .error
    by_cases same : th.idleFiber = f
    · rw [same, at_f]
      exact error same
    · rw [elsewhere same]
      exact (sound.sane th here).idle

/-- A `cb_fiber` that is not the fiber of the turn is as it was between two turns. -/
theorem Sane.kept_other {heap : FiberId → Fiber κ} {b : Branch} {phase : Phase} {g : FiberId} (sane : Sane heap th)
    (at_pc : th.pc = .task b f phase) (kept : th.cbFiber = some g) (other : g ≠ f) :
    (heap g).cb = none ∧ Reusable (heap g).state := by
  have current : th.pc.current = some (b, f) := by rw [at_pc]; rfl
  rcases sane.kept g kept with callback | ⟨empty, ⟨b', elsewhere⟩ | reusable⟩
  · cases current.symm.trans callback
    exact absurd rfl other
  · cases current.symm.trans elsewhere
    exact absurd rfl other
  · exact ⟨empty, reusable⟩

/-- A `cb_fiber` that was scheduled as a fiber, or is the fiber of another branch, has no callback. -/
theorem Sane.kept_empty {heap : FiberId → Fiber κ} {b : Branch} {phase : Phase} (sane : Sane heap th)
    (at_pc : th.pc = .task b f phase) (kept : th.cbFiber = some f) (other : b ≠ .cb) : (heap f).cb = none := by
  rcases sane.kept f kept with callback | ⟨empty, -⟩
  · rw [at_pc] at callback
    cases callback
    exact absurd rfl other
  · exact empty

theorem Sound.at_phase {b : Branch} {phase : Phase} (sound : Sound t s) (here : s.threads t = some th)
    (at_pc : th.pc = .task b f phase) : phase.Sane b (s.heap f) := by
  have sane := (sound.sane th here).at_pc
  rwa [at_pc] at sane

theorem Sound.go_on {b : Branch} {phase phase' : Phase} {fiber : Fiber κ} (sound : Sound t s)
    (step : Stepped s a s') (here : s.threads t = some th) (at_pc : th.pc = .task b f phase)
    (threads : s'.threads = Function.update s.threads t (some { th with pc := .task b f phase' }))
    (fibers : s'.fibers = s.fibers) (heap : s'.heap = Function.update s.heap f fiber)
    (sane : phase'.Sane b fiber) (empty : (s.heap f).cb = none → fiber.cb = none)
    (finished : fiber.ctx = .finished → Over fiber.state)
    (entered : fiber.state = .exec → phase'.entered = true)
    (ended : Over fiber.state → Over (s.heap f).state ∨ ∀ ft ∈ s.fibers, ft.fiber = some f → ¬ ft.For t)
    (error : th.idleFiber = f → fiber.state ≠ .error) : Sound t s' := by
  have before := sound.sane th here
  have at_f : s'.heap f = fiber := by rw [heap, Function.update_self]
  refine sound.change step here at_pc threads (fun ft member => .inl (fibers ▸ member)) heap finished
    (fun exec => if_pos (entered exec)) ended error ?_ ?_ ?_
  · show phase'.Sane b (s'.heap f)
    rwa [at_f]
  · intro g current
    exact before.callback g (by rw [at_pc]; exact current)
  · intro g kept
    by_cases same : g = f
    · subst same
      by_cases callback : b = .cb
      · exact .inl (by rw [callback]; rfl)
      · rw [at_f]
        exact .inr ⟨empty (before.kept_empty at_pc kept callback), .inl ⟨b, rfl⟩⟩
    · obtain ⟨none_left, reusable⟩ := before.kept_other at_pc kept same
      rw [heap, Function.update_of_ne same]
      exact .inr ⟨none_left, .inr reusable⟩

theorem Sound.end_turn {b : Branch} {phase : Phase} {fiber : Fiber κ} {cbFiber : Option FiberId}
    (sound : Sound t s) (step : Stepped s a s') (here : s.threads t = some th) (at_pc : th.pc = .task b f phase)
    (threads : s'.threads = Function.update s.threads t (some { th with pc := .top, cbFiber := cbFiber }))
    (fibers : ∀ ft ∈ s'.fibers, ft ∈ s.fibers ∨ ft = { fiber := some f } ∧ ¬ Over fiber.state)
    (heap : s'.heap = Function.update s.heap f fiber) (exec : fiber.state ≠ .exec)
    (ended : Over fiber.state → Over (s.heap f).state) (error : fiber.state = .error → (s.heap f).state = .error)
    (finished : fiber.ctx = .finished → Over fiber.state)
    (kept : ∀ g, cbFiber = some g → th.cbFiber = some g ∧ (g = f → fiber.cb = none ∧ Reusable fiber.state)) :
    Sound t s' := by
  have before := sound.sane th here
  refine sound.change step here at_pc threads fibers heap finished (fun now => absurd now exec)
    (fun now => .inl (ended now)) ?_ trivial (fun g current => by cases current) fun g still => ?_
  · intro same now
    exact before.idle (same ▸ error now)
  · obtain ⟨was, at_current⟩ := kept g still
    by_cases same : g = f
    · rw [same, heap, Function.update_self]
      exact .inr ⟨(at_current same).1, .inr (at_current same).2⟩
    · obtain ⟨empty, reusable⟩ := before.kept_other at_pc was same
      rw [heap, Function.update_of_ne same]
      exact .inr ⟨empty, .inr reusable⟩

theorem renewed {heap : FiberId → Fiber κ} {cb : Option κ} {g : FiberId} {P : Fiber κ → Prop}
    (new : P (Fiber.new cb)) (old : P (heap f)) : P (Function.update heap g (Fiber.new cb) f) := by
  rw [Function.update_apply]
  split
  · exact new
  · exact old

theorem not_over_new {cb : Option κ} : ¬ Over (Fiber.new cb).state := by
  simp [Over, Fiber.new]

/-- A callback is started, or the thread enters `run`, with a fiber that is new. -/
theorem Sound.begin_turn {g : FiberId} {cb : κ} (sound : Sound t s) (step : Stepped s a s')
    (threads : s'.threads = Function.update s.threads t (some th)) (fibers : s'.fibers = s.fibers)
    (heap : s'.heap = Function.update s.heap g (Fiber.new (some cb)))
    (none_executing : ∀ f, (s.heap f).state ≠ .exec) (sane : Sane s'.heap th) : Sound t s' := by
  refine sound.update step threads (fibers ▸ sound.tasks) ?_ ?_ ?_ sane
  · rw [fibers, heap]
    intro ft member f taken mine
    exact renewed (P := fun fiber => ¬ Over fiber.state) not_over_new (sound.queued ft member f taken mine)
  · rw [heap]
    intro f
    exact renewed (P := fun fiber => fiber.ctx = .finished → Over fiber.state) (fun now => by cases now)
      (sound.finished f)
  · rw [heap]
    intro f exec
    have idle : (Function.update s.heap g (Fiber.new (some cb)) f).state ≠ .exec :=
      renewed (P := fun fiber => fiber.state ≠ .exec) (fun now => by cases now) (none_executing f)
    exact absurd exec idle

theorem Sound.none_executing (sound : Sound t s) (idle : ∀ th, s.threads t = some th → th.pc.entered = none)
    (f : FiberId) : (s.heap f).state ≠ .exec := by
  intro exec
  obtain ⟨th, here, entered⟩ := sound.executing f exec
  cases (idle th here).symm.trans entered

theorem Sound.create {cb : Option κ} (sound : Sound t s) : Sound t (s.create cb) := by
  have heap : (s.create cb).heap = Function.update s.heap s.created (Fiber.new cb) := rfl
  have other {f : FiberId} (refers : s.Refers f) : (s.create cb).heap f = s.heap f := by
    rw [heap, Function.update_of_ne (sound.known f refers).ne]
  refine ⟨sound.known.step (.create cb), sound.only, sound.tasks, ?_, ?_, ?_, fun th here => ?_⟩
  · intro ft member f taken mine
    rw [other (.inl (List.mem_filterMap.mpr ⟨ft, member, taken⟩))]
    exact sound.queued ft member f taken mine
  · intro f
    exact renewed (P := fun fiber => fiber.ctx = .finished → Over fiber.state) (fun now => by cases now)
      (sound.finished f)
  · intro f
    exact renewed (P := fun fiber => fiber.state = .exec → ∃ th, s.threads t = some th ∧ th.pc.entered = some f)
      (fun now => by cases now) (sound.executing f)
  · have sane := sound.sane th here
    have owned {f : FiberId} (owns : th.Owns f) := other (.inr ⟨t, th, here, owns⟩)
    refine ⟨?_, ?_, sane.callback, fun f kept => ?_⟩
    · have at_pc := sane.at_pc
      cases pc : th.pc with
      | picked ft =>
        rw [pc] at at_pc
        intro f taken
        rw [owned (.inl (by rw [pc]; exact taken))]
        exact at_pc f taken
      | task b f phase =>
        rw [pc] at at_pc
        show phase.Sane b _
        rw [owned (.inl (by rw [pc]; rfl))]
        exact at_pc
      | _ => trivial
    · rw [owned (.inr (.inr rfl))]
      exact sane.idle
    · rw [owned (.inr (.inl kept))]
      exact sane.kept f kept

/-- A picked callback gets a fiber: the kept one, which is reset, or a new one. -/
theorem Sound.begin_callback {ft : FiberAndThread κ} {cb : κ} (sound : Sound t s) (step : Stepped s a s')
    (here : s.threads t = some th) (at_pc : th.pc = .picked ft)
    (threads : s'.threads =
      Function.update s.threads t (some { th with pc := .task .cb f .swapIn, cbFiber := some f }))
    (fibers : s'.fibers = s.fibers) (heap : s'.heap = Function.update s.heap f (Fiber.new (some cb))) :
    Sound t s' := by
  have none_entered (th' : Thread κ) (there : s.threads t = some th') : th'.pc.entered = none := by
    cases here.symm.trans there
    rw [at_pc]
    rfl
  refine sound.begin_turn step threads fibers heap (sound.none_executing none_entered) ⟨?_, ?_, ?_, ?_⟩
  · show ¬ Over (s'.heap f).state
    rw [heap, Function.update_self]
    exact not_over_new
  · rw [heap]
    exact renewed (P := fun fiber => fiber.state ≠ .error) (fun now => by cases now) (sound.sane th here).idle
  · intro g current
    cases current
    rfl
  · intro g same
    cases same
    exact .inl rfl

theorem pushes_hasTask {ft : FiberAndThread κ} (member : ft ∈ s.pushes a) : ft.hasTask = true := by
  unfold pushes at member
  split at member
  · split at member
    · exact (List.mem_filter.mp member).2
    · cases member
  · split at member
    · exact (List.mem_filter.mp member).2
    · cases member
  · split at member
    · cases List.mem_singleton.mp member
      rfl
    · cases member
  · cases member

theorem Sound.outside {registered : FiberId → Bool} (sound : Sound t s) (orderly : Orderly t s a) :
    Sound t { s with fibers := s.fibers ++ s.pushes a, registered := registered } := by
  refine ⟨sound.known.step (.outside a registered), sound.only, ?_, ?_, sound.finished, sound.executing, sound.sane⟩
  · intro ft member
    rcases List.mem_append.mp member with before | pushed
    · exact sound.tasks ft before
    · exact pushes_hasTask pushed
  · intro ft member
    rcases List.mem_append.mp member with before | pushed
    · exact sound.queued ft before
    · exact orderly.pushed ft pushed

theorem Sound.move {b : Branch} {code : Option Code} {phase phase' : Phase} {fiber : Fiber κ} (sound : Sound t s)
    (orderly : Orderly t s (.of t code)) (here : s.threads t = some th) (at_pc : th.pc = .task b f phase)
    (moves : Moves (s.heap f) b code phase phase' fiber) :
    Sound t ((s.setFiber f fiber).setThread t { th with pc := .task b f phase' }) := by
  have sane := sound.at_phase here at_pc
  have entered (exec : (s.heap f).state = .exec) : phase.entered = true := by
    have entered := sound.entered here exec
    rw [at_pc] at entered
    exact (Pc.entered_task entered).2
  refine sound.go_on (.move here at_pc moves) here at_pc rfl rfl rfl (moves.sane sane) ?_
    (moves.finished sane (sound.finished f)) (moves.entered entered) ?_ ?_
  · exact moves.empty
  · intro ended
    rcases moves.ended ended with before | ⟨rfl, ends⟩
    · exact .inl before
    · right
      rcases ends with rfl | rfl
      · exact orderly.ends th b f .return rfl (.inl rfl) here at_pc
      · exact orderly.ends th b f .throw rfl (.inr rfl) here at_pc
  · intro same error
    rcases moves.error error with before | ⟨rfl, rfl⟩
    · exact (sound.sane th here).idle (same ▸ before)
    · exact orderly.idle th b rfl here (same ▸ at_pc)

theorem Sound.count {b : Branch} {phase phase' : Phase} (sound : Sound t s) (step : Stepped s a s')
    (here : s.threads t = some th) (at_pc : th.pc = .task b f phase)
    (threads : s'.threads = Function.update s.threads t (some { th with pc := .task b f phase' }))
    (fibers : s'.fibers = s.fibers) (heap : s'.heap = s.heap)
    (sane : phase.Sane b (s.heap f) → phase'.Sane b (s.heap f))
    (entered : phase.entered = true → phase'.entered = true) : Sound t s' := by
  refine sound.go_on step here at_pc threads fibers (heap.trans (Function.update_eq_self f s.heap).symm)
    (sane (sound.at_phase here at_pc)) id (sound.finished f) ?_ .inl ?_
  · intro exec
    have inside := sound.entered here exec
    rw [at_pc] at inside
    exact entered (Pc.entered_task inside).2
  · exact fun same => same ▸ (sound.sane th here).idle

theorem Sound.step (sound : Sound t s) (orderly : Orderly t s a) (step : Stepped s a s') : Sound t s' := by
  have stepped := step
  cases step with
  | outside a registered => exact sound.outside orderly
  | flags autostop stop =>
    exact ⟨sound.known, sound.only, sound.tasks, sound.queued, sound.finished, sound.executing, sound.sane⟩
  | create cb => exact sound.create
  | @start u idle absent =>
    obtain rfl := orderly.single u idle rfl
    refine sound.begin_turn stepped rfl rfl rfl ?_ ⟨trivial, ?_, ?_, ?_⟩
    · exact sound.none_executing fun th here => by cases absent.symm.trans here
    · simp [System.create, setThread, setFiber, Fiber.new]
    · intro f current
      cases current
    · intro f kept
      cases kept
  | idling here at_pc none_eligible =>
    obtain rfl := sound.only _ _ here
    exact sound.between stepped here (by rw [at_pc]; rfl) rfl (fun ft => id) rfl trivial
      (fun f current => by cases current)
  | @pick u th ft before after here at_pc split eligible =>
    obtain rfl := sound.only _ _ here
    refine sound.between stepped here (by rw [at_pc]; rfl) rfl ?_ rfl ?_ (fun f current => by cases current)
    · exact fun it rest => mem_of_rest split rest
    · intro f taken
      exact sound.queued ft (split ▸ List.mem_append_cons_self) f taken eligible.1
  | @resume u th ft f here at_pc fiber =>
    obtain rfl := sound.only _ _ here
    have live := (sound.sane th here).at_pc
    rw [at_pc] at live
    exact sound.between stepped here (by rw [at_pc]; rfl) rfl (fun ft => id) rfl (live f fiber)
      (fun f current => by cases current)
  | @reset u th ft cb f here at_pc no_fiber callback kept =>
    obtain rfl := sound.only _ _ here
    refine sound.begin_callback stepped here at_pc ?_ rfl rfl
    rw [← kept]
    rfl
  | begin here at_pc no_fiber callback kept =>
    obtain rfl := sound.only _ _ here
    exact sound.begin_callback stepped here at_pc rfl rfl rfl
  | drop here at_pc no_fiber =>
    obtain rfl := sound.only _ _ here
    exact sound.between stepped here (by rw [at_pc]; rfl) rfl (fun ft => id) rfl trivial
      (fun f current => by cases current)
  | move here at_pc moves =>
    obtain rfl := sound.only _ _ here
    exact sound.move orderly here at_pc moves
  | @backIdle u th f here at_pc =>
    obtain rfl := sound.only _ _ here
    exact sound.count stepped here at_pc rfl rfl rfl (fun sane => sane) (fun _ => rfl)
  | @back u th b f here at_pc active =>
    obtain rfl := sound.only _ _ here
    exact sound.count stepped here at_pc rfl rfl rfl (fun sane => sane) (fun _ => rfl)
  | @finish u th b f here at_pc other ended =>
    obtain rfl := sound.only _ _ here
    refine sound.end_turn stepped here at_pc rfl (fun ft => .inl) (Function.update_eq_self f s.heap).symm
      (Over.ne_exec ended) id id (sound.finished f) fun g kept => ⟨kept, ?_⟩
    rintro rfl
    exact ⟨(sound.sane th here).kept_empty at_pc kept other, ended.imp_right .inr⟩
  | @hold u th b f here at_pc =>
    obtain rfl := sound.only _ _ here
    obtain ⟨live, called⟩ := sound.at_phase here at_pc
    refine sound.end_turn stepped here at_pc rfl (fun ft => .inl) rfl (by simp) (by simp [Over]) (by simp)
      (fun finished => absurd (sound.finished f finished) live) fun g kept => ?_
    obtain ⟨other, kept⟩ := kept_of_hold kept
    refine ⟨kept, ?_⟩
    rintro rfl
    exact absurd ((sound.sane th here).kept_empty at_pc kept other) called
  | @recycle u th b f here at_pc =>
    obtain rfl := sound.only _ _ here
    refine sound.end_turn stepped here at_pc rfl (fun ft => .inl) rfl (by simp [Fiber.new]) ?_ (by simp [Fiber.new])
      (by simp [Fiber.new]) ?_
    · exact fun ended => absurd ended not_over_new
    · exact fun g kept => ⟨kept, fun _ => ⟨rfl, .inr (.inl rfl)⟩⟩
  | @requeue u th b f here at_pc =>
    obtain rfl := sound.only _ _ here
    obtain ⟨ready, -⟩ := sound.at_phase here at_pc
    have live : ¬ Over (s.heap f).state := by
      rw [ready]
      simp [Over]
    refine sound.end_turn stepped here at_pc rfl ?_ (Function.update_eq_self f s.heap).symm (by simp [ready]) id id
      (sound.finished f) ?_
    · intro ft member
      exact (List.mem_append.mp member).imp_right fun last => ⟨List.mem_singleton.mp last, live⟩
    · intro g kept
      cases kept
  | exit here at_pc ended =>
    obtain rfl := sound.only _ _ here
    exact sound.between stepped here (by rw [at_pc]; rfl) rfl (fun ft => id) rfl trivial
      (fun f current => by cases current)
  | @rest u th here at_pc live =>
    obtain rfl := sound.only _ _ here
    refine sound.between stepped here (by rw [at_pc]; rfl) rfl (fun ft => id) rfl ?_ (fun f current => by cases current)
    exact fun ended => ended.elim live (sound.sane th here).idle

/-! ### No assertion fails -/

/-- The next step of the thread is a call of `Fiber::reset`. -/
def Resets (th : Thread κ) (f : FiberId) : Prop :=
  th.pc = .task .cb f .recycle ∨
    ∃ ft, th.pc = .picked ft ∧ ft.fiber = none ∧ ft.cb ≠ none ∧ th.cbFiber = some f

theorem Sound.swapIn {b : Branch} (sound : Sound t s) (here : s.threads t = some th)
    (at_pc : th.pc = .task b f .swapIn) :
    (s.heap f).state ≠ .term ∧ (s.heap f).state ≠ .error ∧ (s.heap f).state ≠ .exec := by
  have live := sound.at_phase here at_pc
  refine ⟨fun term => live (.inl term), fun error => live (.inr error), fun exec => ?_⟩
  have entered := sound.entered here exec
  rw [at_pc] at entered
  cases entered

theorem Sound.resets (sound : Sound t s) (here : s.threads t = some th) (resets : Resets th f) :
    Reusable (s.heap f).state := by
  rcases resets with at_pc | ⟨ft, at_pc, -, -, kept⟩
  · exact (sound.at_phase here at_pc).1.imp_right .inr
  · exact ((sound.sane th here).reusable (by rw [at_pc]; rfl) kept).2

theorem reset_of_reusable {fiber : Fiber κ} (reusable : Reusable fiber.state) (cb : Option κ) :
    fiber.reset cb = some (Fiber.new cb) := if_pos reusable

theorem Sound.turn_advances {b : Branch} {phase : Phase} (sound : Sound t s) (here : s.threads t = some th)
    (pc : th.pc = .task b f phase) : ∃ s', s.advance t th = .ok s' := by
  have at_phase := sound.at_phase here pc
  cases phase with
  | swapIn =>
    simp only [advance, pc]
    rw [if_neg (sound.swapIn here pc).2.2]
    exact ⟨_, rfl⟩
  | switch =>
    have live : (s.heap f).ctx ≠ .finished := fun finished =>
      Over.ne_exec (sound.finished f finished) at_phase
    simp only [advance, pc]
    rw [if_neg live]
    exact ⟨_, rfl⟩
  | recycle =>
    simp only [advance, pc]
    rw [reset_of_reusable (at_phase.1.imp_right .inr)]
    exact ⟨_, rfl⟩
  | back =>
    cases b with
    | fiber | cb | idle =>
      simp only [advance, pc]
      exact ⟨_, rfl⟩
  | check | settle =>
    simp only [advance, pc]
    split
    · exact ⟨_, rfl⟩
    · exact ⟨_, rfl⟩
  | mark | run | leave | hold | requeue =>
    simp only [advance, pc]
    exact ⟨_, rfl⟩

theorem Sound.advances (sound : Sound t s) (here : s.threads t = some th) : ∃ s', s.advance t th = .ok s' := by
  cases pc : th.pc with
  | top =>
    have found : ∃ found, pick (fun f => (s.heap f).state) t s.fibers = .ok found := pick_ok sound.tasks
    obtain ⟨⟨tickleMe, ft, rest⟩, picked⟩ := found
    simp only [advance, pc, picked]
    cases ft with
    | none => exact ⟨_, rfl⟩
    | some ft => exact ⟨_, rfl⟩
  | picked ft =>
    simp only [advance, pc]
    split
    · exact ⟨_, rfl⟩
    · rename_i no_fiber callback kept
      rw [reset_of_reusable ((sound.sane th here).reusable (by rw [pc]; rfl) kept).2]
      exact ⟨_, rfl⟩
    · exact ⟨_, rfl⟩
    · exact ⟨_, rfl⟩
  | task b f phase => exact sound.turn_advances here pc
  | idling =>
    simp only [advance, pc]
    split
    · exact ⟨_, rfl⟩
    · exact ⟨_, rfl⟩
  | exited =>
    simp only [advance, pc]
    exact ⟨_, rfl⟩

theorem Sound.steps (sound : Sound t s) (a : Action κ) : ∃ s', s.step a = .ok s' := by
  cases a with
  | run u =>
    unfold System.step
    dsimp only
    split
    · exact ⟨_, rfl⟩
    · rename_i th here
      obtain rfl := sound.only u th here
      exact sound.advances here
  | create cb => exact ⟨_, rfl⟩
  | flags autostop stop => exact ⟨_, rfl⟩
  | _ =>
    unfold System.step
    dsimp only
    split
    · exact ⟨_, rfl⟩
    · exact ⟨_, rfl⟩

theorem Sound.new : Sound t (System.new : System κ) := by
  refine ⟨Known.new, ?_, ?_, ?_, ?_, ?_, ?_⟩
  · intro u th here
    cases here
  · intro ft member
    cases member
  · intro ft member
    cases member
  · intro f finished
    cases finished
  · intro f exec
    cases exec
  · intro th here
    cases here

/-- With one thread in `run`, when no fiber that is over is scheduled, none gets over while it is queued
and the idle fiber does not throw, `swapIn` and `reset` are called as they assert and every step succeeds. -/
theorem single_thread_asserts {actions : List (Action κ)}
    (run : Run (fun s a s' => Orderly t s a ∧ s.step a = .ok s') new actions s) :
    (∀ u th b f, s.threads u = some th → th.pc = .task b f .swapIn →
      (s.heap f).state ≠ .term ∧ (s.heap f).state ≠ .error ∧ (s.heap f).state ≠ .exec) ∧
    (∀ u th f, s.threads u = some th → Resets th f → Reusable (s.heap f).state) ∧
    ∀ a, ∃ s', s.step a = .ok s' := by
  have sound : Sound t s :=
    run.invariant (fun s a s' sound step => sound.step step.1 (step_stepped step.2)) Sound.new
  refine ⟨fun u th b f here at_pc => ?_, fun u th f here resets => ?_, sound.steps⟩
  · obtain rfl := sound.only u th here
    exact sound.swapIn here at_pc
  · obtain rfl := sound.only u th here
    exact sound.resets here resets

theorem orderly_run {u : ThreadId} : Orderly t s (.run u) := by
  refine ⟨?_, ?_, ?_, ?_⟩
  · intro v idle same
    cases same
  · intro ft member
    cases member
  · intro th b f code same
    cases same
  · intro th b same
    cases same

theorem single_thread_asserts_callback :
    ∃ s, Run (fun s a s' => Orderly 0 s a ∧ s.step a = .ok s') (new : System Nat)
      [.start 0 0, .schedule (.cb (some 7)) (-1), .run 0, .run 0] s ∧
      s.threads 0 = some ⟨.task .cb 1 .swapIn, some 1, 0⟩ ∧ (s.heap 1).state ≠ .term ∧
      (s.heap 1).state ≠ .error ∧ (s.heap 1).state ≠ .exec := by
  have run : Run (fun s a s' => Orderly 0 s a ∧ s.step a = .ok s') (new : System Nat) [.start 0 0] _ :=
    Run.nil.snoc ⟨⟨by simp, by simp [pushes], by simp, by simp⟩, rfl⟩
  have run := run.snoc (a := .schedule (.cb (some 7)) (-1))
    ⟨⟨by simp, by simp [pushes, System.known, FiberOrCb.andThread, FiberAndThread.hasTask], by simp, by simp⟩, rfl⟩
  have run := run.snoc (a := .run 0) ⟨orderly_run, rfl⟩
  have run := run.snoc (a := .run 0) ⟨orderly_run, rfl⟩
  exact ⟨_, run, rfl, (single_thread_asserts run).1 0 _ .cb 1 rfl rfl⟩

/-- A fiber is scheduled twice and returns: its second entry enters it again. -/
def scheduledTwice : List (Action Nat) :=
  [.start 0 0, .create (some 7), .schedule (.fiber (some 1)) (-1), .schedule (.fiber (some 1)) (-1),
    .run 0, .run 0, .run 0, .run 0, .run 0, .code 0 .return, .run 0, .run 0, .run 0, .run 0, .run 0, .run 0]

/-- The idle fiber throws and is entered again. -/
def idleThrows : List (Action Nat) :=
  [.start 0 0, .run 0, .run 0, .run 0, .run 0, .run 0, .code 0 .throw, .run 0, .run 0, .run 0, .run 0, .run 0]

/-- The assertion that fails on the way. -/
def fault (s : System κ) (actions : List (Action κ)) : Option Fault :=
  match actions.foldlM step s with
  | .error fault => some fault
  | .ok _ => none

theorem single_thread_enters_finished :
    (∃ s, Run (fun s a s' => step s a = .ok s') (new : System Nat) scheduledTwice s ∧
      s.threads 0 = some ⟨.task .fiber 1 .swapIn, none, 0⟩ ∧ (s.heap 1).state = .term ∧
      s.fault [.run 0, .run 0, .run 0] = some .neverReach) ∧
    ∃ s, Run (fun s a s' => step s a = .ok s') (new : System Nat) idleThrows s ∧
      s.threads 0 = some ⟨.task .idle 0 .swapIn, none, 0⟩ ∧ (s.heap 0).state = .error ∧
      s.fault [.run 0, .run 0, .run 0] = some .neverReach := by
  constructor
  · have seen : (scheduledTwice.foldlM step new).toOption.map (fun s =>
        (s.threads 0, (s.heap 1).state, s.fault [.run 0, .run 0, .run 0])) =
          some (some ⟨.task .fiber 1 .swapIn, none, 0⟩, .term, some .neverReach) := by decide
    obtain ⟨s, run, seen⟩ := Run.of_seen seen
    simp only [Prod.mk.injEq] at seen
    exact ⟨s, run, seen⟩
  · have seen : (idleThrows.foldlM step new).toOption.map (fun s =>
        (s.threads 0, (s.heap 0).state, s.fault [.run 0, .run 0, .run 0])) =
          some (some ⟨.task .idle 0 .swapIn, none, 0⟩, .error, some .neverReach) := by decide
    obtain ⟨s, run, seen⟩ := Run.of_seen seen
    simp only [Prod.mk.injEq] at seen
    exact ⟨s, run, seen⟩

end System

end Cool.Scheduler
