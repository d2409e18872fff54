import Cool.Scheduler.Machine

/-!
# When a task stays on the thread it was scheduled for

The thread is stored in the entry of the queue, not in the fiber. `pin` records beside the scheduler
which thread a fiber was scheduled for first; the fiber of a callback has the thread of the callback
that is started on it, and an idle fiber has none.
-/

namespace Cool.Scheduler

open Foundation

variable {κ : Type}

/-- The thread of the callback that is about to be started. -/
def Thread.starts (th : Thread κ) : Option Int :=
  match th.pc with
  | .picked ft => if ft.fiber.isNone && ft.cb.isSome then some ft.threadId else none
  | _ => none

namespace System

variable {s s' : System κ} {a : Action κ} {t u : ThreadId} {th : Thread κ} {f : FiberId}
  {pin : FiberId → Option Int}

def repin (s : System κ) (pin : FiberId → Option Int) (a : Action κ) (f : FiberId) : Option Int :=
  match a with
  | .start t _ => if s.threads t = none ∧ f = s.created then some (-1) else pin f
  | .run t =>
    match s.threads t with
    | none => pin f
    | some th => if f = th.cbFiber.getD s.created then th.starts.or (pin f) else pin f
  | a => (pin f).or (((s.pushes a).find? (·.fiber == some f)).map FiberAndThread.threadId)

/-- A fiber whose thread matters: it is queued, taken, or an idle fiber. -/
def Placed (s : System κ) (f : FiberId) : Prop :=
  f ∈ s.queued ∨ ∃ t th, s.threads t = some th ∧ (th.pc.fiber = some f ∨ th.idleFiber = f)

/-- Every entry made for a fiber names the thread it was scheduled for, also where `run` puts it back,
and a kept `cb_fiber` gets another callback only when nobody else has it. -/
structure Binds (s : System κ) (pin : FiberId → Option Int) (a : Action κ) : Prop where
  pushed : ∀ ft ∈ s.pushes a, ∀ f, ft.fiber = some f → pin f = none ∨ pin f = some ft.threadId
  requeued : ∀ t th b f, a = .run t → s.threads t = some th → th.pc = .task b f .requeue → pin f = some (-1)
  reused : ∀ t th f, a = .run t → s.threads t = some th → th.starts ≠ none → th.cbFiber = some f → ¬ s.Placed f

/-! ### The invariant -/

def Pc.Bound (pin : FiberId → Option Int) (t : ThreadId) : Pc κ → Prop
  | .picked ft => (ft.threadId = -1 ∨ ft.threadId = t.val) ∧ ∀ f, ft.fiber = some f → pin f = some ft.threadId
  | .task _ f _ => ∃ threadId, pin f = some threadId ∧ (threadId = -1 ∨ threadId = t.val)
  | _ => True

structure Affine (s : System κ) (pin : FiberId → Option Int) : Prop where
  queued : ∀ ft ∈ s.fibers, ∀ f, ft.fiber = some f → pin f = some ft.threadId
  bound : ∀ t th, s.threads t = some th → Pc.Bound pin t th.pc
  idle : ∀ t th, s.threads t = some th → pin th.idleFiber = some (-1)

theorem Placed.refers (placed : s.Placed f) : s.Refers f := by
  rcases placed with member | ⟨t, th, here, taken | idle⟩
  · exact .inl member
  · exact .inr ⟨t, th, here, .inl taken⟩
  · exact .inr ⟨t, th, here, .inr (.inr idle)⟩

/-- No step changes the thread of a fiber that is in its place. -/
theorem repin_keeps {threadId : Int} (known : Known s) (binds : Binds s pin a)
    (placed : s.Placed f) (pinned : pin f = some threadId) : s.repin pin a f = some threadId := by
  have old : f ≠ s.created := (known f placed.refers).ne
  have first (fts : List (FiberAndThread κ)) :
      (pin f).or ((fts.find? (·.fiber == some f)).map FiberAndThread.threadId) = some threadId := by
    rw [pinned, Option.some_or]
  cases a with
  | start t idle => exact (if_neg fun made => old made.2).trans pinned
  | run t =>
    unfold repin
    dsimp only
    split
    · exact pinned
    · rename_i th here
      split
      · rename_i same
        cases starts : th.starts with
        | none => exact pinned
        | some id =>
          -- the fiber of the callback is new, or it is in nobody's hands
          refine absurd placed fun placed => ?_
          cases kept : th.cbFiber with
          | none =>
            rw [kept] at same
            exact old same
          | some g =>
            rw [kept, Option.getD_some] at same
            subst same
            exact binds.reused t th f rfl here (starts ▸ Option.some_ne_none id) kept placed
      · exact pinned
  | _ => exact first _

theorem Affine.repinned (affine : Affine s pin) (known : Known s) (binds : Binds s pin a) :
    Affine s (s.repin pin a) where
  queued ft member f fiber :=
    repin_keeps known binds (.inl (List.mem_filterMap.mpr ⟨ft, member, fiber⟩)) (affine.queued ft member f fiber)
  bound t th here := by
    have bound := affine.bound t th here
    have keeps {f : FiberId} {threadId : Int} (taken : th.pc.fiber = some f) (pinned : pin f = some threadId) :=
      repin_keeps known binds (.inr ⟨t, th, here, .inl taken⟩) pinned
    cases pc : th.pc with
    | picked ft =>
      rw [pc] at bound keeps
      exact ⟨bound.1, fun f fiber => keeps fiber (bound.2 f fiber)⟩
    | task b f phase =>
      rw [pc] at bound keeps
      obtain ⟨threadId, pinned, own⟩ := bound
      exact ⟨threadId, keeps rfl pinned, own⟩
    | _ => trivial
  idle t th here := repin_keeps known binds (.inr ⟨t, th, here, .inr rfl⟩) (affine.idle t th here)

theorem pushes_same_thread {ft ft' : FiberAndThread κ} (member : ft ∈ s.pushes a) (member' : ft' ∈ s.pushes a) :
    ft.threadId = ft'.threadId := by
  have of_andThread (fc : FiberOrCb κ) (threadId : Int) : (fc.andThread threadId).threadId = threadId := by
    cases fc <;> rfl
  unfold pushes at member member'
  split at member
  · dsimp only at member'
    split at member
    · rw [if_pos (by assumption)] at member'
      rw [List.mem_singleton.mp (List.mem_of_mem_filter member),
        List.mem_singleton.mp (List.mem_of_mem_filter member')]
    · cases member
  · dsimp only at member'
    split at member
    · rw [if_pos (by assumption)] at member'
      obtain ⟨fc, -, rfl⟩ := List.mem_map.mp (List.mem_of_mem_filter member)
      obtain ⟨fc', -, rfl⟩ := List.mem_map.mp (List.mem_of_mem_filter member')
      rw [of_andThread, of_andThread]
    · cases member
  · dsimp only at member'
    split at member
    · rw [if_pos (by assumption)] at member'
      rw [List.mem_singleton.mp member, List.mem_singleton.mp member']
    · cases member
  · cases member

theorem repin_pushed {ft : FiberAndThread κ} (binds : Binds s pin a) (member : ft ∈ s.pushes a)
    (fiber : ft.fiber = some f) : s.repin pin a f = some ft.threadId := by
  have pushed : (pin f).or (((s.pushes a).find? (·.fiber == some f)).map FiberAndThread.threadId) =
      some ft.threadId := by
    rcases binds.pushed ft member f fiber with free | pinned
    · cases found : (s.pushes a).find? (·.fiber == some f) with
      | none =>
        rw [List.find?_eq_none] at found
        exact absurd (by rw [fiber]; exact beq_self_eq_true _) (found ft member)
      | some first =>
        rw [free, Option.none_or, Option.map_some, pushes_same_thread (List.mem_of_find?_eq_some found) member]
    · rw [pinned, Option.some_or]
  cases a with
  | start t idle => cases member
  | run t => cases member
  | _ => exact pushed

/-! ### Steps -/

theorem Affine.update (affine : Affine s pin) (threads : s'.threads = Function.update s.threads t (some th))
    (queued : ∀ ft ∈ s'.fibers, ∀ f, ft.fiber = some f → pin f = some ft.threadId)
    (bound : Pc.Bound pin t th.pc) (idle : pin th.idleFiber = some (-1)) : Affine s' pin :=
  ⟨queued, threads_update threads bound affine.bound,
    threads_update (P := fun _ th => pin th.idleFiber = some (-1)) threads idle affine.idle⟩

theorem Affine.keep {pc : Pc κ} {cbFiber : Option FiberId} (affine : Affine s pin)
    (here : s.threads t = some th)
    (threads : s'.threads = Function.update s.threads t (some { th with pc := pc, cbFiber := cbFiber }))
    (fibers : s'.fibers = s.fibers) (bound : Pc.Bound pin t pc) : Affine s' pin :=
  affine.update threads (fibers ▸ affine.queued) bound (affine.idle t th here)

theorem Affine.step (affine : Affine s pin) (known : Known s) (binds : Binds s pin a) (step : Stepped s a s') :
    Affine s' (s.repin pin a) := by
  have repinned := affine.repinned known binds
  have bound {t : ThreadId} {th : Thread κ} {b : Branch} {f : FiberId} {phase phase' : Phase}
      (here : s.threads t = some th) (at_pc : th.pc = .task b f phase) :
      Pc.Bound (s.repin pin a) t (Pc.task b f phase' : Pc κ) := by
    have bound := repinned.bound t th here
    rwa [at_pc] at bound
  cases step with
  | outside a registered =>
    refine ⟨fun ft member f fiber => ?_, repinned.bound, repinned.idle⟩
    rcases List.mem_append.mp member with before | pushed
    · exact repinned.queued ft before f fiber
    · exact repin_pushed binds pushed fiber
  | flags autostop stop => exact ⟨repinned.queued, repinned.bound, repinned.idle⟩
  | create cb => exact ⟨repinned.queued, repinned.bound, repinned.idle⟩
  | start idle absent => exact repinned.update rfl repinned.queued trivial (if_pos ⟨absent, rfl⟩)
  | idling here at_pc none_eligible => exact repinned.keep here rfl rfl trivial
  | @pick t th ft before after here at_pc split eligible =>
    refine repinned.update rfl ?_ ⟨eligible.1, ?_⟩ (repinned.idle t th here)
    · exact fun it rest => repinned.queued it (mem_of_rest split rest)
    · exact repinned.queued ft (split ▸ List.mem_append_cons_self)
  | @resume t th ft f here at_pc fiber =>
    have bound := repinned.bound t th here
    rw [at_pc] at bound
    exact repinned.keep here rfl rfl ⟨ft.threadId, bound.2 f fiber, bound.1⟩
  | @reset t th ft cb f here at_pc no_fiber callback kept =>
    have bound := repinned.bound t th here
    rw [at_pc] at bound
    refine repinned.keep here rfl rfl ⟨ft.threadId, ?_, bound.1⟩
    simp [repin, here, Thread.starts, at_pc, no_fiber, callback, kept]
  | @begin t th ft cb here at_pc no_fiber callback kept =>
    have bound := repinned.bound t th here
    rw [at_pc] at bound
    refine repinned.update rfl repinned.queued ⟨ft.threadId, ?_, bound.1⟩ (repinned.idle t th here)
    simp [repin, here, Thread.starts, at_pc, no_fiber, callback, kept]
  | drop here at_pc no_fiber => exact repinned.keep here rfl rfl trivial
  | move here at_pc moves => exact repinned.keep here rfl rfl (bound here at_pc)
  | backIdle here at_pc => exact repinned.keep here rfl rfl (bound here at_pc)
  | back here at_pc active => exact repinned.keep here rfl rfl (bound here at_pc)
  | finish here at_pc other ended => exact repinned.keep here rfl rfl trivial
  | hold here at_pc => exact repinned.keep here rfl rfl trivial
  | recycle here at_pc => exact repinned.keep here rfl rfl trivial
  | @requeue t th b f here at_pc =>
    have pinned : s.repin pin (.run t) f = some (-1) :=
      repin_keeps known binds (.inr ⟨t, th, here, .inl (by rw [at_pc]; rfl)⟩)
        (binds.requeued t th b f rfl here at_pc)
    refine repinned.update rfl (fun ft member g fiber => ?_) trivial (repinned.idle t th here)
    rcases List.mem_append.mp member with before | last
    · exact repinned.queued ft before g fiber
    · cases List.mem_singleton.mp last
      cases fiber
      exact pinned
  | exit here at_pc ended => exact repinned.keep here rfl rfl trivial
  | rest here at_pc live => exact repinned.keep here rfl rfl ⟨-1, repinned.idle _ _ here, .inl rfl⟩

/-! ### Runs -/

/-- The scheduler, with the thread of every fiber. -/
structure Pinned (κ : Type) where
  sys : System κ
  pin : FiberId → Option Int

namespace Pinned

def new : Pinned κ := ⟨System.new, fun _ => none⟩

def step (p : Pinned κ) (a : Action κ) : Except Fault (Pinned κ) :=
  (p.sys.step a).map fun sys => ⟨sys, p.sys.repin p.pin a⟩

theorem step_ok {p p' : Pinned κ} (ok : p.step a = .ok p') :
    p.sys.step a = .ok p'.sys ∧ p'.pin = p.sys.repin p.pin a := by
  unfold step at ok
  cases stepped : p.sys.step a with
  | error fault => rw [stepped] at ok; cases ok
  | ok sys => rw [stepped] at ok; cases ok; exact ⟨rfl, rfl⟩

/-- In a run in which every entry for a fiber names the thread it was scheduled for, a task executes
on that thread only. -/
theorem executes_where_scheduled {p : Pinned κ} {actions : List (Action κ)} {threadId : Int}
    (run : Run (fun p a p' => Binds p.sys p.pin a ∧ p.step a = .ok p') new actions p)
    (executing : p.sys.Executing t f) (pinned : p.pin f = some threadId) (bound : threadId ≠ -1) :
    threadId = t.val := by
  have invariant : Affine p.sys p.pin ∧ Known p.sys := by
    refine run.invariant (I := fun p => Affine p.sys p.pin ∧ Known p.sys) ?_ ⟨⟨?_, ?_, ?_⟩, Known.new⟩
    · rintro p a p' ⟨affine, known⟩ ⟨binds, ok⟩
      obtain ⟨ok, pin⟩ := step_ok ok
      have stepped := step_stepped ok
      exact ⟨pin ▸ affine.step known binds stepped, known.step stepped⟩
    · intro ft member
      cases member
    · intro t th here
      cases here
    · intro t th here
      cases here
  obtain ⟨th, b, phase, here, at_pc, -⟩ := executing
  have own := invariant.1.bound t th here
  rw [at_pc] at own
  obtain ⟨threadId', pinned', own⟩ := own
  cases pinned.symm.trans pinned'
  exact own.resolve_left bound

theorem binds_run (here : s.threads t = some th) (requeues : ∀ b f, th.pc ≠ .task b f .requeue)
    (unkept : th.starts = none ∨ th.cbFiber = none) : Binds s pin (.run t) := by
  refine ⟨?_, ?_, ?_⟩
  · intro ft member
    cases member
  · intro u uh b f same there at_pc
    cases same
    cases here.symm.trans there
    exact absurd at_pc (requeues b f)
  · intro u uh f same there starts kept
    cases same
    cases here.symm.trans there
    rcases unkept with none_starts | unkept
    · exact absurd none_starts starts
    · cases unkept.symm.trans kept

theorem binds_outside (outside : ∀ t, a ≠ .run t) (pushed : ∀ ft ∈ s.pushes a, ft.fiber = none) :
    Binds s pin a := by
  refine ⟨?_, fun t _ _ _ same => absurd same (outside t), fun t _ _ same => absurd same (outside t)⟩
  intro ft member f fiber
  cases (pushed ft member).symm.trans fiber

theorem executes_where_scheduled_callback :
    ∃ p : Pinned Nat, Run (fun p a p' => Binds p.sys p.pin a ∧ p.step a = .ok p') new
      [.start 1 0, .schedule (.cb (some 7)) 1, .run 1, .run 1, .run 1, .run 1, .run 1] p ∧
      p.sys.Executing 1 1 ∧ p.pin 1 = some 1 ∧ (1 : Int) = (1 : ThreadId).val := by
  have run : Run (fun p a p' => Binds p.sys p.pin a ∧ p.step a = .ok p') (new : Pinned Nat) [.start 1 0] _ :=
    Run.nil.snoc ⟨binds_outside (by simp) (by simp [pushes]), rfl⟩
  have run := run.snoc (a := .schedule (.cb (some 7)) 1)
    ⟨binds_outside (by simp) (by simp [pushes, known, FiberOrCb.andThread, FiberAndThread.hasTask]), rfl⟩
  have run := run.snoc (a := .run 1) ⟨binds_run rfl (by simp) (.inl rfl), rfl⟩
  have run := run.snoc (a := .run 1) ⟨binds_run rfl (by simp) (.inr rfl), rfl⟩
  have run := run.snoc (a := .run 1) ⟨binds_run rfl (by simp) (.inl rfl), rfl⟩
  have run := run.snoc (a := .run 1) ⟨binds_run rfl (by simp) (.inl rfl), rfl⟩
  have run := run.snoc (a := .run 1) ⟨binds_run rfl (by simp) (.inl rfl), rfl⟩
  suffices executing : System.Executing _ 1 1 ∧ _ from
    ⟨_, run, executing.1, executing.2, executes_where_scheduled run executing.1 executing.2 (by decide)⟩
  exact ⟨⟨_, _, _, rfl, rfl, .inl rfl⟩, rfl⟩

/-- A fiber that is scheduled for thread 1 yields `READY` there, is put back for any thread, and goes on
executing on thread 0. -/
def yieldsToAnother : List (Action Nat) :=
  [.start 0 0, .start 1 0, .create (some 7), .schedule (.fiber (some 2)) 1, .run 1, .run 1, .run 1, .run 1, .run 1,
    .code 1 .yieldToReady, .run 1, .run 1, .run 1, .run 1, .run 0, .run 0, .run 0, .run 0, .run 0]

theorem executes_elsewhere :
    ∃ p : Pinned Nat, Run (fun p a p' => p.step a = .ok p') new yieldsToAnother p ∧
      p.pin 2 = some 1 ∧ p.sys.Executing 0 2 := by
  have seen : (yieldsToAnother.foldlM step new).toOption.map (fun p => (p.pin 2, p.sys.threads 0)) =
      some (some 1, some ⟨.task .fiber 2 .run, none, 0⟩) := by decide
  obtain ⟨p, run, seen⟩ := Run.of_seen seen
  simp only [Prod.mk.injEq] at seen
  exact ⟨p, run, seen.1, _, _, _, seen.2, rfl, .inl rfl⟩

end Pinned

end System

end Cool.Scheduler
