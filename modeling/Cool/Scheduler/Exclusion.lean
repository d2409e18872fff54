import Cool.Scheduler.Machine
import Mathlib.Data.List.Nodup

/-!
# When no fiber runs on two threads

A thread owns the fiber of its current task, the `cb_fiber` it keeps and its idle fiber. As long as
only fibers are pushed that nobody owns and that are not queued already, every fiber has at most one
owner, and it is in the queue only while it has none.
-/

namespace Cool.Scheduler

open Foundation

variable {κ : Type}

namespace System

variable {s s' : System κ} {a : Action κ} {t u : ThreadId} {th : Thread κ} {f : FiberId}

/-- Whoever pushes a fiber finds it neither queued nor owned. -/
def PushesFree (s : System κ) (a : Action κ) : Prop :=
  ((s.pushes a).filterMap FiberAndThread.fiber).Nodup ∧
    ∀ f ∈ (s.pushes a).filterMap FiberAndThread.fiber, f ∉ s.queued ∧ ∀ t, ¬ s.Owns t f

/-! ### Which branch has which fiber -/

/-- The idle fiber is not among the tasks, and only a task is put back. -/
def Pc.Sorted (idleFiber : FiberId) : Pc κ → Prop
  | .picked ft => ft.fiber ≠ some idleFiber
  | .task .idle _ phase => phase ≠ .check ∧ phase ≠ .requeue
  | .task _ f _ => f ≠ idleFiber
  | _ => True

structure Sorted (th : Thread κ) : Prop where
  kept : th.cbFiber ≠ some th.idleFiber
  at_pc : Pc.Sorted th.idleFiber th.pc

structure Apart (s : System κ) : Prop where
  once : s.queued.Nodup
  unowned : ∀ t f, s.Owns t f → f ∉ s.queued
  alone : ∀ t u f, s.Owns t f → s.Owns u f → t = u
  sorted : ∀ t th, s.threads t = some th → Sorted th

/-- One thread changes what it owns: it may take what was queued or what is new, and give up what it
had to the queue. -/
theorem Apart.update (apart : Apart s) (known : Known s) (threads : s'.threads = Function.update s.threads t (some th))
    (sorted : Sorted th) (once : s'.queued.Nodup)
    (queue : ∀ f ∈ s'.queued, (f ∈ s.queued ∨ s.Owns t f) ∧ ¬ th.Owns f)
    (owns : ∀ f, th.Owns f → s.Owns t f ∨ f ∈ s.queued ∨ f = s.created) : Apart s' where
  once := once
  unowned u f := by
    rintro owned queued
    rcases (owns_update threads).mp owned with ⟨rfl, owned⟩ | ⟨other, owned⟩
    · exact (queue f queued).2 owned
    · rcases (queue f queued).1 with before | given
      · exact apart.unowned u f owned before
      · exact other (apart.alone u t f owned given)
  alone := by
    -- a fiber that is taken had no owner, and a new one is beyond all that have one
    have gained (u : ThreadId) (f : FiberId) (taken : th.Owns f) (owned : s.Owns u f) : t = u := by
      rcases owns f taken with before | queued | new
      · exact apart.alone t u f before owned
      · exact absurd queued (apart.unowned u f owned)
      · exact absurd (known f (.inr ⟨u, owned⟩)) new.not_lt
    intro u v f hu hv
    rcases (owns_update threads).mp hu with ⟨rfl, hu⟩ | ⟨-, hu⟩ <;>
      rcases (owns_update threads).mp hv with ⟨rfl, hv⟩ | ⟨-, hv⟩
    · rfl
    · exact gained v f hu hv
    · exact (gained u f hv hu).symm
    · exact apart.alone u v f hu hv
  sorted := threads_update threads sorted apart.sorted

theorem Apart.keep {old : Thread κ} (apart : Apart s) (known : Known s) (here : s.threads t = some old)
    (threads : s'.threads = Function.update s.threads t (some th)) (fibers : s'.fibers = s.fibers)
    (sorted : Sorted th) (owns : ∀ f, th.Owns f → old.Owns f) : Apart s' := by
  have queued : s'.queued = s.queued := by rw [queued, fibers, queued]
  refine apart.update known threads sorted (queued ▸ apart.once) ?_ ?_
  · rw [queued]
    intro f member
    exact ⟨.inl member, fun owned => apart.unowned t f ⟨old, here, owns f owned⟩ member⟩
  · intro f owned
    exact .inl ⟨old, here, owns f owned⟩

theorem Apart.leave {pc : Pc κ} (apart : Apart s) (known : Known s) (here : s.threads t = some th)
    (done : pc.fiber = none)
    (threads : s'.threads = Function.update s.threads t (some { th with pc := pc }))
    (fibers : s'.fibers = s.fibers) : Apart s' := by
  have sorted : Pc.Sorted th.idleFiber pc := by
    cases pc with
    | picked ft =>
      intro taken
      cases done.symm.trans taken
    | task b f phase => cases done
    | _ => trivial
  refine apart.keep known here threads fibers ⟨(apart.sorted t th here).kept, sorted⟩ fun f owns => ?_
  refine (Thread.Owns.of_pc owns).resolve_left fun taken => ?_
  cases done.symm.trans taken

theorem Apart.go_on {b : Branch} {phase phase' : Phase} (apart : Apart s) (known : Known s)
    (here : s.threads t = some th) (at_pc : th.pc = .task b f phase)
    (back : b = .idle → phase' ≠ .check ∧ phase' ≠ .requeue)
    (threads : s'.threads = Function.update s.threads t (some { th with pc := .task b f phase' }))
    (fibers : s'.fibers = s.fibers) : Apart s' := by
  obtain ⟨kept, sorted⟩ := apart.sorted t th here
  rw [at_pc] at sorted
  refine apart.keep known here threads fibers ⟨kept, ?_⟩ fun g owns => ?_
  · cases b with
    | idle => exact back rfl
    | fiber | cb => exact sorted
  · refine (Thread.Owns.of_pc owns).elim (fun taken => .inl ?_) id
    rw [at_pc]
    exact taken

theorem Apart.outside {registered : FiberId → Bool} (apart : Apart s) (free : s.PushesFree a) :
    Apart { s with fibers := s.fibers ++ s.pushes a, registered := registered } := by
  have queued : (s.fibers ++ s.pushes a).filterMap FiberAndThread.fiber =
      s.queued ++ (s.pushes a).filterMap FiberAndThread.fiber := List.filterMap_append
  obtain ⟨once, free⟩ := free
  refine ⟨?_, ?_, apart.alone, apart.sorted⟩
  · rw [System.queued, queued, List.nodup_append]
    refine ⟨apart.once, once, ?_⟩
    rintro f before g pushed rfl
    exact (free f pushed).1 before
  · intro t f owns member
    rw [System.queued, queued, List.mem_append] at member
    rcases member with before | pushed
    · exact apart.unowned t f owns before
    · exact (free f pushed).2 t owns

theorem Apart.taken {ft : FiberAndThread κ} {before after : List (FiberAndThread κ)} (apart : Apart s)
    (split : s.fibers = before ++ ft :: after) :
    ((before ++ after).filterMap FiberAndThread.fiber).Nodup ∧
      (∀ f ∈ (before ++ after).filterMap FiberAndThread.fiber, f ∈ s.queued ∧ ft.fiber ≠ some f) ∧
      ∀ f, ft.fiber = some f → f ∈ s.queued := by
  have queued : s.queued = before.filterMap FiberAndThread.fiber ++
      (ft.fiber.toList ++ after.filterMap FiberAndThread.fiber) := by
    rw [System.queued, split, List.filterMap_append, List.filterMap_cons]
    cases ft.fiber <;> rfl
  have once := apart.once
  rw [queued] at once
  rw [queued, List.filterMap_append]
  cases taken : ft.fiber with
  | none =>
    rw [taken] at once
    exact ⟨once, fun f member => ⟨member, (Option.some_ne_none f).symm⟩, fun f none => by cases none⟩
  | some g =>
    rw [taken, Option.toList_some, List.singleton_append, List.nodup_middle, List.nodup_cons] at once
    refine ⟨once.2, fun f member => ⟨?_, ?_⟩, ?_⟩
    · exact List.mem_append.mpr ((List.mem_append.mp member).imp_right (List.mem_cons_of_mem g))
    · rintro ⟨⟩
      exact once.1 member
    · rintro f ⟨⟩
      exact List.mem_append_right _ List.mem_cons_self

theorem Moves.to_requeue {fiber fiber' : Fiber κ} {b : Branch} {code : Option Code} {phase phase' : Phase}
    (moves : Moves fiber b code phase phase' fiber') :
    phase' ≠ .check ∧ (phase' = .requeue → phase = .check) := by
  cases moves <;> simp

/-- A thread enters `run`, or starts a callback, with a fiber that it has just made. -/
theorem Apart.make (apart : Apart s) (known : Known s)
    (threads : s'.threads = Function.update s.threads t (some th)) (sorted : Sorted th)
    (fibers : s'.fibers = s.fibers) (owns : ∀ f, th.Owns f → s.Owns t f ∨ f = s.created) : Apart s' := by
  have queued : s'.queued = s.queued := by rw [queued, fibers, queued]
  refine apart.update known threads sorted (queued ▸ apart.once) ?_ ?_
  · rw [queued]
    refine fun f member => ⟨.inl member, fun owned => ?_⟩
    rcases owns f owned with before | new
    · exact apart.unowned t f before member
    · exact (known f (.inl member)).ne new
  · intro f owned
    exact (owns f owned).imp_right .inr

theorem Apart.pick {ft : FiberAndThread κ} {before after : List (FiberAndThread κ)} (apart : Apart s)
    (known : Known s) (here : s.threads t = some th) (split : s.fibers = before ++ ft :: after)
    (threads : s'.threads = Function.update s.threads t (some { th with pc := .picked ft }))
    (fibers : s'.fibers = before ++ after) : Apart s' := by
  obtain ⟨once, rest, among⟩ := apart.taken split
  have unowned (f : FiberId) (queued : f ∈ s.queued) (owns : th.Owns f) : False :=
    apart.unowned t f ⟨th, here, owns⟩ queued
  have queued : s'.queued = (before ++ after).filterMap FiberAndThread.fiber := by rw [queued, fibers]
  refine apart.update known threads ⟨(apart.sorted t th here).kept, ?_⟩ (queued ▸ once) ?_ ?_
  · exact fun idle => unowned _ (among _ idle) (.inr (.inr rfl))
  · rw [queued]
    intro f member
    refine ⟨.inl (rest f member).1, fun owns => ?_⟩
    rcases Thread.Owns.of_pc owns with taken | owns
    · exact (rest f member).2 taken
    · exact unowned f (rest f member).1 owns
  · intro f owns
    rcases Thread.Owns.of_pc owns with taken | owns
    · exact .inr (.inl (among f taken))
    · exact .inl ⟨th, here, owns⟩

theorem Apart.requeue {b : Branch} (apart : Apart s) (known : Known s) (here : s.threads t = some th)
    (at_pc : th.pc = .task b f .requeue)
    (threads : s'.threads = Function.update s.threads t (some { th with pc := .top, cbFiber := none }))
    (fibers : s'.fibers = s.fibers ++ [{ fiber := some f }]) : Apart s' := by
  have owned : s.Owns t f := ⟨th, here, .inl (by rw [at_pc]; rfl)⟩
  have other : f ≠ th.idleFiber := by
    have sorted := (apart.sorted t th here).at_pc
    rw [at_pc] at sorted
    cases b with
    | idle => exact absurd rfl sorted.2
    | fiber | cb => exact sorted
  have queued : s'.queued = s.queued ++ [f] := by
    rw [queued, fibers]
    exact List.filterMap_append
  have idle {g : FiberId} (owns : ({ th with pc := .top, cbFiber := none } : Thread κ).Owns g) :
      th.idleFiber = g := (Thread.Owns.of_top owns).resolve_left (Option.some_ne_none g).symm
  refine apart.update known threads ⟨(Option.some_ne_none _).symm, trivial⟩ ?_ ?_ ?_
  · rw [queued, List.nodup_append]
    refine ⟨apart.once, List.nodup_singleton f, ?_⟩
    rintro g before g' last rfl
    exact apart.unowned t f owned (List.mem_singleton.mp last ▸ before)
  · rw [queued]
    intro g member
    rw [List.mem_append, List.mem_singleton] at member
    refine ⟨member.imp_right fun (last : g = f) => last ▸ owned, fun owns => ?_⟩
    rcases member with before | rfl
    · exact apart.unowned t g ⟨th, here, .inr (.inr (idle owns))⟩ before
    · exact other (idle owns).symm
  · intro g owns
    exact .inl ⟨th, here, .inr (.inr (idle owns))⟩

theorem Apart.step (apart : Apart s) (known : Known s) (free : s.PushesFree a) (step : Stepped s a s') :
    Apart s' := by
  cases step with
  | outside a registered => exact apart.outside free
  | flags autostop stop => exact ⟨apart.once, apart.unowned, apart.alone, apart.sorted⟩
  | create cb => exact ⟨apart.once, apart.unowned, apart.alone, apart.sorted⟩
  | start idle absent =>
    refine apart.make known rfl ⟨(Option.some_ne_none _).symm, trivial⟩ rfl ?_
    rintro f (taken | kept | idle)
    · cases taken
    · cases kept
    · exact .inr idle.symm
  | idling here at_pc none_eligible => exact apart.leave known here rfl rfl rfl
  | pick here at_pc split eligible => exact apart.pick known here split rfl rfl
  | @resume t th ft f here at_pc fiber =>
    obtain ⟨kept, sorted⟩ := apart.sorted _ _ here
    rw [at_pc] at sorted
    refine apart.keep known here rfl rfl ⟨kept, ?_⟩ fun g owns => ?_
    · exact fun same => sorted (same ▸ fiber)
    · refine (Thread.Owns.of_pc owns).elim (fun taken => .inl ?_) id
      rw [at_pc]
      exact fiber.trans taken
  | @reset t th ft cb f here at_pc no_fiber callback kept =>
    have sorted := apart.sorted _ _ here
    refine apart.keep known here rfl rfl ⟨sorted.kept, ?_⟩ fun g owns => ?_
    · exact fun same => sorted.kept (same ▸ kept)
    · exact (Thread.Owns.of_pc owns).elim (fun taken => .inr (.inl (kept.trans taken))) id
  | @begin t th ft cb here at_pc no_fiber callback kept =>
    have older : th.idleFiber < s.created := known _ (.inr ⟨t, th, here, .inr (.inr rfl)⟩)
    refine apart.make known rfl ⟨fun same => older.ne' (Option.some.inj same), older.ne'⟩ rfl ?_
    rintro f (taken | made | idle)
    · exact .inr (Option.some.inj taken).symm
    · exact .inr (Option.some.inj made).symm
    · exact .inl ⟨_, here, .inr (.inr idle)⟩
  | drop here at_pc no_fiber => exact apart.leave known here rfl rfl rfl
  | move here at_pc moves =>
    refine apart.go_on known here at_pc ?_ rfl rfl
    rintro rfl
    have sorted := (apart.sorted _ _ here).at_pc
    rw [at_pc] at sorted
    exact ⟨moves.to_requeue.1, fun requeue => sorted.1 (moves.to_requeue.2 requeue)⟩
  | backIdle here at_pc => exact apart.go_on known here at_pc (fun _ => by decide) rfl rfl
  | back here at_pc active =>
    exact apart.go_on known here at_pc (fun idle => absurd idle active) rfl rfl
  | finish here at_pc other ended => exact apart.leave known here rfl rfl rfl
  | hold here at_pc =>
    have sorted := apart.sorted _ _ here
    refine apart.keep known here rfl rfl ⟨fun kept => sorted.kept (kept_of_hold kept).2, trivial⟩ fun g owns => ?_
    rcases Thread.Owns.of_top owns with kept | idle
    · exact .inr (.inl (kept_of_hold kept).2)
    · exact .inr (.inr idle)
  | recycle here at_pc => exact apart.leave known here rfl rfl rfl
  | requeue here at_pc => exact apart.requeue known here at_pc rfl rfl
  | exit here at_pc ended => exact apart.leave known here rfl rfl rfl
  | rest here at_pc live =>
    refine apart.keep known here rfl rfl ⟨(apart.sorted _ _ here).kept, by decide, by decide⟩ fun f owns => ?_
    exact (Thread.Owns.of_pc owns).elim (fun taken => .inr (.inr (Option.some.inj taken))) id

/-! ### Runs -/

theorem Apart.new : Apart (System.new : System κ) := by
  have none_owns (t : ThreadId) (f : FiberId) : ¬ (System.new : System κ).Owns t f := by
    rintro ⟨th, here, -⟩
    cases here
  refine ⟨List.nodup_nil, ?_, ?_, ?_⟩
  · exact fun t f owns => absurd owns (none_owns t f)
  · exact fun t u f owns => absurd owns (none_owns t f)
  · intro t th here
    cases here

/-- In a run in which every fiber that is pushed is neither queued nor owned by a thread at that
time, no fiber is ever between its entry and the end of its exit on two threads. -/
theorem executes_on_one_thread {actions : List (Action κ)}
    (run : Run (fun s a s' => s.PushesFree a ∧ s.step a = .ok s') new actions s)
    (here : s.Executing t f) (there : s.Executing u f) : t = u := by
  have invariant : Apart s ∧ Known s := by
    refine run.invariant (I := fun s => Apart s ∧ Known s) ?_ ⟨Apart.new, Known.new⟩
    rintro s a s' ⟨apart, known⟩ ⟨free, ok⟩
    have stepped := step_stepped ok
    exact ⟨apart.step known free stepped, known.step stepped⟩
  exact invariant.1.alone t u f here.owns there.owns

theorem PushesFree.of_nil (none_pushed : s.pushes a = []) : s.PushesFree a := by
  unfold PushesFree
  rw [none_pushed]
  exact ⟨List.nodup_nil, fun f member => by cases member⟩

theorem executes_on_one_thread_entered :
    ∃ s, Run (fun s a s' => s.PushesFree a ∧ s.step a = .ok s') (new : System Nat)
      [.start 0 0, .create (some 7), .schedule (.fiber (some 1)) (-1), .run 0, .run 0, .run 0, .run 0, .run 0] s ∧
      s.Executing 0 1 ∧ ∀ u, s.Executing u 1 → 0 = u := by
  let made : System Nat := ((new.create (some 0)).setThread 0 ⟨.top, none, 0⟩).create (some 7)
  have free : made.PushesFree (.schedule (.fiber (some 1)) (-1)) := by
    refine ⟨List.nodup_singleton 1, fun f member => ?_⟩
    cases List.mem_singleton.mp member
    refine ⟨List.not_mem_nil, ?_⟩
    rintro t ⟨th, here, owns⟩
    by_cases first : t = 0
    · subst first
      cases here
      rcases owns with taken | kept | idle
      · cases taken
      · cases kept
      · cases idle
    · have absent := (Function.update_of_ne first _ _).symm.trans here
      cases absent
  have run : Run (fun s a s' => s.PushesFree a ∧ s.step a = .ok s') (new : System Nat)
      [.start 0 0, .create (some 7)] made := (Run.nil.snoc ⟨.of_nil rfl, rfl⟩).snoc ⟨.of_nil rfl, rfl⟩
  have run := run.snoc ⟨free, rfl⟩
  have run := run.snoc (a := .run 0) ⟨.of_nil rfl, rfl⟩
  have run := run.snoc (a := .run 0) ⟨.of_nil rfl, rfl⟩
  have run := run.snoc (a := .run 0) ⟨.of_nil rfl, rfl⟩
  have run := run.snoc (a := .run 0) ⟨.of_nil rfl, rfl⟩
  have run := run.snoc (a := .run 0) ⟨.of_nil rfl, rfl⟩
  suffices executing : System.Executing _ 0 1 from
    ⟨_, run, executing, fun u there => executes_on_one_thread run executing there⟩
  exact ⟨_, _, _, rfl, rfl, .inl rfl⟩

/-- A fiber registers for an event that arrives before the fiber has left: it is queued while it
still executes. It writes `HOLD` and has yet to save its context when another thread enters it. -/
def wokenEarly : List (Action Nat) :=
  [.start 0 0, .start 1 0, .create (some 7), .schedule (.fiber (some 2)) (-1),
    .run 0, .run 0, .run 0, .run 0, .run 0, .code 0 .register, .wake 2, .code 0 .yieldToHold,
    .run 1, .run 1, .run 1, .run 1, .run 1]

theorem executes_on_two_threads :
    ∃ s, Run (fun s a s' => step s a = .ok s') (new : System Nat) wokenEarly s ∧
      s.Executing 0 2 ∧ s.Executing 1 2 := by
  have seen : (wokenEarly.foldlM step new).toOption.map (fun s => (s.threads 0, s.threads 1)) =
      some (some ⟨.task .fiber 2 (.leave .suspended), none, 0⟩, some ⟨.task .fiber 2 .run, none, 1⟩) := by decide
  obtain ⟨s, run, seen⟩ := Run.of_seen seen
  simp only [Prod.mk.injEq] at seen
  obtain ⟨first, second⟩ := seen
  exact ⟨s, run, ⟨_, _, _, first, rfl, .inr ⟨_, rfl⟩⟩, ⟨_, _, _, second, rfl, .inl rfl⟩⟩

end System

end Cool.Scheduler
