import Cool.IOManager.Pending

/-!
# The timeout of a hooked call

`do_io` and `connect_with_timeout` in one fiber, step by step, with the callbacks of the timers they
arm and with what `idle` delivers on other threads. A callback first tests and sets `cancelled` and
then calls `cancelEvent`: two steps. The descriptor is a socket in blocking mode; what the system
call itself answers is open.
-/

namespace Cool

namespace Hook

open Foundation IOManager

variable {κ φ : Type}

structure Call (φ : Type) where
  fd : Fd
  event : Event
  scheduler : SchedulerId
  fiber : φ
  /-- `to != (uint64_t)-1`. -/
  timeout : Bool
  /-- Whether a wake-up leads back to the system call. -/
  retries : Bool

def doIo (fd : Fd) (event : Event) (scheduler : SchedulerId) (fiber : φ) (timeout : Bool) : Call φ :=
  ⟨fd, event, scheduler, fiber, timeout, true⟩

def connectWithTimeout (sockfd : Fd) (scheduler : SchedulerId) (fiber : φ) (timeout : Bool) : Call φ :=
  ⟨sockfd, .write, scheduler, fiber, timeout, false⟩

/-- The next statement of the call. -/
inductive Pc where
  | attempt
  | arm
  | add
  | yield
  | parked
  | woken
  | test
  | returned
  deriving DecidableEq, Repr

/-- A timer of the call: in `m_timers`, taken out by `cancel`, its callback handed to a scheduler, in
the callback behind the test of `cancelled`, and at the end of the callback. -/
inductive Stage where
  | armed
  | removed
  | emitted
  | inflight
  | fired
  deriving DecidableEq, Repr

end Hook

open Hook IOManager

/-- `stages` are the timers armed so far, `timer` is the local of that name, `cancelled` is
`tinfo->cancelled` and `taken` the number of wake-ups the fiber has been resumed for. -/
structure Hook (κ φ : Type) where
  io : IOManager κ φ
  pc : Pc
  cancelled : Bool
  stages : List Stage
  timer : Option Nat
  taken : Nat

namespace Hook

open Foundation

variable {κ φ : Type}

def cancelTimer (s : Hook κ φ) : Hook κ φ :=
  match s.timer with
  | some n => if s.stages[n]? = some .armed then { s with stages := s.stages.set n .removed } else s
  | none => s

/-- A stage that is reached after another timer has moved on was reached before. -/
theorem stage_of_set {stages : List Stage} {n m : Nat} {stage stage' : Stage}
    (now : (stages.set n stage')[m]? = some stage) (other : stage ≠ stage') : stages[m]? = some stage := by
  by_cases same : n = m
  · subst same
    rw [List.getElem?_set_self'] at now
    cases found : stages[n]? with
    | none => rw [found] at now; cases now
    | some old =>
      rw [found] at now
      exact absurd (Option.some.inj now).symm other
  · rwa [List.getElem?_set_ne same] at now

theorem stage_set {stages : List Stage} {n m : Nat} {stage stage' old : Stage} (before : stages[n]? = some old)
    (there : stages[m]? = some stage) (other : stage ≠ old) : (stages.set n stage')[m]? = some stage := by
  by_cases same : n = m
  · subst same
    exact absurd (Option.some.inj (there.symm.trans before)) other
  · rwa [List.getElem?_set_ne same]

theorem cancelTimer_frame (s : Hook κ φ) :
    s.cancelTimer.io = s.io ∧ s.cancelTimer.cancelled = s.cancelled ∧ s.cancelTimer.timer = s.timer ∧
      s.cancelTimer.taken = s.taken := by
  unfold cancelTimer
  split
  · split
    · exact ⟨rfl, rfl, rfl, rfl⟩
    · exact ⟨rfl, rfl, rfl, rfl⟩
  · exact ⟨rfl, rfl, rfl, rfl⟩

theorem cancelTimer_stage {s : Hook κ φ} {n : Nat} {stage : Stage} (there : s.stages[n]? = some stage)
    (other : stage ≠ .armed) :
    s.cancelTimer.stages[n]? = some stage := by
  unfold cancelTimer
  split
  · split
    · rename_i armed
      exact stage_set armed there other
    · exact there
  · exact there

inductive Action where
  /-- The next statement of the call: whether the system call would block, and whether `epoll_ctl`
  succeeds. -/
  | call (blocks ok : Bool)
  /-- `listExpiredCb` hands the callback of a timer on. -/
  | emit (n : Nat)
  /-- The callback up to `t->cancelled = ETIMEDOUT`. -/
  | check (n : Nat)
  /-- `cancelEvent` in the callback. -/
  | cancel (n : Nat) (ok : Bool)
  | deliver (fd : Fd) (mask : Mask) (ok : Bool)
  deriving DecidableEq, Repr

variable [DecidableEq κ] [DecidableEq φ]

/-- How often the fiber of the call has been pushed to its scheduler. -/
def wakeups (c : Call φ) (io : IOManager κ φ) : Nat := io.tasks.count (c.scheduler, .fiber c.fiber)

/-- A wake-up for the fiber is in the queue of its scheduler. -/
def Queued (c : Call φ) (s : Hook κ φ) : Prop := s.taken < wakeups c s.io

instance (c : Call φ) (s : Hook κ φ) : Decidable (Queued c s) := Nat.decLt _ _

def start (c : Call φ) (io : IOManager κ φ) : Hook κ φ := ⟨io, .attempt, false, [], none, wakeups c io⟩

def next (c : Call φ) (s : Hook κ φ) (blocks ok : Bool) : Except Fault (Hook κ φ) :=
  match s.pc with
  | .attempt => .ok { s with pc := if blocks then .arm else .returned }
  | .arm =>
    if c.timeout then
      .ok { s with pc := .add, timer := some s.stages.length, stages := s.stages ++ [.armed] }
    else .ok { s with pc := .add, timer := none }
  | .add =>
    match s.io.addEvent c.fd c.event c.scheduler c.fiber none ok with
    | .error fault => .error fault
    | .ok (rt, io) =>
      if rt ≠ 0 then .ok { s.cancelTimer with io := io, pc := .returned }
      else .ok { s with io := io, pc := .yield }
  | .yield => .ok { s with pc := .parked }
  | .parked => if Queued c s then .ok { s with pc := .woken, taken := s.taken + 1 } else .ok s
  | .woken => .ok { s.cancelTimer with pc := .test }
  | .test => .ok { s with pc := if s.cancelled then .returned else if c.retries then .attempt else .returned }
  | .returned => .ok s

def step (c : Call φ) (s : Hook κ φ) : Action → Except Fault (Hook κ φ)
  | .call blocks ok => s.next c blocks ok
  | .emit n =>
    if s.stages[n]? = some .armed then .ok { s with stages := s.stages.set n .emitted } else .ok s
  | .check n =>
    if s.stages[n]? = some .emitted then
      -- `winfo.lock()` fails once the call has returned
      if s.pc = .returned ∨ s.cancelled = true then .ok { s with stages := s.stages.set n .fired }
      else .ok { s with cancelled := true, stages := s.stages.set n .inflight }
    else .ok s
  | .cancel n ok =>
    if s.stages[n]? = some .inflight then
      match s.io.cancelEvent c.fd c.event ok with
      | .error fault => .error fault
      | .ok (_, io) => .ok { s with io := io, stages := s.stages.set n .fired }
    else .ok s
  | .deliver fd mask ok =>
    match s.io.deliver fd mask ok with
    | .error fault => .error fault
    | .ok io => .ok { s with io := io }

/-- The fiber is parked, the callback of its timer has come to its end, and nothing has been queued
that would resume it. -/
def Lost (c : Call φ) (s : Hook κ φ) : Prop :=
  s.pc = .parked ∧ (∃ n, s.timer = some n ∧ s.stages[n]? = some .fired) ∧ ¬ Queued c s

/-- Between the return of `addEvent` and the test of `tinfo->cancelled`. -/
def Pc.Open (pc : Pc) : Prop := pc = .yield ∨ pc = .parked ∨ pc = .woken ∨ pc = .test

/-- A callback that finds the call going on and not cancelled does so in the round that armed its
timer, behind `addEvent`; and `epoll_ctl` does not fail in its `cancelEvent`. -/
def Timely (s : Hook κ φ) : Action → Prop
  | .check n => s.stages[n]? = some .emitted → s.pc ≠ .returned → s.cancelled = false →
      s.timer = some n ∧ s.pc.Open
  | .cancel _ ok => ok = true
  | _ => True

/-! ### The invariant -/

variable {c : Call φ} {s s' : Hook κ φ} {r r' : Registry κ φ}

/-- What happens to a registration is that it is pushed. -/
structure Advances (h : Handler κ φ) (p : Fd × Event) (r r' : Registry κ φ) : Prop where
  counts : r.pushed.count h ≤ r'.pushed.count h
  wakes : r.slots p = some h → r'.slots p = some h ∨ r.pushed.count h < r'.pushed.count h

theorem Advances.refl (h : Handler κ φ) (p : Fd × Event) (r : Registry κ φ) : Advances h p r r :=
  ⟨le_rfl, .inl⟩

theorem Advances.trans {h : Handler κ φ} {p : Fd × Event} {r₁ r₂ r₃ : Registry κ φ}
    (first : Advances h p r₁ r₂) (second : Advances h p r₂ r₃) : Advances h p r₁ r₃ where
  counts := first.counts.trans second.counts
  wakes held := by
    rcases first.wakes held with held | woken
    · exact (second.wakes held).imp_right first.counts.trans_lt
    · exact .inr (woken.trans_le second.counts)

theorem advances_push (h : Handler κ φ) (p : Fd × Event) (r : Registry κ φ) (fd : Fd) (event : Event) :
    Advances h p r (r.push fd event) := by
  have pushed : (r.push fd event).pushed = r.pushed ++ (r.slots (fd, event)).toList := rfl
  refine ⟨?_, fun held => ?_⟩
  · rw [pushed, List.count_append]
    omega
  · by_cases here : p = (fd, event)
    · right
      rw [pushed, ← here, held, List.count_append, Option.toList_some, List.count_singleton_self]
      omega
    · left
      exact (Function.update_of_ne here _ _).trans held

theorem advances_pushIf (h : Handler κ φ) (p : Fd × Event) (r : Registry κ φ) (fd : Fd) (event : Event)
    (test : Bool) : Advances h p r (r.pushIf fd event test) := by
  cases test with
  | false => exact .refl h p r
  | true => exact advances_push h p r fd event

theorem deliver_advances {fd : Fd} {mask : Mask} {ok : Bool} {io : IOManager κ φ} (h : Handler κ φ)
    (p : Fd × Event) (delivered : r.concrete.deliver fd mask ok = .ok io) :
    ∃ r' : Registry κ φ, io = r'.concrete ∧ Advances h p r r' := by
  rw [Registry.deliver_concrete] at delivered
  split at delivered
  · cases delivered
    exact ⟨r, rfl, .refl h p r⟩
  · split at delivered
    · cases delivered
      exact ⟨_, rfl, (advances_pushIf h p r fd .read _).trans (advances_pushIf h p _ fd .write _)⟩
    · cases delivered

def Call.waiter (c : Call φ) : Handler κ φ := (c.scheduler, .fiber c.fiber)

structure Kept (c : Call φ) (s : Hook κ φ) (r : Registry κ φ) : Prop where
  layout : s.io = r.concrete
  taken : s.taken ≤ wakeups c s.io
  registered : s.pc = .yield ∨ s.pc = .parked → r.slots (c.fd, c.event) = some c.waiter ∨ Queued c s
  fired : s.pc = .yield ∨ s.pc = .parked → ∀ n, s.timer = some n → s.stages[n]? = some .fired → Queued c s
  cancelled : s.cancelled = true → s.pc = .returned ∨
    s.pc.Open ∧ ∃ n, s.timer = some n ∧ (s.stages[n]? = some .inflight ∨ s.stages[n]? = some .fired)
  adding : s.pc = .add → ∀ n, s.timer = some n → s.stages[n]? = some .armed ∨ s.stages[n]? = some .emitted

theorem Kept.emit {n : Nat} (kept : Kept c s r) (armed : s.stages[n]? = some .armed) :
    Kept c { s with stages := s.stages.set n .emitted } r where
  layout := kept.layout
  taken := kept.taken
  registered := kept.registered
  fired waiting m timer fired := kept.fired waiting m timer (stage_of_set fired (by decide))
  cancelled now := by
    refine (kept.cancelled now).imp_right fun ⟨inside, m, timer, stage⟩ => ⟨inside, m, timer, ?_⟩
    exact stage.imp (fun stage => stage_set armed stage (by decide)) (fun stage => stage_set armed stage (by decide))
  adding here m timer := by
    by_cases same : n = m
    · subst same
      right
      exact List.getElem?_set_self (List.getElem?_eq_some_iff.mp armed).1
    · rw [List.getElem?_set_ne same]
      exact kept.adding here m timer

theorem Kept.checked {n : Nat} (kept : Kept c s r) (emitted : s.stages[n]? = some .emitted)
    (timer : s.timer = some n) (inside : s.pc.Open) :
    Kept c { s with cancelled := true, stages := s.stages.set n .inflight } r where
  layout := kept.layout
  taken := kept.taken
  registered := kept.registered
  fired waiting m timer fired := kept.fired waiting m timer (stage_of_set fired (by decide))
  cancelled _ := .inr ⟨inside, n, timer, .inl (List.getElem?_set_self (List.getElem?_eq_some_iff.mp emitted).1)⟩
  adding here := by
    rw [here] at inside
    rcases inside with pc | pc | pc | pc <;> cases pc

theorem Kept.skipped {n : Nat} (kept : Kept c s r) (emitted : s.stages[n]? = some .emitted)
    (nothing : s.pc = .returned ∨ s.cancelled = true) :
    Kept c { s with stages := s.stages.set n .fired } r := by
  have place : s.pc = .returned ∨
      s.pc.Open ∧ ∃ m, s.timer = some m ∧ (s.stages[m]? = some .inflight ∨ s.stages[m]? = some .fired) :=
    nothing.elim .inl kept.cancelled
  rcases place with gone | ⟨inside, m, timer, stage⟩
  · refine ⟨kept.layout, kept.taken, kept.registered, ?_, fun _ => .inl gone, ?_⟩
    · intro waiting
      rw [gone] at waiting
      rcases waiting with pc | pc <;> cases pc
    · intro here
      cases gone.symm.trans here
  · -- the callback that set `cancelled` is that of the current timer, and this is another one
    have other : n ≠ m := by
      rintro rfl
      rw [emitted] at stage
      rcases stage with stage | stage <;> cases stage
    refine ⟨kept.layout, kept.taken, kept.registered, ?_, fun _ => .inr ⟨inside, m, timer, ?_⟩, ?_⟩
    · intro waiting m' timer' fired
      cases timer.symm.trans timer'
      rw [List.getElem?_set_ne other] at fired
      exact kept.fired waiting m timer fired
    · rwa [List.getElem?_set_ne other]
    · intro here
      rw [here] at inside
      rcases inside with pc | pc | pc | pc <;> cases pc

/-- What other threads do to the registrations. -/
theorem Kept.advance (kept : Kept c s r) (advances : Advances c.waiter (c.fd, c.event) r r') :
    Kept c { s with io := r'.concrete } r' := by
  have more : wakeups c s.io ≤ wakeups c r'.concrete := by
    rw [kept.layout]
    exact advances.counts
  have still (queued : Queued c s) : Queued c { s with io := r'.concrete } := Nat.lt_of_lt_of_le queued more
  refine ⟨rfl, kept.taken.trans more, ?_, ?_, kept.cancelled, kept.adding⟩
  · intro waiting
    rcases kept.registered waiting with held | queued
    · refine (advances.wakes held).imp_right fun woken => ?_
      refine Nat.lt_of_le_of_lt kept.taken ?_
      rw [kept.layout]
      exact woken
    · exact .inr (still queued)
  · intro waiting n timer fired
    exact still (kept.fired waiting n timer fired)

/-- `cancelEvent` in the callback leaves a wake-up in the queue. -/
theorem Kept.cancelled_event {n : Nat} {rt : Bool} {io : IOManager κ φ} (kept : Kept c s r)
    (inflight : s.stages[n]? = some .inflight)
    (cancelled : s.io.cancelEvent c.fd c.event true = .ok (rt, io)) :
    Kept c { s with io := io, stages := s.stages.set n .fired } (r.push c.fd c.event) := by
  have pushed : io = (r.push c.fd c.event).concrete := by
    rw [kept.layout, Registry.cancelEvent_concrete, Bool.and_true] at cancelled
    cases found : r.slots (c.fd, c.event) with
    | none =>
      rw [found] at cancelled
      cases cancelled
      rw [Registry.push_empty found]
    | some h =>
      rw [found] at cancelled
      cases cancelled
      rfl
  subst pushed
  have after := kept.advance (advances_push c.waiter (c.fd, c.event) r c.fd c.event)
  have queued (waiting : s.pc = .yield ∨ s.pc = .parked) :
      Queued c { s with io := (r.push c.fd c.event).concrete } := by
    refine (after.registered waiting).resolve_left fun held => ?_
    have free : (r.push c.fd c.event).slots (c.fd, c.event) = none := Function.update_self ..
    cases free.symm.trans held
  refine ⟨rfl, after.taken, fun waiting => .inr (queued waiting), fun waiting _ _ _ => queued waiting, ?_, ?_⟩
  · intro now
    refine (kept.cancelled now).imp_right fun ⟨inside, m, timer, stage⟩ => ⟨inside, m, timer, ?_⟩
    by_cases same : n = m
    · subst same
      exact .inr (List.getElem?_set_self (List.getElem?_eq_some_iff.mp inflight).1)
    · rwa [List.getElem?_set_ne same]
  · intro here m timer
    have stage := kept.adding here m timer
    exact stage.imp (fun stage => stage_set inflight stage (by decide))
      (fun stage => stage_set inflight stage (by decide))

/-- Where nothing is registered or armed that matters. -/
theorem Kept.outside (layout : s.io = r.concrete) (taken : s.taken ≤ wakeups c s.io)
    (pc : s.pc ≠ .yield ∧ s.pc ≠ .parked ∧ s.pc ≠ .add)
    (cancelled : s.cancelled = true → s.pc = .returned ∨
      s.pc.Open ∧ ∃ n, s.timer = some n ∧ (s.stages[n]? = some .inflight ∨ s.stages[n]? = some .fired)) :
    Kept c s r where
  layout := layout
  taken := taken
  registered waiting := (waiting.elim pc.1 pc.2.1).elim
  fired waiting := (waiting.elim pc.1 pc.2.1).elim
  cancelled := cancelled
  adding here := (pc.2.2 here).elim

/-- The timer whose callback has set `cancelled` is the current one, wherever the call goes on. -/
theorem Kept.cancelled_at {pc : Pc} (kept : Kept c s r) (going : s.pc ≠ .returned) (inside : pc.Open)
    (now : s.cancelled = true) : pc = .returned ∨
      pc.Open ∧ ∃ n, s.timer = some n ∧ (s.stages[n]? = some .inflight ∨ s.stages[n]? = some .fired) :=
  .inr ⟨inside, ((kept.cancelled now).resolve_left going).2⟩

/-- `addEvent` puts the fiber into the slot before anything of this round has fired. -/
theorem Kept.added {blocks ok : Bool} (kept : Kept c s r) (pc : s.pc = .add) (calm : ¬ s.cancelled = true)
    (moved : s.next c blocks ok = .ok s') :
    ∃ r', Kept c s' r' := by
  rw [next, pc] at moved
  dsimp only at moved
  rw [kept.layout, Registry.addEvent_concrete] at moved
  split at moved
  · cases moved
  · rename_i rt io added
    obtain ⟨io_eq, cancelled_eq, timer_eq, taken_eq⟩ := s.cancelTimer_frame
    split at added
    · cases added
    · rename_i free
      split at added
      · cases added
        cases moved
        refine ⟨r, .outside rfl ?_ (by simp) fun _ => .inl rfl⟩
        rw [taken_eq, ← kept.layout]
        exact kept.taken
      · split at added
        · rename_i real
          cases added
          cases moved
          have taken := kept.taken
          rw [kept.layout] at taken
          refine ⟨_, rfl, taken, ?_, ?_, fun now => (calm now).elim, by simp⟩
          · exact fun _ => .inl (Function.update_self ..)
          · intro _ n timer fired
            rcases kept.adding pc n timer with armed | emitted
            · cases armed.symm.trans fired
            · cases emitted.symm.trans fired
        · cases added

theorem Kept.call {blocks ok : Bool} (kept : Kept c s r) (moved : s.next c blocks ok = .ok s') :
    ∃ r', Kept c s' r' := by
  have calm (outside : ¬ s.pc.Open) (going : s.pc ≠ .returned) (now : s.cancelled = true) : False :=
    (kept.cancelled now).elim going fun inside => outside inside.1
  cases pc : s.pc with
  | attempt =>
    rw [next, pc] at moved
    cases moved
    refine ⟨r, .outside kept.layout kept.taken ?_ fun now => (calm (by simp [pc, Pc.Open]) (by simp [pc]) now).elim⟩
    dsimp only
    split
    · decide
    · decide
  | arm =>
    rw [next, pc] at moved
    dsimp only at moved
    have calm := calm (by simp [pc, Pc.Open]) (by simp [pc])
    split at moved
    · cases moved
      refine ⟨r, kept.layout, kept.taken, by simp, by simp, fun now => (calm now).elim, ?_⟩
      intro _ n timer
      cases timer
      left
      exact List.getElem?_concat_length
    · cases moved
      exact ⟨r, kept.layout, kept.taken, by simp, by simp, fun now => (calm now).elim, by simp⟩
  | add =>
    exact kept.added pc (calm (by simp [pc, Pc.Open]) (by simp [pc])) moved
  | yield =>
    rw [next, pc] at moved
    cases moved
    refine ⟨r, kept.layout, kept.taken, fun _ => kept.registered (.inl pc), fun _ => kept.fired (.inl pc), ?_,
      by simp⟩
    exact kept.cancelled_at (by simp [pc]) (.inr (.inl rfl))
  | parked =>
    rw [next, pc] at moved
    dsimp only at moved
    split at moved
    · rename_i queued
      cases moved
      exact ⟨r, .outside kept.layout queued (by simp) (kept.cancelled_at (by simp [pc]) (.inr (.inr (.inl rfl))))⟩
    · cases moved
      exact ⟨r, kept⟩
  | woken =>
    rw [next, pc] at moved
    cases moved
    obtain ⟨io_eq, cancelled_eq, timer_eq, taken_eq⟩ := s.cancelTimer_frame
    refine ⟨r, .outside (io_eq.trans kept.layout) ?_ (by simp) fun now => ?_⟩
    · rw [taken_eq, io_eq]
      exact kept.taken
    · have inside : Pc.Open .test := .inr (.inr (.inr rfl))
      rw [cancelled_eq] at now
      rw [timer_eq]
      rcases kept.cancelled_at (by simp [pc]) inside now with ended | ⟨inside, n, timer, stage⟩
      · exact .inl ended
      · refine .inr ⟨inside, n, timer, ?_⟩
        exact stage.imp (fun stage => cancelTimer_stage stage (by decide))
          (fun stage => cancelTimer_stage stage (by decide))
  | test =>
    rw [next, pc] at moved
    cases moved
    refine ⟨r, .outside kept.layout kept.taken ?_ fun now => .inl ?_⟩
    · dsimp only
      split
      · decide
      · split <;> decide
    · exact if_pos now
  | returned =>
    rw [next, pc] at moved
    cases moved
    exact ⟨r, kept⟩

theorem Kept.step {a : Action} (kept : Kept c s r) (timely : Timely s a) (moved : s.step c a = .ok s') :
    ∃ r', Kept c s' r' := by
  cases a with
  | call blocks ok => exact kept.call moved
  | emit n =>
    unfold Hook.step at moved
    dsimp only at moved
    split at moved
    · rename_i armed
      cases moved
      exact ⟨r, kept.emit armed⟩
    · cases moved
      exact ⟨r, kept⟩
  | check n =>
    unfold Hook.step at moved
    dsimp only at moved
    split at moved
    · rename_i emitted
      split at moved
      · rename_i nothing
        cases moved
        exact ⟨r, kept.skipped emitted nothing⟩
      · rename_i going
        obtain ⟨going, uncancelled⟩ := not_or.mp going
        cases moved
        obtain ⟨timer, inside⟩ := timely emitted going (Bool.not_eq_true _ ▸ uncancelled)
        exact ⟨r, kept.checked emitted timer inside⟩
    · cases moved
      exact ⟨r, kept⟩
  | cancel n ok =>
    obtain rfl : ok = true := timely
    unfold Hook.step at moved
    dsimp only at moved
    split at moved
    · rename_i inflight
      split at moved
      · cases moved
      · rename_i cancelled
        cases moved
        exact ⟨_, kept.cancelled_event inflight cancelled⟩
    · cases moved
      exact ⟨r, kept⟩
  | deliver fd mask ok =>
    unfold Hook.step at moved
    dsimp only at moved
    split at moved
    · cases moved
    · rename_i io delivered
      cases moved
      rw [kept.layout] at delivered
      obtain ⟨r', rfl, advances⟩ := deliver_advances c.waiter (c.fd, c.event) delivered
      exact ⟨r', kept.advance advances⟩

/-! ### Runs -/

/-- In a run in which every callback that sets `cancelled` does so in its own round behind `addEvent`,
and in which its `epoll_ctl` succeeds, the call never loses its timeout. -/
theorem timeout_kept {ops : List (Op κ φ × Bool)} {io : IOManager κ φ} {actions : List Action}
    (reached : Run IOManager.Step IOManager.new ops io)
    (run : Run (fun s a s' => Timely s a ∧ s.step c a = .ok s') (start c io) actions s) : ¬ Lost c s := by
  obtain ⟨r, layout⟩ := run_concrete reached
  obtain ⟨r', kept⟩ : ∃ r', Kept c s r' := by
    refine run.invariant (I := fun s => ∃ r, Kept c s r) ?_ ?_
    · rintro s a s' ⟨r, kept⟩ ⟨timely, moved⟩
      exact kept.step timely moved
    · exact ⟨r, .outside layout le_rfl (by simp [start]) (by simp [start])⟩
  rintro ⟨parked, ⟨n, timer, fired⟩, lost⟩
  exact lost (kept.fired (.inr parked) n timer fired)

/-- The timer of `do_io` fires while the fiber is parked. -/
theorem timeout_kept_parked :
    ∃ s : Hook Nat Nat, Run (fun s a s' => Timely s a ∧ s.step (doIo 3 .read 0 7 true) a = .ok s')
      (start (doIo 3 .read 0 7 true) IOManager.new)
      [.call true true, .call true true, .call true true, .call true true, .emit 0, .check 0, .cancel 0 true] s ∧
      s.pc = .parked ∧ s.timer = some 0 ∧ s.stages[0]? = some .fired ∧ ¬ Lost (doIo 3 .read 0 7 true) s := by
  have run : Run (fun s a s' => Timely s a ∧ s.step (doIo 3 .read 0 7 true) a = .ok s')
      (start (doIo 3 .read 0 7 true) (IOManager.new : IOManager Nat Nat)) [.call true true] _ :=
    Run.nil.snoc ⟨trivial, rfl⟩
  have run := run.snoc (a := .call true true) ⟨by trivial, rfl⟩
  have run := run.snoc (a := .call true true) ⟨by trivial, rfl⟩
  have run := run.snoc (a := .call true true) ⟨by trivial, rfl⟩
  have run := run.snoc (a := .emit 0) ⟨by trivial, rfl⟩
  have run := run.snoc (a := .check 0) ⟨by exact fun _ _ _ => ⟨rfl, .inr (.inl rfl)⟩, rfl⟩
  have run := run.snoc (a := .cancel 0 true) ⟨by rfl, rfl⟩
  exact ⟨_, run, rfl, rfl, rfl, timeout_kept .nil run⟩

/-- The timer fires before the event is registered: its `cancelEvent` finds nothing to cancel. -/
def firesEarly : List Action :=
  [.call true true, .call true true, .emit 0, .check 0, .cancel 0 true, .call true true, .call true true]

theorem lost_of_seen {actions : List Action} {io : IOManager κ φ}
    (seen : (actions.foldlM (step c) (start c io)).toOption.map (fun s : Hook κ φ =>
      (s.pc, s.timer, s.stages, decide (Queued c s))) = some (.parked, some 0, [.fired], false)) :
    ∃ s : Hook κ φ, Run (fun s a s' => s.step c a = .ok s') (start c io) actions s ∧ Lost c s := by
  obtain ⟨s, run, seen⟩ := Run.of_seen seen
  simp only [Prod.mk.injEq, decide_eq_false_iff_not] at seen
  obtain ⟨parked, timer, stages, unqueued⟩ := seen
  exact ⟨s, run, parked, ⟨0, timer, by rw [stages]; rfl⟩, unqueued⟩

theorem timeout_lost :
    (∃ s : Hook Nat Nat, Run (fun s a s' => s.step (doIo 3 .read 0 7 true) a = .ok s')
      (start (doIo 3 .read 0 7 true) IOManager.new) firesEarly s ∧ Lost (doIo 3 .read 0 7 true) s) ∧
    ∃ s : Hook Nat Nat, Run (fun s a s' => s.step (connectWithTimeout 3 0 7 true) a = .ok s')
      (start (connectWithTimeout 3 0 7 true) IOManager.new) firesEarly s ∧
      Lost (connectWithTimeout 3 0 7 true) s :=
  ⟨lost_of_seen (by decide), lost_of_seen (by decide)⟩

end Hook

end Cool
