import Cool.Timer.History

/-!
# `listExpiredCb` on several threads

`listExpiredCb` tests `m_timers` for emptiness under a read lock, lets go of it, and takes the write
lock for the rest. Between the two any other locked section may run. The test is then out of date,
and the use of `begin()` that relies on it is safe only if no thread takes the last timer out of the
set in the meantime.
-/

namespace Cool.TimerManager

open Foundation

/-- `tested` gives, for a thread between the two locks of `listExpiredCb`, the time it has read. -/
structure Threads where
  manager : TimerManager
  tested : Nat → Option Nat
  log : List Entry

namespace Threads

def new (start : Nat) : Threads := ⟨TimerManager.new start, fun _ => none, []⟩

inductive Action where
  | test (thread now : Nat)
  | list (thread addr : Nat)
  | call (now : Nat) (c : Call)

/-- The read-locked test; a thread that finds the set empty returns. -/
def test (s : Threads) (thread now : Nat) : Threads :=
  if s.manager.timers.isEmpty then s else { s with tested := Function.update s.tested thread (some now) }

def commit (s : Threads) (now : Nat) (c : Call) (o : Outcome) : Threads :=
  { s with manager := s.manager.applyAll o.writes, log := s.log ++ [⟨now, c, o⟩] }

inductive Step (s : Threads) : Action → Threads → Prop where
  | test {thread now : Nat} (idle : s.tested thread = none) : Step s (.test thread now) (s.test thread now)
  | list {thread addr now : Nat} {o : Outcome} (tested : s.tested thread = some now)
      (returned : s.manager.locked now (.listExpiredCb addr) = .ok o) :
      Step s (.list thread addr)
        ({ s with tested := Function.update s.tested thread none }.commit now (.listExpiredCb addr) o)
  | call {now : Nat} {c : Call} {o : Outcome} (other : ∀ addr, c ≠ .listExpiredCb addr)
      (allowed : Allowed s.manager c) (returned : s.manager.locked now c = .ok o) :
      Step s (.call now c) (s.commit now c o)

/-- A step takes the last timer out of the set only while no other thread is between the two locks
of `listExpiredCb`. -/
def Guarded (s : Threads) (a : Action) (s' : Threads) : Prop :=
  s.Step a s' ∧ (s.manager.timers ≠ [] → s'.manager.timers = [] → ∀ thread, s'.tested thread = none)

end Threads

variable {m : TimerManager} {id : TimerId} {t : Timer} {now : Nat} {c : Call} {o : Outcome}

/-- The call has given the timer a new deadline. -/
def Entry.Arms (e : Entry) (id : TimerId) : Prop := ∃ next, .setNext id next ∈ e.outcome.writes

/-- The call that emits a recurring timer arms it again. -/
theorem Effect.arms (effect : Effect m now c o) (emits : Entry.Emits ⟨now, c, o⟩ id)
    (found : m.heap[id]? = some t) (again : t.recurring = true) : Entry.Arms ⟨now, c, o⟩ id := by
  cases effect with
  | @expired addr _ leaves writes emitted =>
    have expires : id ∈ m.expireds now addr := by simpa [Entry.Emits, emitted] using emits
    have turn : .setNext id (u64 (now + t.ms)) ∈ m.rearm now id := by
      unfold rearm
      simp [found, again]
    refine ⟨u64 (now + t.ms), ?_⟩
    show _ ∈ o.writes
    rw [writes, expireWrites]
    exact List.mem_cons_of_mem _ (List.mem_append_right _ (List.mem_flatMap.mpr ⟨id, expires, turn⟩))
  | refused => simp [Entry.Emits] at emits
  | _ =>
    rename o.emitted = [] => silent
    simp [Entry.Emits, silent] at emits

namespace Threads

/-- No timer is emitted twice for one arming: once by a call, and by no later call unless the
earlier one has armed it again. -/
def Once (past : List Entry) (e : Entry) : Prop :=
  ∀ id, e.Emits id → (e.outcome.emitted.map Prod.fst).Nodup ∧ ∀ first ∈ past, first.Emits id → first.Arms id

structure Safe (s : Threads) : Prop where
  good : Good s.manager
  ended : ∀ e ∈ s.log, Over s.manager e
  armed : ∀ e ∈ s.log, ∀ id t, e.Emits id → s.manager.heap[id]? = some t → t.recurring = true → e.Arms id
  once : EachAfter Once s.log
  ready : ∀ thread now, s.tested thread = some now → s.manager.timers ≠ []

theorem new_safe (start : Nat) : Safe (new start) where
  good := new_good start
  ended := by simp [new]
  armed := by simp [new]
  once := EachAfter.nil
  ready := by simp [new]

/-- What a write-locked section keeps, apart from the threads' tests. -/
theorem Safe.commit {s : Threads} (safe : Safe s) (effect : Effect s.manager now c o)
    (ready : ∀ thread now, s.tested thread = some now → (s.manager.applyAll o.writes).timers ≠ []) :
    Safe (s.commit now c o) where
  good := effect.good safe.good
  ended := by
    intro e member
    rcases List.mem_append.mp member with old | new
    · exact effect.over_past (safe.ended e old)
    · exact List.mem_singleton.mp new ▸ effect.over_now safe.good
  armed := by
    intro e member id t' emits found' again
    rcases List.mem_append.mp member with old | new
    · obtain ⟨t, found, _⟩ := (safe.ended e old id).2 emits
      obtain ⟨t'', found'', kind, _⟩ := effect.keeps found
      obtain rfl := Option.some.inj (found'.symm.trans found'')
      exact safe.armed e old id t emits found (kind ▸ again)
    · rw [List.mem_singleton.mp new] at emits ⊢
      obtain ⟨addr, _, expires, _⟩ := effect.emits emits
      obtain ⟨t, found⟩ := safe.good.known id (mem_of_expires (.inr ⟨expires, trivial⟩))
      obtain ⟨t'', found'', kind, _⟩ := effect.keeps found
      obtain rfl := Option.some.inj (found'.symm.trans found'')
      exact effect.arms emits found (kind ▸ again)
  once := by
    refine safe.once.snoc fun id emits => ?_
    obtain ⟨addr, _, expires, ids⟩ := effect.emits emits
    have nodup := safe.good.nodup
    rw [← expireds_append s.manager now addr] at nodup
    refine ⟨ids ▸ (List.nodup_append.mp nodup).1, fun first member emits' => ?_⟩
    -- the timer is in the set, so its earlier emission has not been its last
    have inside : id ∈ s.manager.timers := mem_of_expires (.inr ⟨expires, trivial⟩)
    obtain ⟨t, found, last⟩ := (safe.ended first member id).2 emits'
    refine safe.armed first member id t emits' found ?_
    by_contra oneShot
    obtain ⟨_, _, _, out⟩ := last (Bool.eq_false_iff.mpr oneShot)
    exact out inside
  ready := ready

theorem Safe.step {s s' : Threads} {a : Action} (safe : Safe s) (guarded : Guarded s a s') : Safe s' := by
  obtain ⟨step, guard⟩ := guarded
  cases step with
  | @test thread now idle =>
    unfold test
    split
    · exact safe
    · rename_i filled
      exact { safe with ready := fun _ _ _ empty => filled (List.isEmpty_iff.mpr empty) }
  | @list thread addr now o tested returned =>
    have filled := safe.ready thread now tested
    obtain ⟨o', returned', effect⟩ := listExpiredLocked_effect safe.good now addr (.inr filled)
    obtain rfl := Except.ok.inj (returned.symm.trans returned')
    have started : Safe { s with tested := Function.update s.tested thread none } :=
      { safe with ready := fun _ _ _ => filled }
    refine started.commit effect fun u now' pending empty => ?_
    cases (guard filled empty u).symm.trans pending
  | @call now c o other allowed returned =>
    obtain ⟨o', returned', effect⟩ :=
      locked_effect safe.good now allowed fun addr same => absurd same (other addr)
    obtain rfl := Except.ok.inj (returned.symm.trans returned')
    refine safe.commit effect fun u now' pending empty => ?_
    cases (guard (safe.ready u now' pending) empty u).symm.trans pending

/-- As long as no thread takes the last timer out of the set while another is between the two locks
of `listExpiredCb`, the write-locked part never uses `begin()` of an empty set, and no timer is
emitted twice for one arming. -/
theorem listExpired_safe {start : Nat} {actions : List Action} {s : Threads}
    (run : Run Guarded (new start) actions s) :
    (∀ thread now addr, s.tested thread = some now → ∃ o, s.manager.listExpiredLocked now addr = .ok o) ∧
    ∀ past e post id, s.log = past ++ e :: post → e.Emits id →
      (e.outcome.emitted.map Prod.fst).Nodup ∧ ∀ first ∈ past, first.Emits id → first.Arms id := by
  have safe : Safe s := run.invariant (fun _ _ _ safe step => safe.step step) (new_safe start)
  refine ⟨fun thread now addr tested => ?_, fun past e post id entry => safe.once past e post entry id⟩
  obtain ⟨o, returned, _⟩ :=
    listExpiredLocked_effect safe.good now addr (.inr (safe.ready thread now tested))
  exact ⟨o, returned⟩

/-- Two threads pass the test, and one of them lists the timers before the other. -/
def twoTests (recurring : Bool) : List Action :=
  [] ++ [.call 0 (.addTimer 64 10 (some 1) recurring)] ++ [.test 0 10] ++ [.test 1 10] ++ [.list 0 48]

theorem listExpired_safe_recurring :
    ∃ s, Run Guarded (new 0) (twoTests true) s ∧ s.tested 1 = some 10 ∧
      ∃ o, s.manager.listExpiredLocked 10 48 = .ok o := by
  have run : Run Guarded (new 0) (twoTests true) _ :=
    (((Run.nil.snoc ⟨.call (by simp) (by decide) rfl, fun _ empty => absurd empty (by decide)⟩).snoc
      ⟨.test rfl, fun _ empty => absurd empty (by decide)⟩).snoc
      ⟨.test rfl, fun _ empty => absurd empty (by decide)⟩).snoc
      ⟨.list rfl rfl, fun _ empty => absurd empty (by decide)⟩
  exact ⟨_, run, rfl, (listExpired_safe run).1 1 10 48 rfl⟩

/-- With a one-shot timer the first thread takes it out, and the second finds an empty set. -/
theorem listExpired_empty_set :
    ∃ s, Run Step (new 0) (twoTests false) s ∧ s.tested 1 = some 10 ∧
      s.manager.listExpiredLocked 10 48 = .error .derefEmpty :=
  ⟨_, (((Run.nil.snoc (.call (by simp) (by decide) rfl)).snoc (.test rfl)).snoc (.test rfl)).snoc
    (.list rfl rfl), rfl, rfl⟩

end Threads

end Cool.TimerManager
