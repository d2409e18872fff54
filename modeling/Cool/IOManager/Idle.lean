import Cool.Timer.Expiry
import Cool.Timer.Front

/-!
# How long `idle` waits

`idle` asks `stopping(next_timeout)` for the time to the next deadline. The parameter is a copy, so `next_timeout`
stays 0 and every `epoll_wait` returns at once. That is what should happen when a timer is due, and only then.
-/

namespace Cool.IOManager

open TimerManager

/-- What an iteration of `idle` finds: the time at `getNextTimer`, what the other two tests of `stopping` read, and how
often `epoll_wait` is interrupted. -/
structure Iteration where
  now : Nat
  pendingEventCount : Nat
  schedulerStopping : Bool
  interruptions : Nat
  deriving DecidableEq, Repr

/-- `stopping(timeout)`, with the value of its parameter at the end. -/
def stopping (m : TimerManager) (i : Iteration) (_timeout : Nat) : Bool × Nat :=
  let timeout := (m.getNextTimer i.now).1
  (timeout == 2 ^ 64 - 1 && i.pendingEventCount == 0 && i.schedulerStopping, timeout)

def maxTimeout : Nat := 3000

/-- The first statement of the inner loop. -/
def clamp (nextTimeout : Nat) : Nat := if nextTimeout ≠ 2 ^ 64 - 1 then min nextTimeout maxTimeout else maxTimeout

/-- The timeouts of the calls of `epoll_wait`, of which all but the last are interrupted. -/
def epollWaits (nextTimeout : Nat) : Nat → List Nat
  | 0 => [clamp nextTimeout]
  | interruptions + 1 => clamp nextTimeout :: epollWaits (clamp nextTimeout) interruptions

/-- The timeouts of an iteration that does not exit. -/
def idleTimeouts (m : TimerManager) (i : Iteration) : Option (List Nat) :=
  let nextTimeout := 0
  -- The call cannot change `next_timeout`.
  if (stopping m i nextTimeout).1 then none else some (epollWaits nextTimeout i.interruptions)

variable {m : TimerManager} {i : Iteration} {now : Nat} {timeouts : List Nat}

theorem epollWaits_zero (interruptions : Nat) :
    epollWaits 0 interruptions ≠ [] ∧ ∀ timeout ∈ epollWaits 0 interruptions, timeout = 0 := by
  induction interruptions with
  | zero => exact ⟨List.cons_ne_nil _ _, fun _ member => List.mem_singleton.mp member⟩
  | succ interruptions ih =>
    refine ⟨List.cons_ne_nil _ _, fun timeout member => ?_⟩
    rcases List.mem_cons.mp member with rfl | later
    · rfl
    · exact ih.2 timeout later

theorem getNextTimer_eq_zero :
    (m.getNextTimer now).1 = 0 ↔ ∃ first rest, m.timers = first :: rest ∧ (key m.heap first).1 ≤ now := by
  unfold getNextTimer
  cases timers : m.timers with
  | nil => simp
  | cons first rest =>
    dsimp only
    constructor
    · intro zero
      refine ⟨first, rest, rfl, ?_⟩
      split at zero <;> omega
    · rintro ⟨_, _, same, due⟩
      obtain ⟨rfl, _⟩ := List.cons.inj same
      exact if_pos due

theorem getNextTimer_due (sound : Sound m) :
    (m.getNextTimer now).1 = 0 ↔ ∃ id ∈ m.timers, (key m.heap id).1 ≤ now := by
  rw [getNextTimer_eq_zero]
  constructor
  · rintro ⟨first, rest, timers, due⟩
    exact ⟨first, by simp [timers], due⟩
  · rintro ⟨id, member, due⟩
    have order := sound.deadlines
    cases timers : m.timers with
    | nil =>
      rw [timers] at member
      cases member
    | cons first rest =>
      rw [timers] at order member
      refine ⟨first, rest, rfl, ?_⟩
      rcases List.mem_cons.mp member with rfl | later
      · exact due
      · exact Nat.le_trans ((List.pairwise_cons.mp order).1 id later) due

/-- On every state of the timer set an iteration waits for the time to the next deadline, or for three seconds if
that is less, exactly when the first timer is due. It always calls `epoll_wait`, and never waits. -/
theorem idle_timeout_iff (going : idleTimeouts m i = some timeouts) :
    ((∀ timeout ∈ timeouts, timeout = min (m.getNextTimer i.now).1 maxTimeout) ↔ (m.getNextTimer i.now).1 = 0) ∧
      (Sound m → ((m.getNextTimer i.now).1 = 0 ↔ ∃ id ∈ m.timers, (key m.heap id).1 ≤ i.now)) ∧
      timeouts ≠ [] ∧ ∀ timeout ∈ timeouts, timeout = 0 := by
  unfold idleTimeouts at going
  dsimp only at going
  split at going
  · cases going
  obtain rfl := Option.some.inj going
  obtain ⟨called, zero⟩ := epollWaits_zero i.interruptions
  refine ⟨⟨fun right => ?_, fun due timeout member => ?_⟩, getNextTimer_due, called, zero⟩
  · obtain ⟨timeout, member⟩ := List.exists_mem_of_ne_nil _ called
    have least : min (m.getNextTimer i.now).1 maxTimeout = 0 := (right timeout member).symm.trans (zero timeout member)
    rw [maxTimeout] at least
    omega
  · rw [zero timeout member, due, Nat.zero_min]

/-- A timer that is due at time 20. -/
theorem idle_timeout_iff_due :
    idleTimeouts threeTimers ⟨20, 0, true, 1⟩ = some [0, 0] ∧ 0 = min (threeTimers.getNextTimer 20).1 maxTimeout := by
  have going : idleTimeouts threeTimers ⟨20, 0, true, 1⟩ = some [0, 0] := by decide
  exact ⟨going, (idle_timeout_iff going).1.mpr (by decide) 0 List.mem_cons_self⟩

/-- With an event pending and no timer, and with a timer in ten seconds, `epoll_wait` should wait for three seconds
and does not wait at all. -/
theorem idle_spins :
    idleTimeouts (TimerManager.new 0) ⟨0, 1, false, 0⟩ = some [0] ∧
      min ((TimerManager.new 0).getNextTimer 0).1 maxTimeout = 3000 ∧
      idleTimeouts ⟨[⟨false, 10000, 10000, some 1, 64⟩], [0], false, 0⟩ ⟨0, 0, false, 0⟩ = some [0] ∧
      min ((⟨[⟨false, 10000, 10000, some 1, 64⟩], [0], false, 0⟩ : TimerManager).getNextTimer 0).1 maxTimeout = 3000 := by
  decide

end Cool.IOManager
