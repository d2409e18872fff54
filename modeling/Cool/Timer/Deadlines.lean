import Cool.Hook.Calls
import Cool.Timer.Expiry

/-!
# Deadlines wrap

A timer is armed by a call at time `now` for a period `ms`: when it is created, refreshed, reset from now, and when
it recurs. Its deadline is the sum in 64 bits, which lies before `now` if it wraps. Such periods come from `nanosleep`,
whose `int timeout_ms` is negative for a sleep of 25 days.
-/

namespace Cool.TimerManager

open Foundation

/-- The calls that arm a timer, and the period they arm it for. -/
inductive Arms (m : TimerManager) (now : Nat) : Call → TimerId → Nat → Prop
  | created {addr ms : Nat} {cb : Option Callback} {recurring : Bool} :
      Arms m now (.addTimer addr ms cb recurring) m.heap.length ms
  | refreshed {id : TimerId} {t : Timer} (found : m.heap[id]? = some t) (present : t.cb.isSome = true) :
      Arms m now (.refresh id) id t.ms
  | reset {id : TimerId} {t : Timer} {ms : Nat} (found : m.heap[id]? = some t) (present : t.cb.isSome = true) :
      Arms m now (.reset id ms true) id ms
  | recurs {addr : Nat} {id : TimerId} {t : Timer} (member : id ∈ m.timers) (overdue : Overdue m now id)
      (found : m.heap[id]? = some t) (recurring : t.recurring = true) : Arms m now (.listExpiredCb addr) id t.ms

/-- A call at time `now` that arms a timer for `ms` gives it the deadline `next`. -/
def Armed (now ms next : Nat) : Prop :=
  ∃ m c o id, Good m ∧ Allowed m c ∧ m.call now c = .ok o ∧ Arms m now c id ms ∧ (key (m.applyAll o.writes).heap id).1 = next

variable {m : TimerManager} {id : TimerId} {t : Timer} {c : Call} {o : Outcome} {now ms ms' next next' : Nat}

theorem key_of_found {heap : List Timer} (found : heap[id]? = some t) : (key heap id).1 = t.next := by
  rw [key, found]
  rfl

theorem key_modify (found : m.heap[id]? = some t) (f : Timer → Timer) :
    (key (m.heap.modify id f) id).1 = (f t).next := by
  refine key_of_found ?_
  rw [getElem?_modify_ite, if_pos rfl, found]
  rfl

/-- `refresh` and `reset` are refused only without a callback. -/
theorem callback_present {t' : Timer} (found : m.heap[id]? = some t) (present : t.cb.isSome = true)
    (found' : m.heap[id]? = some t') : t'.cb ≠ none := by
  obtain rfl := Option.some.inj (found.symm.trans found')
  exact Option.isSome_iff_ne_none.mp present

theorem Arms.deadline (good : Good m) (allowed : Allowed m c) (called : m.call now c = .ok o) (arms : Arms m now c id ms) :
    (key (m.applyAll o.writes).heap id).1 = u64 (now + ms) := by
  obtain ⟨o', same, does⟩ := call_effect good now allowed
  obtain rfl : o' = o := Except.ok.inj (same.symm.trans called)
  cases arms with
  | created =>
    rcases does with ⟨_, skips⟩ | effect
    · cases skips
    · cases effect with
      | added leaves =>
        rw [leaves.heap_eq]
        exact key_of_found (List.getElem?_concat_length)
      | refused on => rcases on with on | on | ⟨_, _, on⟩ <;> cases on
  | refreshed found present =>
    rcases does with ⟨_, skips⟩ | effect
    · cases skips
    · cases effect with
      | refused on found' gone =>
        rcases on with on | on | ⟨_, _, on⟩ <;> cases on
        exact absurd gone (callback_present found present found')
      | refreshed found' _ leaves =>
        obtain rfl := Option.some.inj (found.symm.trans found')
        rw [leaves.heap_eq]
        exact key_modify found _
  | reset found present =>
    rcases does with ⟨_, skips⟩ | effect
    · cases skips
    · cases effect with
      | refused on found' gone =>
        rcases on with on | on | ⟨_, _, on⟩ <;> cases on
        exact absurd gone (callback_present found present found')
      | moved _ _ leaves =>
        rw [leaves.heap_eq]
        exact key_modify found _
  | recurs member overdue found recurring =>
    rename_i addr t
    obtain ⟨o'', same', outcome⟩ := listExpiredCb_cases good.toSound now addr
    obtain rfl : o'' = o' := Except.ok.inj (same'.symm.trans called)
    rcases outcome with ⟨idle, _⟩ | ⟨emitted, writes⟩
    · exact absurd overdue (idle id member)
    · rw [(expires_writes good.toSound good.known emitted writes).heap]
      refine (key_of_found (t := rearmed now t) ?_).trans ?_
      · rw [List.getElem?_mapIdx, found]
        simp [member, overdue]
      · rw [rearmed, if_pos recurring]

theorem Armed.next_eq (armed : Armed now ms next) : next = u64 (now + ms) := by
  obtain ⟨m, c, o, id, good, allowed, called, arms, rfl⟩ := armed
  exact arms.deadline good allowed called

/-- A deadline lies at or behind the present exactly when the sum does not wrap, and of two timers armed at the same
time the one with the larger period does not expire first exactly when its sum does not wrap alone. -/
theorem deadline_order_iff (clock : now < 2 ^ 64) (period : ms < 2 ^ 64) (period' : ms' < 2 ^ 64)
    (armed : Armed now ms next) (armed' : Armed now ms' next') :
    (now ≤ next ↔ now + ms < 2 ^ 64) ∧
      (ms ≤ ms' → (next ≤ next' ↔ now + ms' < 2 ^ 64 ∨ 2 ^ 64 ≤ now + ms)) := by
  rw [armed.next_eq, armed'.next_eq, u64, u64]
  omega

/-! ### Sleeping for long -/

/-- A system that remembers the last period a fiber slept for, and where every `timespec` is the same. -/
def sleepSystem (sec nsec : Int) : System UInt64 where
  origin _ k := (0, k)
  errno _ := 0
  setErrno _ k := k
  fstat _ _ := none
  int _ _ := none
  timespec _ _ := some (sec, nsec)
  timeval _ _ := none
  plain _ _ _ _ _ := rfl
  ints _ _ _ _ := rfl

def sleepThread (sec nsec : Int) : HookFun.Thread UInt64 where
  system := sleepSystem sec nsec
  hookEnable := true
  connectTimeout := 5000
  sleep ms w := { w with sys := ms }
  wait _ _ _ w := (.woken, w)
  cancelAll _ w := w
  error := 0
  len := 0

/-- The set after a timer for a second and, at the same time, one for a sleep of 2147484 seconds. -/
def longSleep : TimerManager :=
  let first := (new 0).applyAll ((new 0).addTimer 1700000000000 64 1000 (some 1) false).writes
  first.applyAll (first.addTimer 1700000000000 32 18446744071562068320 (some 2) false).writes

theorem deadline_order_iff_second : 1700000000000 ≤ (key longSleep.heap 0).1 := by
  have armed : Armed 1700000000000 1000 1700000001000 :=
    ⟨new 0, .addTimer 64 1000 (some 1) false, _, 0, new_good 0, by simp [Allowed, new], rfl, .created, by decide⟩
  have order := deadline_order_iff (by decide) (by decide) (by decide) armed armed
  exact order.1.mpr (by decide)

/-- The period `nanosleep` asks for is that of a deadline before the present, and before that of a second. -/
theorem nanosleep_wraps :
    (HookFun.nanosleep (sleepThread 2147484 0) 0 0 1 ⟨0, .new⟩).map (fun done => done.2.sys) =
        .ok 18446744071562068320 ∧
      (key longSleep.heap 1).1 < 1700000000000 ∧ longSleep.timers = [1, 0] := by
  decide +kernel

end Cool.TimerManager
