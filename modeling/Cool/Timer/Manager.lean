import Cool.Foundation.OrderedSet
import Mathlib.Algebra.Group.Nat.Defs

/-!
# `Timer` and `TimerManager`

Timers are named by the order in which they were constructed; the address `lhs.get()` that the
comparator falls back on is a field of the object. A member function is given by the writes it
performs, in program order, so that what holds between two of them can be stated: the set is
ordered by a field of its elements.
-/

namespace Cool

abbrev Callback := Nat

/-- A `Timer` object. `cb` is `none` when the `std::function` is empty. -/
structure Timer where
  recurring : Bool
  ms : Nat
  next : Nat
  cb : Option Callback
  addr : Nat
  deriving DecidableEq, Repr

/-- What `Comparator` reads of a timer: its deadline, and its address. -/
def Timer.key (t : Timer) : Nat × Nat := (t.next, t.addr)

abbrev TimerId := Nat

/-- `heap` holds every timer constructed so far, `timers` is `m_timers` from `begin()` to `end()`. -/
structure TimerManager where
  heap : List Timer
  timers : List TimerId
  tickled : Bool
  previousTime : Nat
  deriving DecidableEq, Repr

namespace TimerManager

/-- `uint64_t` arithmetic. -/
def u64 (n : Nat) : Nat := n % 2 ^ 64

def u64Sub (a b : Nat) : Nat := u64 (a + (2 ^ 64 - u64 b))

/-- `TimerManager()`, built at time `now`. -/
def new (now : Nat) : TimerManager := ⟨[], [], false, now⟩

/-! ### The order of the set -/

/-- `Timer::Comparator` on two non-null timers. -/
def lessKey (lhs rhs : Nat × Nat) : Bool :=
  if lhs.1 < rhs.1 then true else if rhs.1 < lhs.1 then false else lhs.2 < rhs.2

def key (heap : List Timer) (id : TimerId) : Nat × Nat := (heap[id]?).elim (0, 0) Timer.key

def less (heap : List Timer) (lhs rhs : TimerId) : Bool := lessKey (key heap lhs) (key heap rhs)

/-- `m_timers.find(timer)`. -/
def find (m : TimerManager) (id : TimerId) : Option TimerId :=
  Foundation.OrderedSet.find (less m.heap) id m.timers

/-! ### Writes -/

inductive Write where
  | alloc (t : Timer)
  | erase (id : TimerId)
  | insert (id : TimerId)
  | setNext (id : TimerId) (next : Nat)
  | setMs (id : TimerId) (ms : Nat)
  | clearCb (id : TimerId)
  | setTickled (tickled : Bool)
  | setPreviousTime (now : Nat)
  deriving DecidableEq, Repr

def apply (m : TimerManager) : Write → TimerManager
  | .alloc t => { m with heap := m.heap ++ [t] }
  | .erase id => { m with timers := m.timers.erase id }
  | .insert id => { m with timers := Foundation.OrderedSet.insert (less m.heap) id m.timers }
  | .setNext id next => { m with heap := m.heap.modify id ({ · with next := next }) }
  | .setMs id ms => { m with heap := m.heap.modify id ({ · with ms := ms }) }
  | .clearCb id => { m with heap := m.heap.modify id ({ · with cb := none }) }
  | .setTickled tickled => { m with tickled := tickled }
  | .setPreviousTime now => { m with previousTime := now }

def applyAll (m : TimerManager) (ws : List Write) : TimerManager := ws.foldl apply m

/-! ### Member functions -/

/-- Uses of an iterator or a pointer that the library leaves undefined. -/
inductive Fault where
  | eraseEnd
  | derefEmpty
  | noTimer
  deriving DecidableEq, Repr

/-- What a call did: the value returned, its writes, whether it called `onTimerInsertAtFront`, and
the callbacks it appended to `cbs`, each with the timer it came from. -/
structure Outcome where
  ret : Bool := true
  writes : List Write := []
  atFront : Bool := false
  emitted : List (TimerId × Option Callback) := []
  deriving DecidableEq, Repr

/-- `TimerManager::addTimer(val, lock)`, after the writes `ws` of its caller. -/
def addTimerLocked (m : TimerManager) (ws : List Write) (id : TimerId) : Outcome :=
  let ws := ws ++ [.insert id]
  let m := m.applyAll ws
  let atFront := m.timers.head? == some id && !m.tickled
  { writes := if atFront then ws ++ [.setTickled true] else ws, atFront := atFront }

/-- `TimerManager::addTimer(ms, cb, recurring)` at time `now`. The new timer's address is chosen by
the allocator. -/
def addTimer (m : TimerManager) (now addr ms : Nat) (cb : Option Callback) (recurring : Bool) : Outcome :=
  m.addTimerLocked [.alloc ⟨recurring, ms, u64 (now + ms), cb, addr⟩] m.heap.length

/-- `Timer::cancel`. -/
def cancel (m : TimerManager) (id : TimerId) : Except Fault Outcome :=
  match m.heap[id]? with
  | none => .error .noTimer
  | some t =>
    if t.cb.isSome then
      match m.find id with
      | none => .error .eraseEnd
      | some it => .ok { writes := [.clearCb id, .erase it] }
    else .ok { ret := false }

/-- `Timer::refresh` at time `now`. -/
def refresh (m : TimerManager) (now : Nat) (id : TimerId) : Except Fault Outcome :=
  match m.heap[id]? with
  | none => .error .noTimer
  | some t =>
    if t.cb.isNone then .ok { ret := false }
    else
      match m.find id with
      | none => .ok { ret := false }
      | some it => .ok { writes := [.erase it, .setNext id (u64 (now + t.ms)), .insert id] }

/-- The part of `Timer::reset(ms, from_now)` that holds the lock, at time `now`. -/
def resetLocked (m : TimerManager) (now : Nat) (id : TimerId) (ms : Nat) (fromNow : Bool) :
    Except Fault Outcome :=
  match m.heap[id]? with
  | none => .error .noTimer
  | some t =>
    if t.cb.isNone then .ok { ret := false }
    else
      match m.find id with
      | none => .ok { ret := false }
      | some it =>
        let start := if fromNow then now else u64Sub t.next t.ms
        .ok (m.addTimerLocked [.erase it, .setMs id ms, .setNext id (u64 (start + ms))] id)

/-- `Timer::reset(ms, from_now)`: the first test is made before the lock is taken. -/
def reset (m : TimerManager) (now : Nat) (id : TimerId) (ms : Nat) (fromNow : Bool) :
    Except Fault Outcome :=
  match m.heap[id]? with
  | none => .error .noTimer
  | some t => if ms = t.ms ∧ fromNow = false then .ok {} else m.resetLocked now id ms fromNow

/-- `detectClockRollover(now_ms)`, its result. -/
def rollover (m : TimerManager) (now : Nat) : Bool :=
  now < m.previousTime && now < u64Sub m.previousTime (60 * 60 * 1000)

/-- The timers from the iterator of `listExpiredCb` on: those it leaves in the set. `addr` is the
address of the temporary `now_timer`. -/
def unexpired (m : TimerManager) (now addr : Nat) : List TimerId :=
  let it := if m.rollover now then [] else
    m.timers.dropWhile fun id => lessKey (key m.heap id) (now, addr)
  it.dropWhile fun id => (key m.heap id).1 == now

/-- The timers before that iterator. -/
def expireds (m : TimerManager) (now addr : Nat) : List TimerId :=
  m.timers.take (m.timers.length - (m.unexpired now addr).length)

/-- The loop body of `listExpiredCb` for one expired timer. -/
def rearm (m : TimerManager) (now : Nat) (id : TimerId) : List Write :=
  match m.heap[id]? with
  | none => []
  | some t =>
    if t.recurring then [.setNext id (u64 (now + t.ms)), .insert id] else [.clearCb id]

/-- The write-locked part of `listExpiredCb`. -/
def listExpiredLocked (m : TimerManager) (now addr : Nat) : Except Fault Outcome :=
  let expire : Outcome :=
    let ids := m.expireds now addr
    { writes := .setPreviousTime now :: (ids.map .erase ++ ids.flatMap (m.rearm now))
      emitted := ids.map fun id => (id, (m.heap[id]?).bind Timer.cb) }
  if m.rollover now then .ok expire
  else
    match m.timers with
    | [] => .error .derefEmpty
    | first :: _ =>
      if (key m.heap first).1 > now then .ok { writes := [.setPreviousTime now] } else .ok expire

/-- `listExpiredCb` with both of its locked sections run without interruption. -/
def listExpiredCb (m : TimerManager) (now addr : Nat) : Except Fault Outcome :=
  if m.timers.isEmpty then .ok {} else m.listExpiredLocked now addr

/-! ### Calls -/

inductive Call where
  | addTimer (addr ms : Nat) (cb : Option Callback) (recurring : Bool)
  | cancel (id : TimerId)
  | refresh (id : TimerId)
  | reset (id : TimerId) (ms : Nat) (fromNow : Bool)
  | listExpiredCb (addr : Nat)
  deriving DecidableEq, Repr

/-- A call made at time `now`. -/
def call (m : TimerManager) (now : Nat) : Call → Except Fault Outcome
  | .addTimer addr ms cb recurring => .ok (m.addTimer now addr ms cb recurring)
  | .cancel id => m.cancel id
  | .refresh id => m.refresh now id
  | .reset id ms fromNow => m.reset now id ms fromNow
  | .listExpiredCb addr => m.listExpiredCb now addr

/-- The section of a call that holds the write lock. -/
def locked (m : TimerManager) (now : Nat) : Call → Except Fault Outcome
  | .addTimer addr ms cb recurring => .ok (m.addTimer now addr ms cb recurring)
  | .cancel id => m.cancel id
  | .refresh id => m.refresh now id
  | .reset id ms fromNow => m.resetLocked now id ms fromNow
  | .listExpiredCb addr => m.listExpiredLocked now addr

end TimerManager

end Cool
