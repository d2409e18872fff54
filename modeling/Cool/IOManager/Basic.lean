import Mathlib.Algebra.Ring.Nat
import Mathlib.Data.Fintype.Basic
import Mathlib.Logic.Function.Basic

/-!
# `IOManager`: events on file descriptors

The operations that hold the mutex of one `FdContext`, each as one step. `contexts` gives the
context of every descriptor: one that `m_fdContexts` does not have yet is a fresh context, and on
that `delEvent`, `cancelEvent` and `cancekAll` return what they return for a descriptor beyond the
table. How the table grows is modelled in `Cool.IOManager.Contexts`. Callbacks and fibers are only
stored, moved and scheduled, so their types are left open.
-/

namespace Cool

/-- A non-negative `int`. -/
abbrev Fd := Fin (2 ^ 31)

theorem Fd.bound_ne_zero : 2 ^ 31 ≠ 0 := by decide

instance Fd.neZero : NeZero (2 ^ 31) := ⟨Fd.bound_ne_zero⟩

abbrev Mask := BitVec 32

abbrev SchedulerId := Nat

namespace IOManager

inductive Event where
  | none
  | read
  | write
  deriving DecidableEq, Repr

instance : Fintype Event where
  elems := {.none, .read, .write}
  complete event := by cases event <;> decide

def Event.mask : Event → Mask
  | .none => 0x0
  | .read => 0x1
  | .write => 0x4

def epollIn : Mask := 0x1
def epollOut : Mask := 0x4
def epollErr : Mask := 0x8
def epollHup : Mask := 0x10
def epollEt : Mask := 0x80000000

/-- `mask & event`, as a condition. -/
def has (mask : Mask) (event : Event) : Bool := mask &&& event.mask != 0

/-- The failed assertions, and the call through a null scheduler. -/
inductive Fault where
  | addEvent
  | getContext
  | triggerEvent
  | cancekAll
  | nullScheduler
  deriving DecidableEq, Repr

/-- What a scheduler is given to run. -/
inductive Task (κ φ : Type) where
  | cb (cb : κ)
  | fiber (fiber : φ)
  deriving DecidableEq, Repr

variable {κ φ : Type}

structure EventContext (κ φ : Type) where
  scheduler : Option SchedulerId := none
  fiber : Option φ := none
  cb : Option κ := none
  deriving DecidableEq, Repr

structure FdContext (κ φ : Type) where
  read : EventContext κ φ := {}
  write : EventContext κ φ := {}
  events : Mask := 0
  deriving DecidableEq, Repr

namespace FdContext

def getContext (ctx : FdContext κ φ) : Event → Except Fault (EventContext κ φ)
  | .read => .ok ctx.read
  | .write => .ok ctx.write
  | .none => .error .getContext

def setContext (ctx : FdContext κ φ) (event : Event) (e : EventContext κ φ) : FdContext κ φ :=
  match event with
  | .read => { ctx with read := e }
  | .write => { ctx with write := e }
  | .none => ctx

/-- `triggerEvent`, with the task it schedules. The handler is moved out of the context by the
`swap` of `FiberAndThread`; an empty one is not queued. -/
def triggerEvent (ctx : FdContext κ φ) (event : Event) :
    Except Fault (FdContext κ φ × List (SchedulerId × Task κ φ)) :=
  if has ctx.events event then
    let ctx := { ctx with events := ctx.events &&& ~~~event.mask }
    match ctx.getContext event with
    | .error fault => .error fault
    | .ok e =>
      match e.scheduler with
      | none => .error .nullScheduler
      | some scheduler =>
        match e.cb with
        | some cb =>
          .ok (ctx.setContext event { e with scheduler := none, cb := none }, [(scheduler, .cb cb)])
        | none =>
          .ok (ctx.setContext event { e with scheduler := none, fiber := none },
            e.fiber.toList.map fun fiber => (scheduler, .fiber fiber))
  else .error .triggerEvent

end FdContext

/-! ### The kernel -/

inductive CtlOp where
  | add
  | mod
  | del
  deriving DecidableEq, Repr

/-- `epoll_ctl` on a descriptor with the given interest: it fails when the kernel refuses (`ok` is
false) or when the operation does not fit, and otherwise gives the new interest. -/
def epollCtl (interest : Option Mask) (op : CtlOp) (mask : Mask) (ok : Bool) : Option (Option Mask) :=
  if ok then
    match op, interest with
    | .add, none => some (some mask)
    | .mod, some _ => some (some mask)
    | .del, some _ => some none
    | _, _ => none
  else none

end IOManager

open IOManager

/-- `interest` is what the kernel watches a descriptor for, `tasks` everything that was pushed to
the queues of the schedulers. -/
structure IOManager (κ φ : Type) where
  contexts : Fd → FdContext κ φ
  interest : Fd → Option Mask
  pendingEventCount : Nat
  tasks : List (SchedulerId × Task κ φ)

namespace IOManager

variable {κ φ : Type}

def new : IOManager κ φ := ⟨fun _ => {}, fun _ => none, 0, []⟩

def setContext (s : IOManager κ φ) (fd : Fd) (ctx : FdContext κ φ) : IOManager κ φ :=
  { s with contexts := Function.update s.contexts fd ctx }

def setInterest (s : IOManager κ φ) (fd : Fd) (interest : Option Mask) : IOManager κ φ :=
  { s with interest := Function.update s.interest fd interest }

/-- `++m_pendingEventCount` on a `size_t`. -/
def increment (n : Nat) : Nat := (n + 1) % 2 ^ 64

def decrement (n : Nat) : Nat := (n + (2 ^ 64 - 1)) % 2 ^ 64

theorem increment_count {n : Nat} (small : n < 2 ^ 33) : increment n = n + 1 := by
  unfold increment
  omega

theorem decrement_count {n : Nat} (small : n + 1 < 2 ^ 33) : decrement (n + 1) = n := by
  unfold decrement
  omega

/-- `addEvent(fd, event, cb)`, run by `fiber` of `scheduler`. -/
def addEvent (s : IOManager κ φ) (fd : Fd) (event : Event) (scheduler : SchedulerId) (fiber : φ)
    (cb : Option κ) (ok : Bool) : Except Fault (Int × IOManager κ φ) :=
  let ctx := s.contexts fd
  if has ctx.events event then .error .addEvent
  else
    let op := if ctx.events ≠ 0 then CtlOp.mod else .add
    match epollCtl (s.interest fd) op (epollEt ||| ctx.events ||| event.mask) ok with
    | none => .ok (-1, s)
    | some interest =>
      let ctx := { ctx with events := ctx.events ||| event.mask }
      match ctx.getContext event with
      | .error fault => .error fault
      | .ok e =>
        let e := { e with scheduler := some scheduler }
        let e := if cb.isSome then { e with cb := cb } else { e with fiber := some fiber }
        let s := (s.setInterest fd interest).setContext fd (ctx.setContext event e)
        .ok (0, { s with pendingEventCount := increment s.pendingEventCount })

def delEvent (s : IOManager κ φ) (fd : Fd) (event : Event) (ok : Bool) :
    Except Fault (Bool × IOManager κ φ) :=
  let ctx := s.contexts fd
  if !has ctx.events event then .ok (false, s)
  else
    let newEvents := ctx.events &&& ~~~event.mask
    let op := if newEvents ≠ 0 then CtlOp.mod else .del
    match epollCtl (s.interest fd) op (epollEt ||| newEvents) ok with
    | none => .ok (false, s)
    | some interest =>
      let ctx := { ctx with events := newEvents }
      match ctx.getContext event with
      | .error fault => .error fault
      | .ok _ =>
        let s := (s.setInterest fd interest).setContext fd (ctx.setContext event {})
        .ok (true, { s with pendingEventCount := decrement s.pendingEventCount })

/-- `fd_ctx->triggerEvent(event); --m_pendingEventCount;` -/
def trigger (s : IOManager κ φ) (fd : Fd) (event : Event) : Except Fault (IOManager κ φ) :=
  match (s.contexts fd).triggerEvent event with
  | .error fault => .error fault
  | .ok (ctx, tasks) =>
    .ok { s.setContext fd ctx with
      pendingEventCount := decrement s.pendingEventCount, tasks := s.tasks ++ tasks }

def triggerIf (s : IOManager κ φ) (fd : Fd) (event : Event) (test : Bool) : Except Fault (IOManager κ φ) :=
  if test then s.trigger fd event else .ok s

def cancelEvent (s : IOManager κ φ) (fd : Fd) (event : Event) (ok : Bool) :
    Except Fault (Bool × IOManager κ φ) :=
  let ctx := s.contexts fd
  if !has ctx.events event then .ok (false, s)
  else
    let newEvents := ctx.events &&& ~~~event.mask
    let op := if newEvents ≠ 0 then CtlOp.mod else .del
    match epollCtl (s.interest fd) op (epollEt ||| newEvents) ok with
    | none => .ok (false, s)
    | some interest =>
      match (s.setInterest fd interest).trigger fd event with
      | .error fault => .error fault
      | .ok s => .ok (true, s)

def cancekAll (s : IOManager κ φ) (fd : Fd) (ok : Bool) : Except Fault (Bool × IOManager κ φ) :=
  if (s.contexts fd).events = 0 then .ok (false, s)
  else
    match epollCtl (s.interest fd) .del 0 ok with
    | none => .ok (false, s)
    | some interest =>
      let s := s.setInterest fd interest
      match s.triggerIf fd .read (has (s.contexts fd).events .read) with
      | .error fault => .error fault
      | .ok s =>
        match s.triggerIf fd .write (has (s.contexts fd).events .write) with
        | .error fault => .error fault
        | .ok s => if (s.contexts fd).events ≠ 0 then .error .cancekAll else .ok (true, s)

/-- The `real_events` of a mask reported by `epoll_wait`. -/
def realEvents (mask : Mask) : Mask :=
  let mask := if mask &&& (epollErr ||| epollHup) ≠ 0 then mask ||| (epollIn ||| epollOut) else mask
  (if mask &&& epollIn ≠ 0 then Event.read.mask else 0) |||
    (if mask &&& epollOut ≠ 0 then Event.write.mask else 0)

/-- What `idle` does with one result of `epoll_wait`. -/
def deliver (s : IOManager κ φ) (fd : Fd) (mask : Mask) (ok : Bool) : Except Fault (IOManager κ φ) :=
  let ctx := s.contexts fd
  let real := realEvents mask
  if ctx.events &&& real = 0 then .ok s
  else
    let leftEvents := ctx.events &&& ~~~real
    let op := if leftEvents ≠ 0 then CtlOp.mod else .del
    match epollCtl (s.interest fd) op (epollEt ||| leftEvents) ok with
    | none => .ok s
    | some interest =>
      match (s.setInterest fd interest).triggerIf fd .read (has real .read) with
      | .error fault => .error fault
      | .ok s => s.triggerIf fd .write (has real .write)

/-! ### Operations -/

inductive Op (κ φ : Type) where
  | addEvent (fd : Fd) (event : Event) (scheduler : SchedulerId) (fiber : φ) (cb : Option κ)
  | delEvent (fd : Fd) (event : Event)
  | cancelEvent (fd : Fd) (event : Event)
  | cancekAll (fd : Fd)
  | deliver (fd : Fd) (mask : Mask)

/-- An operation, with the state it leaves and whether it reported success. -/
def exec (s : IOManager κ φ) (ok : Bool) : Op κ φ → Except Fault (Bool × IOManager κ φ)
  | .addEvent fd event scheduler fiber cb =>
    (s.addEvent fd event scheduler fiber cb ok).map fun (rt, s) => (rt == 0, s)
  | .delEvent fd event => s.delEvent fd event ok
  | .cancelEvent fd event => s.cancelEvent fd event ok
  | .cancekAll fd => s.cancekAll fd ok
  | .deliver fd mask => (s.deliver fd mask ok).map fun s => (true, s)

end IOManager

end Cool
