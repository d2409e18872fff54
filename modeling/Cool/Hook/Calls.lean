import Cool.FdManager.Basic
import Cool.Foundation.Results
import Cool.IOManager.Basic

/-!
# The hooked functions

Every function of `HOOK_FUN` as `hook.cpp` defines it, over any system. What a waiting fiber goes
through is given: how the fiber is suspended, what the other fibers do to the process meanwhile, and how
it wakes up. With hooking disabled in the calling thread a wrapper should be its original; the last part
says for which calls it is.
-/

namespace Cool

namespace HookFun

open Foundation

open IOManager (Event)

variable {κ : Type}

/-- The ends of a call other than its return. -/
inductive Stop where
  | fault (fault : FdFault)
  | outOfFuel
  deriving DecidableEq, Repr

abbrev Hooked (κ α : Type) := StateT (World κ) (Except Stop) α

/-- What `do_io` and `connect_with_timeout` find after they have asked for an event: `addEvent` refused it,
the timer's callback has set `cancelled`, or neither. -/
inductive Wake where
  | refused
  | cancelled (errno : Int)
  | woken
  deriving DecidableEq, Repr

/-- The calling thread: `t_hook_enable`, `s_connect_timeout`, and its fiber. `sleep` is `addTimer` for the
fiber and `YieldToHold`, `wait` is what stands between a call that would block and the next attempt, with
the timer if the timeout is not -1, `cancelAll` is `cancekAll` of the current `IOManager`, if there is
one. `error` and `len` are the addresses of the locals of `connect_with_timeout`. -/
structure Thread (κ : Type) where
  system : System κ
  hookEnable : Bool
  connectTimeout : UInt64
  sleep : UInt64 → World κ → World κ
  wait : Int → Event → UInt64 → World κ → Wake × World κ
  cancelAll : Int → World κ → World κ
  error : Ptr
  len : Ptr

def ebadf : Int := 9
def eintr : Int := 4
def eagain : Int := 11
def einprogress : Int := 115

variable (T : Thread κ)

/-! ## What the wrappers are made of -/

def origin (c : Origin) : Hooked κ Int := fun w =>
  .ok ((T.system.origin c w.sys).1, { w with sys := (T.system.origin c w.sys).2 })

def errno : Hooked κ Int := fun w => .ok (T.system.errno w.sys, w)

/-- `errno = e; return -1`. -/
def fail (e : Int) : Hooked κ Int := fun w => .ok (-1, { w with sys := T.system.setErrno e w.sys })

def sleepFor (ms : UInt64) : Hooked κ Int := fun w => .ok (0, T.sleep ms w)

def waitFor (fd : Int) (event : Event) (timeout : UInt64) : Hooked κ Wake := fun w =>
  .ok (T.wait fd event timeout w)

def load {α : Type} (read : κ → Ptr → Option α) (p : Ptr) : Hooked κ α := fun w =>
  match read w.sys p with
  | none => .error (.fault .segfault)
  | some a => .ok (a, w)

def peek (fd : Int) : Hooked κ (Option (FdCtx.Ref × FdCtx)) := fun w =>
  match w.fds.peek fd with
  | .error fault => .error (.fault fault)
  | .ok found => .ok (found, w)

def getCreate (fd : Int) : Hooked κ (Option FdCtx.Ref) := fun w =>
  match FdManager.get T.system fd true w with
  | .error fault => .error (.fault fault)
  | .ok done => .ok done

def alter (ref : FdCtx.Ref) (change : FdCtx → FdCtx) : Hooked κ Unit := fun w =>
  .ok ((), { w with fds := w.fds.alter ref change })

def delete (fd : Int) : Hooked κ Unit := fun w =>
  match w.fds.del fd with
  | .error fault => .error (.fault fault)
  | .ok fds => .ok ((), { w with fds := fds })

def vaInt : Vararg → Hooked κ (BitVec 32)
  | .int arg => pure arg
  | _ => fun _ => .error (.fault .vararg)

def vaPtr : Vararg → Hooked κ Ptr
  | .ptr arg => pure arg
  | _ => fun _ => .error (.fault .vararg)

/-! ## Input and output -/

/-- The three ways through `do_io`: the original called once, `EBADF`, and the loop that waits. -/
inductive Route where
  | direct
  | closed
  | waits (timeout : UInt64)
  deriving DecidableEq, Repr

/-- `do_io` up to the timeout it reads. -/
def route (m : FdManager) (fd : Int) (timeoutSo : Timeo) : Except FdFault Route :=
  if !T.hookEnable then .ok .direct
  else
    match m.peek fd with
    | .error fault => .error fault
    | .ok none => .ok .direct
    | .ok (some (_, ctx)) =>
      if ctx.isClosed then .ok .closed
      else if !ctx.isSocket || ctx.userNonblock then .ok .direct
      else .ok (.waits (ctx.getTimeout timeoutSo))

/-- `do_io` from `retry:` on. -/
def retry (fd : Int) (fun_ : Origin) (event : Event) (timeout : UInt64) : Nat → Hooked κ Int
  | 0 => fun _ => .error .outOfFuel
  | fuel + 1 => do
    let n ← origin T fun_
    let e ← errno T
    if n = -1 ∧ e = eintr then
      retry fd fun_ event timeout fuel
    else if n = -1 ∧ e = eagain then
      match ← waitFor T fd event timeout with
      | .refused => return -1
      | .cancelled e => fail T e
      | .woken => retry fd fun_ event timeout fuel
    else return n

def doIo (fuel : Nat) (fd : Int) (fun_ : Origin) (event : Event) (timeoutSo : Timeo) : Hooked κ Int := fun w =>
  match route T w.fds fd timeoutSo with
  | .error fault => .error (.fault fault)
  | .ok .direct => origin T fun_ w
  | .ok .closed => fail T ebadf w
  | .ok (.waits timeout) => retry T fd fun_ event timeout fuel w

section

variable (fuel : Nat)

def read (fd : Int) (buf : Ptr) (count : UInt64) : Hooked κ Int :=
  doIo T fuel fd (.read fd buf count) .read .rcvtimeo

def readv (fd : Int) (iov : Ptr) (iovcnt : BitVec 32) : Hooked κ Int :=
  doIo T fuel fd (.readv fd iov iovcnt) .read .rcvtimeo

def recv (sockfd : Int) (buf : Ptr) (len : UInt64) (flags : BitVec 32) : Hooked κ Int :=
  doIo T fuel sockfd (.recv sockfd buf len flags) .read .rcvtimeo

def recvfrom (sockfd : Int) (buf : Ptr) (len : UInt64) (flags : BitVec 32) (srcAddr addrlen : Ptr) : Hooked κ Int :=
  doIo T fuel sockfd (.recvfrom sockfd buf len flags srcAddr addrlen) .read .rcvtimeo

def recvmsg (sockfd : Int) (msg : Ptr) (flags : BitVec 32) : Hooked κ Int :=
  doIo T fuel sockfd (.recvmsg sockfd msg flags) .read .rcvtimeo

def write (fd : Int) (buf : Ptr) (count : UInt64) : Hooked κ Int :=
  doIo T fuel fd (.write fd buf count) .write .sndtimeo

def writev (fd : Int) (iov : Ptr) (iovcnt : BitVec 32) : Hooked κ Int :=
  doIo T fuel fd (.writev fd iov iovcnt) .write .sndtimeo

def send (sockfd : Int) (buf : Ptr) (len : UInt64) (flags : BitVec 32) : Hooked κ Int :=
  doIo T fuel sockfd (.send sockfd buf len flags) .write .sndtimeo

def sendto (sockfd : Int) (buf : Ptr) (len : UInt64) (flags : BitVec 32) (destAddr : Ptr) (addrlen : UInt32) :
    Hooked κ Int :=
  doIo T fuel sockfd (.sendto sockfd buf len flags destAddr addrlen) .write .sndtimeo

def sendmsg (sockfd : Int) (msg : Ptr) (flags : BitVec 32) : Hooked κ Int :=
  doIo T fuel sockfd (.sendmsg sockfd msg flags) .write .sndtimeo

def accept (sockfd : Int) (addr addrlen : Ptr) : Hooked κ Int := do
  let fd ← doIo T fuel sockfd (.accept sockfd addr addrlen) .read .rcvtimeo
  if 0 ≤ fd then
    let _ ← getCreate T fd
  return fd

end

/-! ## Sleeping, and the other functions -/

def sleep (seconds : UInt32) : Hooked κ Int :=
  if !T.hookEnable then origin T (.sleep seconds) else sleepFor T (seconds * 1000).toUInt64

def usleep (usec : UInt32) : Hooked κ Int :=
  if !T.hookEnable then origin T (.usleep usec) else sleepFor T (usec / 1000).toUInt64

/-- With hooking disabled the wrapper calls `nanosleep`, which is the wrapper. -/
def nanosleep (req rem : Ptr) : Nat → Hooked κ Int
  | 0 => fun _ => .error .outOfFuel
  | fuel + 1 =>
    if !T.hookEnable then nanosleep req rem fuel
    else do
      let (sec, nsec) ← load T.system.timespec req
      let timeoutMs := BitVec.ofInt 32 (sec * 1000 + (nsec.tdiv 1000).tdiv 1000)
      sleepFor T (.ofBitVec (timeoutMs.signExtend 64))

def socket (domain type protocol : BitVec 32) : Hooked κ Int :=
  if !T.hookEnable then origin T (.socket domain type protocol)
  else do
    let fd ← origin T (.socket domain type protocol)
    if fd = -1 then return fd
    let _ ← getCreate T fd
    return fd

def getsockopt (sockfd : Int) (optname : SockOpt) (optval optlen : Ptr) : Hooked κ Int :=
  origin T (.getsockopt sockfd optname optval optlen)

def soError : SockOpt := .other 1 4

def connectWithTimeout (sockfd : Int) (addr : Ptr) (addrlen : UInt32) (timeoutMs : UInt64) : Hooked κ Int :=
  if !T.hookEnable then origin T (.connect sockfd addr addrlen)
  else do
    match ← peek sockfd with
    | none => fail T ebadf
    | some (_, ctx) =>
      if ctx.isClosed then fail T ebadf
      else if !ctx.isSocket then origin T (.connect sockfd addr addrlen)
      else do
        let n ← origin T (.connect sockfd addr addrlen)
        let e ← errno T
        if n = 0 then return 0
        else if n ≠ -1 ∨ e ≠ einprogress then return n
        else
          match ← waitFor T sockfd .write timeoutMs with
          | .cancelled e => fail T e
          | _ =>
            if (← getsockopt T sockfd soError T.error T.len) = -1 then return -1
            let error ← load T.system.int T.error
            if error = 0 then return 0
            else fail T error.toInt

def connect (sockfd : Int) (addr : Ptr) (addrlen : UInt32) : Hooked κ Int :=
  connectWithTimeout T sockfd addr addrlen T.connectTimeout

def close (fd : Int) : Hooked κ Int :=
  if !T.hookEnable then origin T (.close fd)
  else do
    if (← peek fd).isSome then
      modify (T.cancelAll fd)
      delete fd
    origin T (.close fd)

def fcntl (fd : Int) (cmd : Cmd) (arg : Vararg) : Hooked κ Int :=
  match cmd with
  | .setfl => do
    let flags ← vaInt arg
    match ← peek fd with
    | none => origin T (.fcntl fd cmd (.int flags))
    | some (ref, ctx) =>
      if ctx.isClosed then origin T (.fcntl fd cmd (.int flags))
      else do
        alter ref (FdCtx.setUserNonBlock (hasNonblock flags))
        origin T (.fcntl fd cmd
          (.int (if ctx.sysNonblock then withNonblock flags else withoutNonblock flags)))
  | .getfl => do
    let flags ← origin T (.fcntl fd cmd .absent)
    match ← peek fd with
    | none => return flags
    | some (_, ctx) =>
      if ctx.isClosed || !ctx.isSocket then return flags
      else if ctx.userNonblock then return (withNonblock (BitVec.ofInt 32 flags)).toInt
      else return (withoutNonblock (BitVec.ofInt 32 flags)).toInt
  | .dupfd | .dupfdCloexec | .setfd | .setown | .setsig | .setlease | .notify | .setpipeSz => do
    let v ← vaInt arg
    origin T (.fcntl fd cmd (.int v))
  | .getfd | .getown | .getsig | .getlease | .getpipeSz => origin T (.fcntl fd cmd .absent)
  | .setlk | .setlkw | .getlk | .getownEx | .setownEx => do
    let p ← vaPtr arg
    origin T (.fcntl fd cmd (.ptr p))
  | .other _ => origin T (.fcntl fd cmd .absent)

def ioctl (fd : Int) (request : Request) (arg : Ptr) : Hooked κ Int :=
  match request with
  | .fionbio => do
    let v ← load T.system.int arg
    match ← peek fd with
    | none => origin T (.ioctl fd request arg)
    | some (ref, ctx) =>
      if ctx.isClosed || !ctx.isSocket then origin T (.ioctl fd request arg)
      else do
        alter ref (FdCtx.setUserNonBlock (v != 0))
        origin T (.ioctl fd request arg)
  | .other _ => origin T (.ioctl fd request arg)

/-- The timeout that `setsockopt` keeps, if it keeps one for the option. -/
def SockOpt.timeo : SockOpt → Option Timeo
  | .rcvtimeo => some .rcvtimeo
  | .sndtimeo => some .sndtimeo
  | .other _ _ => none

def setsockopt (sockfd : Int) (optname : SockOpt) (optval : Ptr) (optlen : UInt32) : Hooked κ Int :=
  if !T.hookEnable then origin T (.setsockopt sockfd optname optval optlen)
  else do
    match SockOpt.timeo optname with
    | none => pure ()
    | some type =>
      match ← peek sockfd with
      | none => pure ()
      | some (ref, _) => do
        let (sec, usec) ← load T.system.timeval optval
        alter ref (FdCtx.setTimeout type (.ofBitVec (BitVec.ofInt 64 (sec * 1000 + usec.tdiv 1000))))
    origin T (.setsockopt sockfd optname optval optlen)

/-- The hooked function of the name, on the arguments. -/
def hooked (fuel : Nat) : Origin → Hooked κ Int
  | .sleep seconds => sleep T seconds
  | .usleep usec => usleep T usec
  | .nanosleep req rem => nanosleep T req rem fuel
  | .socket domain type protocol => socket T domain type protocol
  | .connect sockfd addr addrlen => connect T sockfd addr addrlen
  | .accept sockfd addr addrlen => accept T fuel sockfd addr addrlen
  | .read fd buf count => read T fuel fd buf count
  | .readv fd iov iovcnt => readv T fuel fd iov iovcnt
  | .recv sockfd buf len flags => recv T fuel sockfd buf len flags
  | .recvfrom sockfd buf len flags srcAddr addrlen => recvfrom T fuel sockfd buf len flags srcAddr addrlen
  | .recvmsg sockfd msg flags => recvmsg T fuel sockfd msg flags
  | .write fd buf count => write T fuel fd buf count
  | .writev fd iov iovcnt => writev T fuel fd iov iovcnt
  | .send sockfd buf len flags => send T fuel sockfd buf len flags
  | .sendto sockfd buf len flags destAddr addrlen => sendto T fuel sockfd buf len flags destAddr addrlen
  | .sendmsg sockfd msg flags => sendmsg T fuel sockfd msg flags
  | .close fd => close T fd
  | .fcntl fd cmd arg => fcntl T fd cmd arg
  | .ioctl fd request arg => ioctl T fd request arg
  | .getsockopt sockfd optname optval optlen => getsockopt T sockfd optname optval optlen
  | .setsockopt sockfd optname optval optlen => setsockopt T sockfd optname optval optlen

/-! ## With hooking disabled -/

/-- `get` finds no context for the descriptor, or one that `free` holds of. -/
def Unless (m : FdManager) (fd : Int) (free : FdCtx → Prop) : Prop :=
  m.peek fd = .ok none ∨ ∃ ref ctx, m.peek fd = .ok (some (ref, ctx)) ∧ free ctx

/-- The calls that a wrapper passes on unchanged. `accept` ends with a descriptor that has a context, or
fails; `F_SETFL` and `FIONBIO` ask for the mode that is set, `F_GETFL` answers the mode that the user
sees, and a third argument of `fcntl` is of the type the wrapper reads, if it reads one. -/
def Passes (S : System κ) (w : World κ) : Origin → Prop
  | .nanosleep _ _ => False
  | .accept sockfd addr addrlen =>
    0 ≤ (S.origin (.accept sockfd addr addrlen) w.sys).1 →
      ∃ ref, w.fds.find (S.origin (.accept sockfd addr addrlen) w.sys).1 true = .ok (some (some ref))
  | .fcntl fd .setfl arg => ∃ flags, arg = .int flags ∧ Unless w.fds fd fun ctx =>
      ctx.isClosed = true ∨ ctx.userNonblock = hasNonblock flags ∧ ctx.sysNonblock = hasNonblock flags
  | .fcntl fd .getfl _ => Unless w.fds fd fun ctx => ctx.isClosed = true ∨ ctx.isSocket = false ∨
      ctx.userNonblock = hasNonblock (BitVec.ofInt 32 (S.origin (.fcntl fd .getfl .absent) w.sys).1)
  | .fcntl _ .dupfd arg | .fcntl _ .dupfdCloexec arg | .fcntl _ .setfd arg | .fcntl _ .setown arg
  | .fcntl _ .setsig arg | .fcntl _ .setlease arg | .fcntl _ .notify arg | .fcntl _ .setpipeSz arg =>
    ∃ v, arg = .int v
  | .fcntl _ .setlk arg | .fcntl _ .setlkw arg | .fcntl _ .getlk arg | .fcntl _ .getownEx arg
  | .fcntl _ .setownEx arg => ∃ p, arg = .ptr p
  | .fcntl _ (.other _) arg => arg = .absent
  | .ioctl fd .fionbio arg => ∃ v, S.int w.sys arg = some v ∧ Unless w.fds fd fun ctx =>
      ctx.isClosed = true ∨ ctx.isSocket = false ∨ ctx.userNonblock = (v != 0)
  | _ => True

/-- The calls that a wrapper changes and the original does not tell apart: `F_SETFL` with the other mode, and
a command of the `default:` without its argument. -/
def Indistinct (S : System κ) (w : World κ) : Origin → Prop
  | .fcntl fd .setfl (.int flags) => ∃ ref ctx, w.fds.peek fd = .ok (some (ref, ctx)) ∧
      ctx.userNonblock = hasNonblock flags ∧
      S.origin (.fcntl fd .setfl (.int (if ctx.sysNonblock then withNonblock flags else withoutNonblock flags))) w.sys =
        S.origin (.fcntl fd .setfl (.int flags)) w.sys
  | .fcntl fd (.other cmd) arg =>
    S.origin (.fcntl fd (.other cmd) .absent) w.sys = S.origin (.fcntl fd (.other cmd) arg) w.sys
  | _ => False

variable {T}

theorem route_disabled (off : T.hookEnable = false) (m : FdManager) (fd : Int) (timeoutSo : Timeo) :
    route T m fd timeoutSo = .ok .direct := by
  simp [route, off]

theorem doIo_disabled (off : T.hookEnable = false) (fuel : Nat) (fd : Int) (fun_ : Origin) (event : Event)
    (timeoutSo : Timeo) : doIo T fuel fd fun_ event timeoutSo = origin T fun_ := by
  funext w
  simp only [doIo, route_disabled off]

theorem peek_ran {m : FdManager} {fd : Int} {found : Option (FdCtx.Ref × FdCtx)} (there : m.peek fd = .ok found)
    (sys : κ) : peek fd ⟨sys, m⟩ = .ok (found, ⟨sys, m⟩) := by
  simp only [peek, there]

theorem peek_failed {m : FdManager} {fd : Int} {fault : FdFault} (failed : m.peek fd = .error fault) (sys : κ) :
    peek fd ⟨sys, m⟩ = .error (.fault fault) := by
  simp only [peek, failed]

/-! ### The variadic calls, when there is a context and when there is none -/

section

variable {m : FdManager} {fd : Int} {ref : FdCtx.Ref} {ctx : FdCtx} (k : κ)

theorem setfl_none (none : m.peek fd = .ok none) (flags : BitVec 32) :
    fcntl T fd .setfl (.int flags) ⟨k, m⟩ = origin T (.fcntl fd .setfl (.int flags)) ⟨k, m⟩ := by
  rw [fcntl, bind_ran (a := flags) rfl, bind_ran (peek_ran none k)]

theorem setfl_some (there : m.peek fd = .ok (some (ref, ctx))) (flags : BitVec 32) :
    fcntl T fd .setfl (.int flags) ⟨k, m⟩ =
      if ctx.isClosed then origin T (.fcntl fd .setfl (.int flags)) ⟨k, m⟩
      else origin T (.fcntl fd .setfl (.int (if ctx.sysNonblock then withNonblock flags else withoutNonblock flags)))
        ⟨k, m.alter ref (FdCtx.setUserNonBlock (hasNonblock flags))⟩ := by
  rw [fcntl, bind_ran (a := flags) rfl, bind_ran (peek_ran there k)]
  dsimp only
  cases ctx.isClosed <;> rfl

theorem getfl_none (none : m.peek fd = .ok none) (arg : Vararg) :
    fcntl T fd .getfl arg ⟨k, m⟩ = origin T (.fcntl fd .getfl .absent) ⟨k, m⟩ := by
  rw [fcntl, bind_ran rfl, bind_ran (peek_ran none _)]
  rfl

theorem getfl_some (there : m.peek fd = .ok (some (ref, ctx))) (arg : Vararg) :
    fcntl T fd .getfl arg ⟨k, m⟩ =
      if ctx.isClosed || !ctx.isSocket then origin T (.fcntl fd .getfl .absent) ⟨k, m⟩
      else
        .ok ((if ctx.userNonblock
          then withNonblock (BitVec.ofInt 32 (T.system.origin (.fcntl fd .getfl .absent) k).1)
          else withoutNonblock (BitVec.ofInt 32 (T.system.origin (.fcntl fd .getfl .absent) k).1)).toInt,
          ⟨(T.system.origin (.fcntl fd .getfl .absent) k).2, m⟩) := by
  rw [fcntl, bind_ran rfl, bind_ran (peek_ran there _)]
  dsimp only
  cases ctx.isClosed || !ctx.isSocket
  · cases ctx.userNonblock <;> rfl
  · rfl

theorem load_ran {α : Type} {read : κ → Ptr → Option α} {p : Ptr} {a : α} (value : read k p = some a) :
    load read p ⟨k, m⟩ = .ok (a, ⟨k, m⟩) := by
  simp only [load, value]

theorem fionbio_none {arg : Ptr} {v : BitVec 32} (value : T.system.int k arg = some v) (none : m.peek fd = .ok none) :
    ioctl T fd .fionbio arg ⟨k, m⟩ = origin T (.ioctl fd .fionbio arg) ⟨k, m⟩ := by
  rw [ioctl, bind_ran (load_ran k value), bind_ran (peek_ran none k)]

theorem fionbio_some {arg : Ptr} {v : BitVec 32} (value : T.system.int k arg = some v)
    (there : m.peek fd = .ok (some (ref, ctx))) :
    ioctl T fd .fionbio arg ⟨k, m⟩ =
      if ctx.isClosed || !ctx.isSocket then origin T (.ioctl fd .fionbio arg) ⟨k, m⟩
      else origin T (.ioctl fd .fionbio arg) ⟨k, m.alter ref (FdCtx.setUserNonBlock (v != 0))⟩ := by
  rw [ioctl, bind_ran (load_ran k value), bind_ran (peek_ran there k)]
  dsimp only
  cases ctx.isClosed || !ctx.isSocket <;> rfl

theorem alter_mode (there : m.peek fd = .ok (some (ref, ctx))) {v : Bool} (same : ctx.userNonblock = v) :
    m.alter ref (FdCtx.setUserNonBlock v) = m := by
  refine FdManager.alter_same (FdManager.peek_some there) ?_
  subst same
  rfl

theorem mode_of_alter (there : m.peek fd = .ok (some (ref, ctx))) {v : Bool}
    (same : m.alter ref (FdCtx.setUserNonBlock v) = m) : ctx.userNonblock = v := by
  have changed := FdManager.peek_alter there (FdCtx.setUserNonBlock v)
  rw [same, there] at changed
  have kept : ctx = FdCtx.setUserNonBlock v ctx := (Prod.mk.inj (Option.some.inj (Except.ok.inj changed))).2
  rw [kept]
  rfl

theorem unless_or {free more : FdCtx → Prop} :
    Unless m fd free ∨ (∃ ref ctx, m.peek fd = .ok (some (ref, ctx)) ∧ more ctx) ↔
      Unless m fd fun ctx => free ctx ∨ more ctx := by
  constructor
  · rintro ((none | ⟨ref, ctx, there, holds⟩) | ⟨ref, ctx, there, holds⟩)
    · exact .inl none
    · exact .inr ⟨ref, ctx, there, .inl holds⟩
    · exact .inr ⟨ref, ctx, there, .inr holds⟩
  · rintro (none | ⟨ref, ctx, there, holds | holds⟩)
    · exact .inl (.inl none)
    · exact .inl (.inr ⟨ref, ctx, there, holds⟩)
    · exact .inr ⟨ref, ctx, there, holds⟩

/-- A call that begins with `get`: what it does where that faults, finds nothing, and finds a context. -/
theorem unless_iff {free : FdCtx → Prop} {same : Prop} (failed : ∀ fault, m.peek fd = .error fault → ¬ same)
    (none : m.peek fd = .ok none → same)
    (found : ∀ ref ctx, m.peek fd = .ok (some (ref, ctx)) → (same ↔ free ctx)) : same ↔ Unless m fd free := by
  constructor
  · intro holds
    cases looked : m.peek fd with
    | error fault => exact absurd holds (failed fault looked)
    | ok answer =>
      cases answer with
      | none => exact .inl looked
      | some entry => exact .inr ⟨entry.1, entry.2, looked, (found entry.1 entry.2 looked).mp holds⟩
  · rintro (empty | ⟨ref, ctx, there, holds⟩)
    · exact none empty
    · exact (found ref ctx there).mpr holds

/-- The wrappers leave a closed context and one of no socket alone. -/
theorem shown_iff {α : Type} {shown hidden : α} : (if ctx.isClosed || !ctx.isSocket then shown else hidden) = shown ↔
    ctx.isClosed = true ∨ ctx.isSocket = false ∨ hidden = shown := by
  cases ctx.isClosed <;> cases ctx.isSocket <;> simp

end

/-! ### Transparency -/

theorem origin_inj {c c' : Origin} {w : World κ} {fds : FdManager} (same : origin T c ⟨w.sys, fds⟩ = origin T c' w) :
    T.system.origin c w.sys = T.system.origin c' w.sys ∧ fds = w.fds := by
  obtain ⟨value, world⟩ := Prod.mk.inj (Except.ok.inj same)
  obtain ⟨sys, fds⟩ := World.mk.inj world
  exact ⟨Prod.ext value sys, fds⟩

theorem origin_eq {c c' : Origin} {w : World κ} (same : T.system.origin c w.sys = T.system.origin c' w.sys) :
    origin T c w = origin T c' w := by
  rw [origin, origin, same]

/-- A descriptor for which `get` makes a context is not left alone. -/
theorem getCreate_unchanged {fd : Int} {w : World κ} {found : Option FdCtx.Ref}
    (got : getCreate T fd w = .ok (found, w)) : ∃ ref, w.fds.find fd true = .ok (some (some ref)) := by
  unfold getCreate at got
  split at got
  · cases got
  · rename_i done ran
    cases got
    cases looked : w.fds.find fd true with
    | error fault =>
      rw [FdManager.get, looked] at ran
      cases ran
    | ok answer =>
      cases answer with
      | some found =>
        obtain ⟨ref, rfl⟩ := FdManager.find_true_some looked
        exact ⟨ref, rfl⟩
      | none =>
        simp only [FdManager.get, looked] at ran
        split at ran
        · cases ran
        · rename_i made
          cases ran
          obtain ⟨place, _, grown⟩ := FdManager.create_ok made
          have count := congrArg (fun w => w.fds.contexts.length) grown
          simp [FdManager.install] at count

theorem accept_disabled_iff (off : T.hookEnable = false) (fuel : Nat) (sockfd : Int) (addr addrlen : Ptr)
    (w : World κ) :
    accept T fuel sockfd addr addrlen w = origin T (.accept sockfd addr addrlen) w ↔
      Passes T.system w (.accept sockfd addr addrlen) := by
  have ran : doIo T fuel sockfd (.accept sockfd addr addrlen) .read .rcvtimeo w =
      origin T (.accept sockfd addr addrlen) w := by
    rw [doIo_disabled off]
  rw [accept, bind_ran ran]
  constructor
  · intro same valid
    rw [if_pos valid] at same
    obtain ⟨found, after, got, returned⟩ := bind_ok same
    cases returned
    have there := getCreate_unchanged got
    exact there
  · intro passes
    split
    · rename_i valid
      obtain ⟨ref, found⟩ := passes valid
      have got : getCreate T (T.system.origin (.accept sockfd addr addrlen) w.sys).1
          { w with sys := (T.system.origin (.accept sockfd addr addrlen) w.sys).2 } =
            .ok (some ref, { w with sys := (T.system.origin (.accept sockfd addr addrlen) w.sys).2 }) := by
        simp only [getCreate, FdManager.get, found]
      rw [bind_ran got]
      rfl
    · rfl

theorem mode_eq_flags {flags : BitVec 32} {mode : Bool} (same : mode = hasNonblock flags) :
    (if mode then withNonblock flags else withoutNonblock flags) = flags := by
  cases flag : hasNonblock flags with
  | true => rw [same, flag, if_pos rfl, withNonblock_of_has flag]
  | false => rw [same, flag, if_neg Bool.false_ne_true, withoutNonblock_of_not flag]

theorem flags_eq_mode {flags : BitVec 32} {mode : Bool}
    (same : (if mode then withNonblock flags else withoutNonblock flags) = flags) : mode = hasNonblock flags := by
  cases mode with
  | true => rw [← same, if_pos rfl, hasNonblock_withNonblock]
  | false => rw [← same, if_neg Bool.false_ne_true, hasNonblock_withoutNonblock]

theorem setfl_disabled_iff (fd : Int) (flags : BitVec 32) (w : World κ) :
    fcntl T fd .setfl (.int flags) w = origin T (.fcntl fd .setfl (.int flags)) w ↔
      Passes T.system w (.fcntl fd .setfl (.int flags)) ∨ Indistinct T.system w (.fcntl fd .setfl (.int flags)) := by
  have passes : Passes T.system w (.fcntl fd .setfl (.int flags)) ↔ Unless w.fds fd fun ctx =>
      ctx.isClosed = true ∨ ctx.userNonblock = hasNonblock flags ∧ ctx.sysNonblock = hasNonblock flags := by
    constructor
    · rintro ⟨_, ⟨⟩, free⟩
      exact free
    · intro free
      exact ⟨flags, rfl, free⟩
  rw [passes, Indistinct, unless_or]
  refine unless_iff ?_ (fun none => setfl_none w.sys none flags) ?_
  · intro fault failed
    rw [fcntl, bind_ran (a := flags) rfl, bind_failed (peek_failed failed w.sys)]
    exact nofun
  · intro ref ctx there
    have ran : fcntl T fd .setfl (.int flags) w = _ := setfl_some w.sys there flags
    rw [ran]
    by_cases closed : ctx.isClosed = true
    · rw [if_pos closed]
      exact iff_of_true rfl (.inl (.inl closed))
    · rw [if_neg closed]
      constructor
      · intro same
        obtain ⟨told, unchanged⟩ := origin_inj same
        exact .inr ⟨mode_of_alter there unchanged, told⟩
      · rintro (free | ⟨user, told⟩)
        · obtain ⟨user, sys⟩ := free.resolve_left closed
          rw [alter_mode there user, mode_eq_flags sys]
        · rw [alter_mode there user]
          exact origin_eq told

theorem origin_plain {cmd : Cmd} (plain : cmd.plain = true) (fd : Int) (arg : Vararg) (w : World κ) :
    origin T (.fcntl fd cmd .absent) w = origin T (.fcntl fd cmd arg) w :=
  origin_eq (T.system.plain fd cmd arg w.sys plain).symm

theorem getfl_disabled_iff (fd : Int) (arg : Vararg) (w : World κ) :
    fcntl T fd .getfl arg w = origin T (.fcntl fd .getfl arg) w ↔ Passes T.system w (.fcntl fd .getfl arg) := by
  rw [← origin_plain rfl]
  refine unless_iff ?_ (fun none => getfl_none w.sys none arg) ?_
  · intro fault failed
    rw [fcntl, bind_ran rfl, bind_failed (peek_failed failed _)]
    exact nofun
  · intro ref ctx there
    have ran : fcntl T fd .getfl arg w = _ := getfl_some w.sys there arg
    rw [ran]
    refine shown_iff.trans (or_congr_right (or_congr_right ?_))
    have int := T.system.ints fd .getfl .absent w.sys
    constructor
    · intro same
      have value := (Prod.mk.inj (Except.ok.inj same)).1
      rw [← int, BitVec.ofInt_toInt] at value
      exact flags_eq_mode (BitVec.eq_of_toInt_eq value)
    · intro user
      rw [mode_eq_flags user, int, origin]

theorem fionbio_disabled_iff (fd : Int) (arg : Ptr) (w : World κ) :
    ioctl T fd .fionbio arg w = origin T (.ioctl fd .fionbio arg) w ↔ Passes T.system w (.ioctl fd .fionbio arg) := by
  cases value : T.system.int w.sys arg with
  | none =>
    have failed : ioctl T fd .fionbio arg w = .error (.fault .segfault) := by
      rw [ioctl, bind_failed]
      simp only [load, value]
    rw [failed]
    refine ⟨nofun, ?_⟩
    rintro ⟨_, other, _⟩
    cases value.symm.trans other
  | some v =>
    have passes : Passes T.system w (.ioctl fd .fionbio arg) ↔ Unless w.fds fd fun ctx =>
        ctx.isClosed = true ∨ ctx.isSocket = false ∨ ctx.userNonblock = (v != 0) := by
      constructor
      · rintro ⟨_, other, free⟩
        cases value.symm.trans other
        exact free
      · intro free
        exact ⟨v, value, free⟩
    rw [passes]
    refine unless_iff ?_ (fun none => fionbio_none w.sys value none) ?_
    · intro fault failed
      rw [ioctl, bind_ran (load_ran w.sys value), bind_failed (peek_failed failed w.sys)]
      exact nofun
    · intro ref ctx there
      have ran : ioctl T fd .fionbio arg w = _ := fionbio_some w.sys value there
      rw [ran]
      refine shown_iff.trans (or_congr_right (or_congr_right ?_))
      constructor
      · intro same
        exact mode_of_alter there (origin_inj same).2
      · intro user
        rw [alter_mode there user]

theorem fcntl_disabled_iff (fd : Int) (cmd : Cmd) (arg : Vararg) (w : World κ) :
    fcntl T fd cmd arg w = origin T (.fcntl fd cmd arg) w ↔
      Passes T.system w (.fcntl fd cmd arg) ∨ Indistinct T.system w (.fcntl fd cmd arg) := by
  cases cmd with
  | setfl =>
    cases arg with
    | int flags => exact setfl_disabled_iff fd flags w
    | absent | ptr _ =>
      refine ⟨nofun, ?_⟩
      rintro (⟨_, ⟨⟩, _⟩ | none)
      exact none.elim
  | getfl => exact (getfl_disabled_iff fd arg w).trans (or_iff_left id).symm
  | dupfd | dupfdCloexec | setfd | setown | setsig | setlease | notify | setpipeSz =>
    refine ⟨fun same => ?_, ?_⟩
    · cases arg with
      | int v => exact .inl ⟨v, rfl⟩
      | absent | ptr _ => cases same
    · rintro (⟨v, rfl⟩ | none)
      · rfl
      · exact none.elim
  | setlk | setlkw | getlk | getownEx | setownEx =>
    refine ⟨fun same => ?_, ?_⟩
    · cases arg with
      | ptr p => exact .inl ⟨p, rfl⟩
      | absent | int _ => cases same
    · rintro (⟨p, rfl⟩ | none)
      · rfl
      · exact none.elim
  | getfd | getown | getsig | getlease | getpipeSz =>
    exact ⟨fun _ => .inl trivial, fun _ => origin_plain rfl fd arg w⟩
  | other cmd =>
    constructor
    · intro same
      exact .inr (origin_inj same).1
    · rintro (absent | told)
      · cases absent
        rfl
      · exact origin_eq told

theorem nanosleep_disabled (off : T.hookEnable = false) (req rem : Ptr) (fuel : Nat) (w : World κ) :
    nanosleep T req rem fuel w = .error .outOfFuel := by
  induction fuel with
  | zero => rfl
  | succ fuel ih => rw [nanosleep, off, Bool.not_false, if_pos rfl, ih]

/-- With hooking disabled a wrapper returns what the original returns on the same arguments and changes what
the original changes exactly for the calls that it passes on, and for those whose change the original does
not tell apart. -/
theorem hooked_disabled_iff (T : Thread κ) (off : T.hookEnable = false) (fuel : Nat) (c : Origin) (w : World κ) :
    hooked T fuel c w = .ok ((T.system.origin c w.sys).1, ⟨(T.system.origin c w.sys).2, w.fds⟩) ↔
      Passes T.system w c ∨ Indistinct T.system w c := by
  show hooked T fuel c w = origin T c w ↔ _
  cases c with
  | nanosleep req rem =>
    rw [hooked, nanosleep_disabled off]
    exact ⟨nofun, fun none => (none.elim id id).elim⟩
  | accept sockfd addr addrlen =>
    exact (accept_disabled_iff off fuel sockfd addr addrlen w).trans (or_iff_left id).symm
  | fcntl fd cmd arg => exact fcntl_disabled_iff fd cmd arg w
  | ioctl fd request arg =>
    cases request with
    | fionbio => exact (fionbio_disabled_iff fd arg w).trans (or_iff_left id).symm
    | other request => exact ⟨fun _ => .inl trivial, fun _ => rfl⟩
  | sleep | usleep | socket | close | setsockopt =>
    refine ⟨fun _ => .inl trivial, fun _ => ?_⟩
    simp only [hooked, sleep, usleep, socket, close, setsockopt, off, Bool.not_false, if_true]
  | connect =>
    refine ⟨fun _ => .inl trivial, fun _ => ?_⟩
    simp only [hooked, connect, connectWithTimeout, off, Bool.not_false, if_true]
  | getsockopt => exact ⟨fun _ => .inl trivial, fun _ => rfl⟩
  | read | readv | recv | recvfrom | recvmsg | write | writev | send | sendto | sendmsg =>
    refine ⟨fun _ => .inl trivial, fun _ => ?_⟩
    simp only [hooked, read, readv, recv, recvfrom, recvmsg, write, writev, send, sendto, sendmsg, doIo_disabled off]

end HookFun

/-- Sockets with their flags. `socket` gives descriptor 3 and `accept` descriptor 4, the memory behind a
pointer holds the pointer, and a command of the `default:` fails without its argument. -/
def System.sockets : System (Int → BitVec 32) where
  origin
    | .socket _ _ _, k => (3, k)
    | .accept _ _ _, k => (4, k)
    | .fcntl fd .getfl _, k => ((k fd).toInt, k)
    | .fcntl fd .setfl (.int flags), k => (0, Function.update k fd flags)
    | .fcntl _ (.other _) .absent, k => (-1, k)
    | .ioctl fd .fionbio arg, k =>
      (0, Function.update k fd (if arg.setWidth 32 = 0#32 then withoutNonblock (k fd) else withNonblock (k fd)))
    | _, k => (0, k)
  errno _ := 0
  setErrno _ k := k
  fstat _ _ := some true
  int _ p := some (p.setWidth 32)
  timespec _ _ := some (0, 0)
  timeval _ _ := some (0, 0)
  plain fd cmd arg k plain := by
    cases cmd with
    | getfl | getfd | getown | getsig | getlease | getpipeSz => rfl
    | _ => cases plain
  ints fd cmd arg k := by
    cases cmd with
    | getfl => exact congrArg BitVec.toInt (BitVec.ofInt_toInt ..)
    | setfl => cases arg <;> rfl
    | other cmd => cases arg <;> rfl
    | _ => rfl

namespace HookFun

/-- A thread of that system whose fibers are resumed at once. -/
def Thread.sockets (hookEnable : Bool) : Thread (Int → BitVec 32) where
  system := .sockets
  hookEnable := hookEnable
  connectTimeout := 5000
  sleep _ w := w
  wait _ _ _ w := (.woken, w)
  cancelAll _ w := w
  error := 0
  len := 0

/-- `read`, and `F_SETFL` on a descriptor without context. -/
theorem hooked_disabled_iff_read :
    hooked (.sockets false) 0 (.read 3 0 8) ⟨fun _ => 2, .new⟩ = .ok (0, ⟨fun _ => 2, .new⟩) ∧
    hooked (.sockets false) 0 (.fcntl 3 .setfl (.int 0)) ⟨fun _ => 2, .new⟩ =
      .ok (0, ⟨Function.update (fun _ => 2) 3 0, .new⟩) :=
  ⟨(hooked_disabled_iff (.sockets false) rfl 0 (.read 3 0 8) ⟨fun _ => 2, .new⟩).mpr (.inl trivial),
    (hooked_disabled_iff (.sockets false) rfl 0 (.fcntl 3 .setfl (.int 0)) ⟨fun _ => 2, .new⟩).mpr
      (.inl ⟨0, rfl, .inl rfl⟩)⟩

/-- A process with a context for descriptor 4, as a hooked `accept` leaves it. -/
def accepted (hookEnable : Bool) : Except Stop (Int × World (Int → BitVec 32)) :=
  hooked (.sockets hookEnable) 0 (.accept 3 0 0) ⟨fun _ => 2, .new⟩

/-- With hooking disabled `nanosleep` does not return, `accept` makes a context and sets the flag of the
new descriptor, `F_GETFL` then hides the flag, `F_SETFL` adds it to its argument, and an `fcntl` command
of the `default:` loses its argument. -/
theorem disabled_differs :
    (∀ fuel, hooked (.sockets false) fuel (.nanosleep 0 0) ⟨fun _ => 2, .new⟩ = .error .outOfFuel) ∧
    (accepted false).map (fun done => (done.1, done.2.sys 4, done.2.fds.contexts.length)) = .ok (4, 0x802#32, 1) ∧
    (System.sockets.origin (.accept 3 0 0) (fun _ => 2)).2 4 = 2#32 ∧
    ((accepted false).bind fun done => hooked (.sockets false) 0 (.fcntl 4 .getfl .absent) done.2).map
      (fun done => done.1) = .ok 2 ∧
    ((accepted false).bind fun done => hooked (.sockets false) 0 (.fcntl 4 .setfl (.int 2)) done.2).map
      (fun done => done.2.sys 4) = .ok 0x802#32 ∧
    (hooked (.sockets false) 0 (.fcntl 3 (.other 1033) (.int 1)) ⟨fun _ => 2, .new⟩).map (fun done => done.1) =
      .ok (-1) ∧
    (System.sockets.origin (.fcntl 3 (.other 1033) (.int 1)) (fun _ => 2)).1 = 0 := by
  refine ⟨fun fuel => nanosleep_disabled rfl 0 0 fuel _, ?_, ?_, ?_, ?_, ?_, ?_⟩
  all_goals decide +kernel

end HookFun

end Cool
