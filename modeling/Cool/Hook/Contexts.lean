import Cool.Foundation.Triple
import Cool.Hook.Calls

/-!
# What the hooked functions do to the contexts

A hooked function gives a new descriptor a context, takes the context of a closed one away, and sets the two
timeouts and the mode of a context; nothing else. A property of the process that all of this keeps is kept by
every call, whatever the system answers.
-/

namespace Cool

namespace HookFun

open Foundation

variable {κ : Type} {T : Thread κ} {I : World κ → Prop}

/-- What the other fibers do while one of the thread's waits keeps the property. -/
structure Elsewhere (T : Thread κ) (I : World κ → Prop) : Prop where
  sleep : ∀ ms w, I w → I (T.sleep ms w)
  wait : ∀ fd event timeout w, I w → I (T.wait fd event timeout w).2
  cancelAll : ∀ fd w, I w → I (T.cancelAll fd w)

/-- The property is one of the contexts, and new contexts and other modes keep it. -/
structure Stable (S : System κ) (I : World κ → Prop) : Prop where
  system : ∀ w k, I w → I ⟨k, w.fds⟩
  create : ∀ fd ref w w', I w → FdManager.create S fd w = .ok (ref, w') → w.fds.find fd true = .ok none → I w'
  mode : ∀ ref v w, I w → I ⟨w.sys, w.fds.alter ref (FdCtx.setUserNonBlock v)⟩

/-- The calls that can end a property of that kind: those that take a context away or set a timeout. -/
def Spares (I : World κ → Prop) : Origin → Prop
  | .close fd => ∀ w fds, I w → w.fds.del fd = .ok fds → I ⟨w.sys, fds⟩
  | .setsockopt sockfd optname _ _ => ∀ type w ref ctx v, SockOpt.timeo optname = some type → I w →
      w.fds.peek sockfd = .ok (some (ref, ctx)) → I ⟨w.sys, w.fds.alter ref (FdCtx.setTimeout type v)⟩
  | _ => True

section

variable (elsewhere : Elsewhere T I) (stable : Stable T.system I)

include stable

theorem keeps_origin (c : Origin) : Keeps I (origin T c) := by
  intro w n w' before ran
  cases ran
  exact stable.system w _ before

theorem keeps_fail (e : Int) : Keeps I (fail T e) := by
  intro w n w' before ran
  cases ran
  exact stable.system w _ before

omit stable in
theorem keeps_errno : Keeps I (errno T) := by
  intro w n w' before ran
  cases ran
  exact before

omit stable in
theorem keeps_load {α : Type} (read : κ → Ptr → Option α) (p : Ptr) : Keeps I (load read p) := by
  intro w a w' before ran
  unfold load at ran
  split at ran
  · cases ran
  · cases ran
    exact before

omit stable in
theorem peek_found (fd : Int) : Triple I (peek fd) fun found w => I w ∧ w.fds.peek fd = .ok found := by
  intro w found w' before ran
  unfold peek at ran
  split at ran
  · cases ran
  · rename_i seen
    cases ran
    exact ⟨before, seen⟩

omit stable in
theorem keeps_peek (fd : Int) : Keeps I (peek fd) :=
  (peek_found fd).imp (fun _ before => before) fun _ _ after => after.1

omit stable in
theorem keeps_vaInt (arg : Vararg) : Keeps I (vaInt arg : Hooked κ (BitVec 32)) := by
  cases arg with
  | int arg => exact Keeps.pure arg
  | _ =>
    intro w v w' _ ran
    cases ran

omit stable in
theorem keeps_vaPtr (arg : Vararg) : Keeps I (vaPtr arg : Hooked κ Ptr) := by
  cases arg with
  | ptr arg => exact Keeps.pure arg
  | _ =>
    intro w v w' _ ran
    cases ran

theorem keeps_getCreate (fd : Int) : Keeps I (getCreate T fd) := by
  intro w found w' before ran
  unfold getCreate FdManager.get at ran
  cases first : w.fds.find fd true with
  | error fault =>
    rw [first] at ran
    cases ran
  | ok found =>
    cases found with
    | some found =>
      rw [first] at ran
      cases ran
      exact before
    | none =>
      rw [first] at ran
      cases made : FdManager.create T.system fd w with
      | error fault =>
        rw [made] at ran
        cases ran
      | ok done =>
        rw [made] at ran
        cases ran
        exact stable.create fd done.1 w done.2 before made first

theorem keeps_mode (ref : FdCtx.Ref) (v : Bool) : Keeps I (alter ref (FdCtx.setUserNonBlock v)) := by
  intro w u w' before ran
  cases ran
  exact stable.mode ref v w before

theorem keeps_fcntl (fd : Int) (cmd : Cmd) (arg : Vararg) : Keeps I (fcntl T fd cmd arg) := by
  cases cmd with
  | setfl =>
    refine (keeps_vaInt arg).bind fun flags => (keeps_peek fd).bind fun found => ?_
    cases found with
    | none => exact keeps_origin stable _
    | some found => exact .ite (keeps_origin stable _) ((keeps_mode stable _ _).bind fun _ => keeps_origin stable _)
  | getfl =>
    refine (keeps_origin stable _).bind fun flags => (keeps_peek fd).bind fun found => ?_
    cases found with
    | none => exact Keeps.pure _
    | some found => exact .ite (Keeps.pure _) (.ite (Keeps.pure _) (Keeps.pure _))
  | dupfd | dupfdCloexec | setfd | setown | setsig | setlease | notify | setpipeSz =>
    exact (keeps_vaInt arg).bind fun v => keeps_origin stable _
  | getfd | getown | getsig | getlease | getpipeSz | other _ => exact keeps_origin stable _
  | setlk | setlkw | getlk | getownEx | setownEx => exact (keeps_vaPtr arg).bind fun p => keeps_origin stable _

theorem keeps_ioctl (fd : Int) (request : Request) (arg : Ptr) : Keeps I (ioctl T fd request arg) := by
  cases request with
  | fionbio =>
    refine (keeps_load _ _).bind fun v => (keeps_peek fd).bind fun found => ?_
    cases found with
    | none => exact keeps_origin stable _
    | some found => exact .ite (keeps_origin stable _) ((keeps_mode stable _ _).bind fun _ => keeps_origin stable _)
  | other _ => exact keeps_origin stable _

theorem keeps_socket (domain type protocol : BitVec 32) : Keeps I (socket T domain type protocol) := by
  refine .ite (keeps_origin stable _) ((keeps_origin stable _).bind fun fd => ?_)
  exact .ite (Keeps.pure fd) ((keeps_getCreate stable fd).bind fun _ => Keeps.pure fd)

theorem keeps_setsockopt {sockfd : Int} {optname : SockOpt} {optval : Ptr} {optlen : UInt32}
    (spares : Spares I (.setsockopt sockfd optname optval optlen)) :
    Keeps I (setsockopt T sockfd optname optval optlen) := by
  refine .ite (keeps_origin stable _) ?_
  dsimp only
  cases timeo : SockOpt.timeo optname with
  | none => exact keeps_origin stable _
  | some type =>
    refine (peek_found sockfd).bind fun found => ?_
    cases found with
    | none => exact (keeps_origin stable _).imp (fun _ before => before.1) fun _ _ after => after
    | some found =>
      refine (keeps_load _ _).bind fun time => Triple.bind ?_ fun _ => keeps_origin stable _
      intro w u w' before ran
      cases ran
      exact spares type w found.1 found.2 _ timeo before.1 before.2

include elsewhere

omit stable in
theorem keeps_waitFor (fd : Int) (event : IOManager.Event) (timeout : UInt64) :
    Keeps I (waitFor T fd event timeout) := by
  intro w found w' before ran
  have same : w' = (T.wait fd event timeout w).2 := congrArg Prod.snd (Except.ok.inj ran).symm
  rw [same]
  exact elsewhere.wait fd event timeout w before

omit stable in
theorem keeps_sleepFor (ms : UInt64) : Keeps I (sleepFor T ms) := by
  intro w n w' before ran
  cases ran
  exact elsewhere.sleep ms w before

omit stable in
theorem keeps_nanosleep (req rem : Ptr) (fuel : Nat) : Keeps I (nanosleep T req rem fuel) := by
  induction fuel with
  | zero =>
    intro w n w' _ ran
    cases ran
  | succ fuel ih => exact .ite ih ((keeps_load _ _).bind fun time => keeps_sleepFor elsewhere _)

theorem keeps_connectWithTimeout (sockfd : Int) (addr : Ptr) (addrlen : UInt32) (timeoutMs : UInt64) :
    Keeps I (connectWithTimeout T sockfd addr addrlen timeoutMs) := by
  refine .ite (keeps_origin stable _) ((keeps_peek sockfd).bind fun found => ?_)
  cases found with
  | none => exact keeps_fail stable _
  | some found =>
    refine .ite (keeps_fail stable _) (.ite (keeps_origin stable _) ?_)
    refine (keeps_origin stable _).bind fun n => keeps_errno.bind fun e => ?_
    refine .ite (Keeps.pure _) (.ite (Keeps.pure _) ((keeps_waitFor elsewhere _ _ _).bind fun wake => ?_))
    have answers : Keeps I (do
        if (← getsockopt T sockfd soError T.error T.len) = -1 then return -1
        let error ← load T.system.int T.error
        if error = 0 then return 0 else fail T error.toInt) := by
      refine (keeps_origin stable _).bind fun answer => .ite (Keeps.pure _) ((keeps_load _ _).bind fun error => ?_)
      exact .ite (Keeps.pure _) (keeps_fail stable _)
    cases wake with
    | cancelled e => exact keeps_fail stable e
    | refused | woken => exact answers

theorem keeps_close {fd : Int} (spares : Spares I (.close fd)) : Keeps I (close T fd) := by
  have cancelled : Keeps I (modify (T.cancelAll fd) : Hooked κ PUnit) := by
    intro w u w' before ran
    cases ran
    exact elsewhere.cancelAll fd w before
  have deleted : Keeps I (delete fd) := by
    intro w u w' before ran
    unfold delete at ran
    split at ran
    · cases ran
    · rename_i gone
      cases ran
      exact spares w _ before gone
  refine .ite (keeps_origin stable _) ((keeps_peek fd).bind fun found => ?_)
  dsimp only
  exact .ite (cancelled.bind fun _ => deleted.bind fun _ => keeps_origin stable _) (keeps_origin stable _)

theorem keeps_retry (fd : Int) (fun_ : Origin) (event : IOManager.Event) (timeout : UInt64) (fuel : Nat) :
    Keeps I (retry T fd fun_ event timeout fuel) := by
  induction fuel with
  | zero =>
    intro w n w' _ ran
    cases ran
  | succ fuel ih =>
    rw [retry]
    refine (keeps_origin stable fun_).bind fun n => keeps_errno.bind fun e => ?_
    refine .ite ih (.ite ((keeps_waitFor elsewhere _ _ _).bind fun wake => ?_) (Keeps.pure n))
    cases wake with
    | refused => exact Keeps.pure _
    | cancelled e => exact keeps_fail stable e
    | woken => exact ih

theorem keeps_doIo (fuel : Nat) (fd : Int) (fun_ : Origin) (event : IOManager.Event) (timeoutSo : Timeo) :
    Keeps I (doIo T fuel fd fun_ event timeoutSo) := by
  intro w n w' before ran
  unfold doIo at ran
  split at ran
  · cases ran
  · exact keeps_origin stable _ w n w' before ran
  · exact keeps_fail stable _ w n w' before ran
  · exact keeps_retry elsewhere stable _ _ _ _ _ w n w' before ran

theorem hooked_keeps (fuel : Nat) {c : Origin} (spares : Spares I c) : Keeps I (hooked T fuel c) := by
  cases c with
  | sleep | usleep => exact .ite (keeps_origin stable _) (keeps_sleepFor elsewhere _)
  | nanosleep => exact keeps_nanosleep elsewhere _ _ _
  | socket => exact keeps_socket stable _ _ _
  | connect => exact keeps_connectWithTimeout elsewhere stable _ _ _ _
  | accept =>
    refine (keeps_doIo elsewhere stable _ _ _ _ _).bind fun fd => ?_
    exact .ite ((keeps_getCreate stable fd).bind fun _ => Keeps.pure fd) (Keeps.pure fd)
  | read | readv | recv | recvfrom | recvmsg | write | writev | send | sendto | sendmsg =>
    exact keeps_doIo elsewhere stable _ _ _ _ _
  | close => exact keeps_close elsewhere stable spares
  | fcntl => exact keeps_fcntl stable _ _ _
  | ioctl => exact keeps_ioctl stable _ _ _
  | getsockopt => exact keeps_origin stable _
  | setsockopt => exact keeps_setsockopt stable spares

end

end HookFun

end Cool
