import Cool.Hook.Calls
import Cool.Foundation.Run

/-!
# The two levels of the non-blocking mode

A socket that a hooked `socket` or `accept` has given to the user is non-blocking for the kernel, and
`FdCtx` keeps the mode that the user sees. Calls on the descriptor come in any order; a call of `do_io` is
the choice of its route and then calls of the original function, between which others may come.
-/

namespace Cool

open Foundation

namespace HookFun

variable {κ : Type}

/-- The descriptor of a call that goes through `do_io`. -/
def ioOn : Origin → Option Int
  | .accept sockfd _ _ => some sockfd
  | .read fd _ _ => some fd
  | .readv fd _ _ => some fd
  | .recv sockfd _ _ _ => some sockfd
  | .recvfrom sockfd _ _ _ _ _ => some sockfd
  | .recvmsg sockfd _ _ => some sockfd
  | .write fd _ _ => some fd
  | .writev fd _ _ => some fd
  | .send sockfd _ _ _ => some sockfd
  | .sendto sockfd _ _ _ _ _ => some sockfd
  | .sendmsg sockfd _ _ => some sockfd
  | _ => none

/-- Where the system keeps `O_NONBLOCK` of a descriptor, and which calls change it. -/
structure Posix (S : System κ) where
  nonblock : κ → Int → Bool
  setfl : ∀ k fd flags, (S.origin (.fcntl fd .setfl (.int flags)) k).1 ≠ -1 →
    nonblock (S.origin (.fcntl fd .setfl (.int flags)) k).2 fd = hasNonblock flags
  setfl_fails : ∀ k fd flags, (S.origin (.fcntl fd .setfl (.int flags)) k).1 = -1 →
    nonblock (S.origin (.fcntl fd .setfl (.int flags)) k).2 fd = nonblock k fd
  getfl : ∀ k fd, nonblock (S.origin (.fcntl fd .getfl .absent) k).2 fd = nonblock k fd
  /-- The flags of a socket can be read, and set again with `O_NONBLOCK` added. -/
  reports : ∀ k fd, S.fstat k fd = some true →
    hasNonblock (BitVec.ofInt 32 (S.origin (.fcntl fd .getfl .absent) k).1) = nonblock k fd
  settable : ∀ k fd, S.fstat k fd = some true →
    (S.origin (.fcntl fd .setfl (.int (withNonblock (BitVec.ofInt 32 (S.origin (.fcntl fd .getfl .absent) k).1))))
      (S.origin (.fcntl fd .getfl .absent) k).2).1 ≠ -1
  fionbio : ∀ k fd arg v, S.int k arg = some v → (S.origin (.ioctl fd .fionbio arg) k).1 = 0 →
    nonblock (S.origin (.ioctl fd .fionbio arg) k).2 fd = (v != 0)
  fionbio_fails : ∀ k fd arg, (S.origin (.ioctl fd .fionbio arg) k).1 ≠ 0 →
    nonblock (S.origin (.ioctl fd .fionbio arg) k).2 fd = nonblock k fd
  io : ∀ k fd c, ioOn c = some fd → nonblock (S.origin c k).2 fd = nonblock k fd

/-- A hooked `socket` or `accept` has returned a socket, for which there was no context before. -/
inductive Opened (T : Thread κ) (fd : Int) (w : World κ) : Prop where
  | socket (domain type protocol : BitVec 32) (w₀ : World κ) (enabled : T.hookEnable = true)
      (free : w₀.fds.find fd true = .ok none)
      (sock : T.system.fstat (T.system.origin (.socket domain type protocol) w₀.sys).2 fd = some true)
      (done : socket T domain type protocol w₀ = .ok (fd, w))
  | accept (fuel : Nat) (sockfd : Int) (addr addrlen : Ptr) (w₀ w₁ : World κ)
      (io : doIo T fuel sockfd (.accept sockfd addr addrlen) .read .rcvtimeo w₀ = .ok (fd, w₁))
      (free : w₁.fds.find fd true = .ok none) (sock : T.system.fstat w₁.sys fd = some true)
      (done : accept T fuel sockfd addr addrlen w₀ = .ok (fd, w))

/-- The process, and the mode the user has asked for last. -/
structure Descriptor (κ : Type) where
  world : World κ
  asked : Bool

inductive UserCall where
  | setfl (flags : BitVec 32)
  | getfl
  | fionbio (arg : Ptr)
  /-- A call of the original function by a `do_io` on the descriptor. -/
  | io (c : Origin)
  deriving DecidableEq, Repr

namespace Descriptor

/-- A call that returns, and the mode that is asked for from then on. -/
def after (asked : Bool) : Except Stop (Int × World κ) → Except Stop (Descriptor κ)
  | .error stop => .error stop
  | .ok (_, w) => .ok ⟨w, asked⟩

def next (T : Thread κ) (fd : Int) (s : Descriptor κ) : UserCall → Except Stop (Descriptor κ)
  | .setfl flags => after (hasNonblock flags) (fcntl T fd .setfl (.int flags) s.world)
  | .getfl => after s.asked (fcntl T fd .getfl .absent s.world)
  | .fionbio arg => after (T.system.int s.world.sys arg != some 0) (ioctl T fd .fionbio arg s.world)
  | .io c => if ioOn c = some fd then after s.asked (origin T c s.world) else .ok s

/-- A call that is not a successful `ioctl(FIONBIO)` with 0. -/
def Keeps (T : Thread κ) (fd : Int) (s : Descriptor κ) : UserCall → Prop
  | .fionbio arg => T.system.int s.world.sys arg = some 0 →
      (T.system.origin (.ioctl fd .fionbio arg) s.world.sys).1 ≠ 0
  | _ => True

def Step (T : Thread κ) (fd : Int) (s : Descriptor κ) (a : UserCall) (t : Descriptor κ) : Prop :=
  s.Keeps T fd a ∧ s.next T fd a = .ok t

end Descriptor

section

variable {T : Thread κ} (P : Posix T.system) {fd : Int} {w : World κ}

include P in
/-- `FdCtx::init` on a socket. -/
theorem forceNonblock_sets {k : κ} (sock : T.system.fstat k fd = some true) :
    P.nonblock (FdCtx.forceNonblock T.system fd k) fd = true := by
  have read := T.system.plain fd .getfl (.int 0) k rfl
  unfold FdCtx.forceNonblock
  simp only [read]
  split
  · rename_i set
    rw [P.getfl, ← P.reports k fd sock]
    exact set
  · rw [P.setfl _ _ _ (P.settable k fd sock)]
    exact hasNonblock_withNonblock _

theorem new_of_socket {k : κ} (sock : T.system.fstat k fd = some true) :
    FdCtx.new T.system fd k =
      (⟨true, true, false, true, false, fd, -1, -1⟩, FdCtx.forceNonblock T.system fd k) := by
  simp [FdCtx.new, FdCtx.init, sock]

/-- The context of the descriptor has the mode that the user has asked for. -/
def Mode (fd : Int) (s : Descriptor κ) : Prop :=
  ∃ ref ctx, s.world.fds.peek fd = .ok (some (ref, ctx)) ∧ ctx.isSocket = true ∧ ctx.isClosed = false ∧
    ctx.sysNonblock = true ∧ ctx.userNonblock = s.asked

/-- The mode of the user in the context, and the flag in the kernel. -/
structure TwoLevel (fd : Int) (s : Descriptor κ) : Prop where
  mode : Mode fd s
  flag : P.nonblock s.world.sys fd = true

/-- `get(fd, true)` where there is no context. -/
theorem getCreate_free {k : κ} {m : FdManager} (free : m.find fd true = .ok none) {found : Option FdCtx.Ref}
    (got : getCreate T fd ⟨k, m⟩ = .ok (found, w)) : ∃ ref, FdManager.create T.system fd ⟨k, m⟩ = .ok (ref, w) := by
  simp only [getCreate, FdManager.get, free] at got
  cases made : FdManager.create T.system fd ⟨k, m⟩ with
  | error fault => rw [made] at got; cases got
  | ok done =>
    rw [made] at got
    cases got
    exact ⟨_, rfl⟩

theorem Opened.created (opened : Opened T fd w) :
    ∃ w₁ ref, T.system.fstat w₁.sys fd = some true ∧ FdManager.create T.system fd w₁ = .ok (ref, w) := by
  cases opened with
  | socket domain type protocol w₀ enabled free sock done =>
    rw [HookFun.socket, enabled, Bool.not_true, if_neg Bool.false_ne_true, bind_ran rfl] at done
    split at done
    · rename_i failed
      cases done
      have valid := FdManager.nonneg_of_find free
      omega
    · obtain ⟨_, w₁, got, done⟩ := bind_ok done
      cases done
      obtain ⟨ref, made⟩ := getCreate_free free got
      exact ⟨_, ref, sock, made⟩
  | accept fuel sockfd addr addrlen w₀ w₁ io free sock done =>
    rw [HookFun.accept, bind_ran io, if_pos (FdManager.nonneg_of_find free)] at done
    obtain ⟨_, w₂, got, done⟩ := bind_ok done
    cases done
    obtain ⟨ref, made⟩ := getCreate_free free got
    exact ⟨w₁, ref, sock, made⟩

theorem twoLevel_opened (opened : Opened T fd w) : TwoLevel P fd ⟨w, false⟩ := by
  obtain ⟨w₁, ref, sock, made⟩ := opened.created
  obtain ⟨place, found, rfl⟩ := FdManager.create_ok made
  rw [new_of_socket sock]
  exact ⟨⟨_, _, FdManager.peek_install found _, rfl, rfl, rfl, rfl⟩, forceNonblock_sets P sock⟩

end

section

variable {T : Thread κ} {P : Posix T.system} {fd : Int} {s t : Descriptor κ}

/-- `F_SETFL` always passes the flag on. -/
theorem TwoLevel.setfl (h : TwoLevel P fd s) {flags : BitVec 32} (done : s.next T fd (.setfl flags) = .ok t) :
    TwoLevel P fd t := by
  obtain ⟨ref, ctx, there, socket, open_, sys, user⟩ := h.mode
  have ran := setfl_some (T := T) s.world.sys there flags
  rw [if_neg (by rw [open_]; exact Bool.false_ne_true), if_pos sys] at ran
  cases (congrArg (Descriptor.after (hasNonblock flags)) ran).symm.trans done
  refine ⟨⟨ref, _, FdManager.peek_alter there _, socket, open_, sys, rfl⟩, ?_⟩
  show P.nonblock (T.system.origin (.fcntl fd .setfl (.int (withNonblock flags))) s.world.sys).2 fd = true
  by_cases failed : (T.system.origin (.fcntl fd .setfl (.int (withNonblock flags))) s.world.sys).1 = -1
  · exact (P.setfl_fails _ _ _ failed).trans h.flag
  · exact (P.setfl _ _ _ failed).trans (hasNonblock_withNonblock flags)

theorem TwoLevel.getfl (h : TwoLevel P fd s) :
    ∃ flags w, fcntl T fd .getfl .absent s.world = .ok (flags, w) ∧
      hasNonblock (BitVec.ofInt 32 flags) = s.asked ∧ TwoLevel P fd ⟨w, s.asked⟩ := by
  obtain ⟨ref, ctx, there, socket, open_, sys, user⟩ := h.mode
  have ran := getfl_some (T := T) s.world.sys there .absent
  rw [if_neg (by simp [open_, socket])] at ran
  refine ⟨_, _, ran, ?_, ⟨ref, ctx, there, socket, open_, sys, user⟩, (P.getfl _ _).trans h.flag⟩
  rw [BitVec.ofInt_toInt, ← user]
  cases ctx.userNonblock
  · exact hasNonblock_withoutNonblock _
  · exact hasNonblock_withNonblock _

/-- `FIONBIO` records the mode as well, and then the kernel does what it is told. -/
theorem Mode.fionbio (h : Mode fd s) {arg : Ptr} (done : s.next T fd (.fionbio arg) = .ok t) :
    Mode fd t ∧ ∃ v, T.system.int s.world.sys arg = some v ∧
      t.world.sys = (T.system.origin (.ioctl fd .fionbio arg) s.world.sys).2 := by
  obtain ⟨ref, ctx, there, socket, open_, sys, user⟩ := h
  cases value : T.system.int s.world.sys arg with
  | none =>
    have fault : ioctl T fd .fionbio arg s.world = .error (.fault .segfault) := by
      show (load T.system.int arg >>= _) s.world = _
      have failed : load T.system.int arg s.world = .error (.fault .segfault) := by
        simp only [load, value]
      simp only [bind, StateT.bind, failed, Except.bind]
    rw [Descriptor.next, fault] at done
    cases done
  | some v =>
    have ran := fionbio_some (T := T) s.world.sys value there
    rw [if_neg (by simp [open_, socket])] at ran
    cases (congrArg (Descriptor.after (T.system.int s.world.sys arg != some 0)) ran).symm.trans done
    refine ⟨⟨ref, _, FdManager.peek_alter there _, socket, open_, sys, ?_⟩, v, rfl, rfl⟩
    show (v != 0) = (T.system.int s.world.sys arg != some 0)
    rw [value]
    rfl

/-- Every call keeps the mode of the user. The flag it leaves set unless it is a successful `FIONBIO`
with 0. -/
theorem TwoLevel.next (h : TwoLevel P fd s) {a : UserCall} (done : s.next T fd a = .ok t) :
    Mode fd t ∧ (P.nonblock t.world.sys fd = true ↔ s.Keeps T fd a) := by
  cases a with
  | setfl flags =>
    have kept := h.setfl done
    exact ⟨kept.mode, fun _ => trivial, fun _ => kept.flag⟩
  | getfl =>
    obtain ⟨flags, w, ran, _, kept⟩ := h.getfl
    cases (congrArg (Descriptor.after s.asked) ran).symm.trans done
    exact ⟨kept.mode, fun _ => trivial, fun _ => kept.flag⟩
  | io c =>
    rw [Descriptor.next] at done
    split at done
    · rename_i here
      cases done
      exact ⟨h.mode, fun _ => trivial, fun _ => (P.io _ _ _ here).trans h.flag⟩
    · cases done
      exact ⟨h.mode, fun _ => trivial, fun _ => h.flag⟩
  | fionbio arg =>
    obtain ⟨mode, v, value, sys⟩ := h.mode.fionbio done
    refine ⟨mode, ?_⟩
    rw [sys]
    show _ ↔ (T.system.int s.world.sys arg = some 0 → _)
    rw [value]
    by_cases ok : (T.system.origin (.ioctl fd .fionbio arg) s.world.sys).1 = 0
    · rw [P.fionbio _ _ _ _ value ok]
      simp [ok]
    · rw [P.fionbio_fails _ _ _ ok, h.flag]
      simp [ok]

theorem twoLevel_of_run (P : Posix T.system) {w : World κ} (opened : Opened T fd w) {as : List UserCall}
    (run : Run (Descriptor.Step T fd) ⟨w, false⟩ as t) : TwoLevel P fd t := by
  refine run.invariant ?_ (twoLevel_opened P opened)
  intro s a t h step
  obtain ⟨mode, flag⟩ := h.next step.2
  exact ⟨mode, flag.mpr step.1⟩

/-- `do_io` goes straight to the original function. -/
theorem Mode.route (h : Mode fd s) (enabled : T.hookEnable = true) (timeoutSo : Timeo) :
    route T s.world.fds fd timeoutSo = .ok .direct ↔ s.asked = true := by
  obtain ⟨ref, ctx, there, socket, open_, sys, user⟩ := h
  rw [← user]
  simp only [HookFun.route, enabled, there, open_, socket]
  cases ctx.userNonblock <;> simp

/-- As long as no `ioctl(FIONBIO)` with 0 succeeds, the flag stays set, `F_GETFL` reports the mode the
user has asked for, and `do_io` goes by it. Such an `ioctl`, and no other call, clears the flag. -/
theorem nonblock_kept (P : Posix T.system) {w : World κ} (opened : Opened T fd w) {as : List UserCall}
    (run : Run (Descriptor.Step T fd) ⟨w, false⟩ as t) :
    P.nonblock t.world.sys fd = true ∧
    (∃ flags w', fcntl T fd .getfl .absent t.world = .ok (flags, w') ∧
      hasNonblock (BitVec.ofInt 32 flags) = t.asked) ∧
    (T.hookEnable = true → ∀ timeoutSo, route T t.world.fds fd timeoutSo = .ok .direct ↔ t.asked = true) ∧
    ∀ a u, t.next T fd a = .ok u → (P.nonblock u.world.sys fd = true ↔ t.Keeps T fd a) := by
  have h := twoLevel_of_run P opened run
  obtain ⟨flags, w', ran, shown, _⟩ := h.getfl
  exact ⟨h.flag, ⟨flags, w', ran, shown⟩, fun enabled timeoutSo => h.mode.route enabled timeoutSo,
    fun a u done => (h.next done).2⟩

end

def Posix.sockets : Posix System.sockets where
  nonblock k fd := hasNonblock (k fd)
  setfl k fd flags _ := congrArg hasNonblock (Function.update_self ..)
  setfl_fails k fd flags failed := by cases failed
  getfl k fd := rfl
  reports k fd _ := congrArg hasNonblock (BitVec.ofInt_toInt ..)
  settable k fd _ := by
    intro failed
    cases failed
  fionbio k fd arg v value _ := by
    cases value
    show hasNonblock (Function.update k fd _ fd) = _
    rw [Function.update_self]
    by_cases zero : arg.setWidth 32 = 0#32
    · rw [if_pos zero, zero, hasNonblock_withoutNonblock]
      rfl
    · rw [if_neg zero, hasNonblock_withNonblock]
      exact (bne_iff_ne.mpr zero).symm
  fionbio_fails k fd arg failed := absurd rfl failed
  io k fd c here := by cases c <;> first | rfl | cases here

/-- What a hooked `socket` leaves of a process without contexts. -/
def opened : World (Int → BitVec 32) where
  sys := Function.update (fun _ => 2) 3 0x802#32
  fds := FdManager.new.install 3 ⟨true, true, false, true, false, 3, -1, -1⟩

theorem opened_ok : Opened (.sockets true) 3 opened := by
  refine .socket 2 1 0 ⟨fun _ => 2, .new⟩ rfl rfl rfl ?_
  rfl

/-- The user sets the mode and clears it again with `F_SETFL`. -/
theorem nonblock_kept_setfl :
    ∃ t, Run (Descriptor.Step (.sockets true) 3) ⟨opened, false⟩ [.setfl 0x802#32, .setfl 2] t ∧
      t.asked = false ∧ Posix.sockets.nonblock t.world.sys 3 = true := by
  have set : Descriptor.Step (.sockets true) 3 ⟨opened, false⟩ (.setfl 0x802#32) _ := ⟨trivial, rfl⟩
  have run := (Run.nil.snoc set).snoc (a := UserCall.setfl 2) ⟨trivial, rfl⟩
  exact ⟨_, run, rfl, (nonblock_kept .sockets opened_ok run).1⟩

/-- `ioctl(FIONBIO)` with 0 makes the socket blocking. A socket whose number has an old context in the
table is blocking from the start. -/
theorem fionbio_clears :
    Opened (.sockets true) 3 opened ∧
    (Descriptor.next (.sockets true) 3 ⟨opened, false⟩ (.fionbio 0)).map
      (fun t => Posix.sockets.nonblock t.world.sys 3) = .ok false ∧
    (socket (.sockets true) 2 1 0 ⟨fun _ => 2, opened.fds⟩).map
      (fun done => (done.1, Posix.sockets.nonblock done.2.sys 3)) = .ok (3, false) := by
  refine ⟨opened_ok, ?_, ?_⟩
  all_goals decide +kernel

end HookFun

end Cool
