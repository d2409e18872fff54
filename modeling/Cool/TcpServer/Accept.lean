import Cool.Foundation.Run
import Cool.IOManager.Registry

/-!
# Accepting and stopping

`start` gives every socket of `m_socks` a fiber that runs `start_accept`, and `stop` has the accepting
`IOManager` cancel and close these sockets in one more task. Each loop waits inside of the hooked
`accept`; what wakes it up when the server stops is `cancekAll`, called twice for every socket: by
`cancelAll` and by the hooked `close`. Here all the fibers run step by step on a number of threads, with
the connections that arrive and what `epoll_wait` reports.

A socket stands for the descriptor it was made with. The sockets are bound before `start`, on a hooked
thread and with no receive timeout, so `do_io` arms no timer. `do_io` keeps the number of the descriptor
while its fiber waits, and the kernel can give the number of a closed one to another listening socket of
the program. `epoll_ctl` does not fail where it takes a registered event back.
-/

namespace Cool

namespace Accepting

open IOManager

/-- A socket of the server: open, without its `FdCtx`, with a closed descriptor, and with `m_sock = -1`. -/
inductive Phase where
  | listening
  | forgotten
  | closed
  | invalid
  deriving DecidableEq, Repr

def Phase.isOpen : Phase → Bool
  | .listening | .forgotten => true
  | .closed | .invalid => false

/-- The next statement of `start_accept`, and of the `accept` and `do_io` it calls. -/
inductive Pc (χ : Type) where
  | unstarted
  | scheduled
  | test
  | enter
  | attempt (hooked : Bool)
  | add
  | yield
  | parked
  | init (client : χ)
  | ended
  deriving DecidableEq, Repr

namespace Pc

variable {χ : Type}

/-- A thread is at work on the fiber. -/
def running : Pc χ → Bool
  | .test | .enter | .attempt _ | .add | .yield | .init _ => true
  | .unstarted | .scheduled | .parked | .ended => false

/-- Behind `addEvent`, and not resumed yet. -/
def waiting : Pc χ → Bool
  | .yield | .parked => true
  | _ => false

/-- The connection that `accept_f` has returned and `init` has not seen. -/
def hand : Pc χ → List χ
  | .init client => [client]
  | _ => []

end Pc

/-- The next statement of the task of `stop` for one socket. -/
inductive Sweep where
  | cancelAll
  | cancel
  | del
  | close
  | reset
  deriving DecidableEq, Repr

inductive Closer where
  | idle
  | scheduled
  | sweep (fd : Fd) (rest : List Fd) (stage : Sweep)
  | done
  deriving DecidableEq, Repr

def Closer.running : Closer → Bool
  | .sweep .. => true
  | _ => false

/-- `nullData` is the read of `m_datas[-1]`. -/
inductive Fault where
  | event (fault : IOManager.Fault)
  | nullData
  deriving DecidableEq, Repr

end Accepting

open Accepting IOManager

/-- A server whose loops run on `io`. `backlog` are the connections that wait in the kernel, `reset` those
it drops when the descriptor is closed, and `taken` is how often the fiber of a loop has been resumed.
`handled` are the connections that `init` was called with, and whether the client went to `m_worker`.
A number is `reused` when it belongs to a listening socket that is not of this server. -/
structure Accepting (κ χ : Type) where
  io : IOManager κ Fd
  isStop : Bool
  isStart : Bool
  socks : List Fd
  phase : Fd → Phase
  reused : Fd → Bool
  pc : Fd → Pc χ
  taken : Fd → Nat
  closer : Closer
  arrived : Fd → List χ
  backlog : Fd → List χ
  reset : Fd → List χ
  handled : List (Fd × χ × Bool)

namespace Accepting

open Foundation

variable {κ χ : Type}

/-- The server after its calls of `bind`. -/
def new (bound : List Fd) : Accepting κ χ where
  io := IOManager.new
  isStop := false
  isStart := false
  socks := bound
  phase fd := if fd ∈ bound then .listening else .invalid
  reused _ := false
  pc _ := .unstarted
  taken _ := 0
  closer := .idle
  arrived _ := []
  backlog _ := []
  reset _ := []
  handled := []

def goto (s : Accepting κ χ) (fd : Fd) (pc : Pc χ) : Accepting κ χ :=
  { s with pc := Function.update s.pc fd pc }

/-- `start`: the loops are scheduled. -/
def start (s : Accepting κ χ) : Accepting κ χ :=
  if s.isStart then s
  else { s with isStart := true, pc := fun fd => if fd ∈ s.socks then .scheduled else s.pc fd }

/-- `stop`: the task is scheduled. -/
def stop (s : Accepting κ χ) : Accepting κ χ :=
  if s.isStop then s else { s with isStop := true, closer := .scheduled }

/-- The head of the loop over `m_socks`, and `m_socks.clear()` behind it. -/
def sweepNext (s : Accepting κ χ) : List Fd → Accepting κ χ
  | [] => { s with closer := .done, socks := [] }
  | fd :: rest => { s with closer := .sweep fd rest .cancelAll }

def cancekAll (s : Accepting κ χ) (fd : Fd) (closer : Closer) : Except Fault (Accepting κ χ) :=
  match s.io.cancekAll fd true with
  | .error fault => .error (.event fault)
  | .ok (_, io) => .ok { s with io := io, closer := closer }

/-- The next statement of the task of `stop`: `sock->cancelAll()`, and then `sock->close()`, which is the
hooked `close` on a descriptor that has its `FdCtx`, and `m_sock = -1`. -/
def close (s : Accepting κ χ) : Except Fault (Accepting κ χ) :=
  match s.closer with
  | .idle => .ok s
  | .scheduled => .ok (s.sweepNext s.socks)
  | .sweep fd rest .cancelAll => s.cancekAll fd (.sweep fd rest .cancel)
  | .sweep fd rest .cancel => s.cancekAll fd (.sweep fd rest .del)
  | .sweep fd rest .del =>
    .ok { s with phase := Function.update s.phase fd .forgotten, closer := .sweep fd rest .close }
  | .sweep fd rest .close =>
    -- the kernel stops watching the descriptor and resets what nobody has accepted
    .ok { s with
      io := s.io.setInterest fd none
      phase := Function.update s.phase fd .closed
      backlog := Function.update s.backlog fd []
      reset := Function.update s.reset fd (s.reset fd ++ s.backlog fd)
      closer := .sweep fd rest .reset }
  | .sweep fd rest .reset => .ok ({ s with phase := Function.update s.phase fd .invalid }.sweepNext rest)
  | .done => .ok s

/-- The kernel gives a number out again that no descriptor has. -/
def reopen (s : Accepting κ χ) (fd : Fd) : Accepting κ χ :=
  if (s.phase fd).isOpen then s else { s with reused := Function.update s.reused fd true }

/-- A socket that listens has the number. -/
def isOpen (s : Accepting κ χ) (fd : Fd) : Bool := (s.phase fd).isOpen || s.reused fd

def connect (s : Accepting κ χ) (fd : Fd) (client : χ) : Accepting κ χ :=
  if s.isOpen fd then
    { s with
      arrived := Function.update s.arrived fd (s.arrived fd ++ [client])
      backlog := Function.update s.backlog fd (s.backlog fd ++ [client]) }
  else s

/-- `epoll_wait` reports a descriptor on which connections wait. -/
def ready (s : Accepting κ χ) (fd : Fd) : Except Fault (Accepting κ χ) :=
  if (s.backlog fd).isEmpty then .ok s
  else
    match s.io.deliver fd epollIn true with
    | .error fault => .error (.event fault)
    | .ok io => .ok { s with io := io }

theorem addEvent_cases {φ : Type} {m io : IOManager κ φ} {fd : Fd} {ok : Bool} {event : Event} {scheduler : SchedulerId} {fiber : φ}
    {cb : Option κ} {rt : Int} (added : m.addEvent fd event scheduler fiber cb ok = .ok (rt, io)) :
    rt = -1 ∧ io = m ∨ rt = 0 ∧ ok = true := by
  unfold IOManager.addEvent at added
  dsimp only at added
  split at added
  · cases added
  · split at added
    · cases added
      exact .inl ⟨rfl, rfl⟩
    · rename_i ctl
      split at added
      · cases added
      · cases added
        right
        refine ⟨rfl, ?_⟩
        cases ok with
        | false => cases ctl
        | true => rfl

/-- A task that resumes the loop of a socket. -/
def wakes (fd : Fd) : SchedulerId × Task κ Fd → Bool
  | (scheduler, .fiber fiber) => scheduler = 0 ∧ fiber = fd
  | (_, .cb _) => false

/-- How often the fiber of a loop has been pushed to its scheduler. -/
def wakeups (s : Accepting κ χ) (fd : Fd) : Nat := s.io.tasks.countP (wakes fd)

def Queued (s : Accepting κ χ) (fd : Fd) : Prop := s.taken fd < s.wakeups fd

instance (s : Accepting κ χ) (fd : Fd) : Decidable (s.Queued fd) := Nat.decLt _ _

/-- The next statement of a loop. `ok` is false where `accept_f` or `epoll_ctl` fails though the
descriptor is open, where `init` refuses the descriptor it is given, and where the socket that has got the
number of a closed one has no `FdCtx`. -/
def loop (s : Accepting κ χ) (fd : Fd) (ok : Bool) : Except Fault (Accepting κ χ) :=
  match s.pc fd with
  | .unstarted => .ok s
  | .scheduled => .ok (s.goto fd .test)
  | .test => .ok (s.goto fd (if s.isStop then .ended else .enter))
  | .enter =>
    match s.phase fd with
    | .listening => .ok (s.goto fd (.attempt true))
    -- without an `FdCtx` the call is not hooked
    | .forgotten => .ok (s.goto fd (.attempt false))
    | .closed => .ok (s.goto fd (.attempt (ok && s.reused fd)))
    | .invalid => .error .nullData
  | .attempt hooked =>
    if ok && s.isOpen fd then
      match s.backlog fd with
      | client :: rest => .ok { s.goto fd (.init client) with backlog := Function.update s.backlog fd rest }
      -- `EAGAIN`
      | [] => .ok (s.goto fd (if hooked then .add else .test))
    else .ok (s.goto fd .test)
  | .add =>
    match s.io.addEvent fd .read 0 fd none (ok && s.isOpen fd) with
    | .error fault => .error (.event fault)
    | .ok (rt, io) => .ok { s.goto fd (if rt ≠ 0 then .test else .yield) with io := io }
  | .yield => .ok (s.goto fd .parked)
  | .parked =>
    if s.Queued fd then
      .ok { s.goto fd (.attempt true) with taken := Function.update s.taken fd (s.taken fd + 1) }
    else .ok s
  | .init client => .ok { s.goto fd .test with handled := s.handled ++ [(fd, client, ok)] }
  | .ended => .ok s

inductive Action (χ : Type) where
  | start
  | stop
  | close
  | loop (fd : Fd) (ok : Bool)
  | connect (fd : Fd) (client : χ)
  | ready (fd : Fd)
  | reopen (fd : Fd)
  deriving DecidableEq, Repr

def step (s : Accepting κ χ) : Action χ → Except Fault (Accepting κ χ)
  | .start => .ok s.start
  | .stop => .ok s.stop
  | .close => s.close
  | .loop fd ok => s.loop fd ok
  | .connect fd client => .ok (s.connect fd client)
  | .ready fd => s.ready fd
  | .reopen fd => .ok (s.reopen fd)

variable {s t : Accepting κ χ} {fd : Fd} {ok : Bool}

/-! ### What a loop can do -/

inductive Jump (s : Accepting κ χ) (fd : Fd) : Pc χ → Prop where
  | begin (pc : s.pc fd = .scheduled) : Jump s fd .test
  | leave (pc : s.pc fd = .test) (stop : s.isStop = true) : Jump s fd .ended
  | go (pc : s.pc fd = .test) (going : s.isStop = false) : Jump s fd .enter
  | hook (pc : s.pc fd = .enter) (found : s.phase fd = .listening ∨ s.reused fd = true) : Jump s fd (.attempt true)
  | unhooked (pc : s.pc fd = .enter) (shut : s.phase fd = .forgotten ∨ s.phase fd = .closed) : Jump s fd (.attempt false)
  | fail (pc : s.pc fd = .add ∨ ∃ hooked, s.pc fd = .attempt hooked) : Jump s fd .test
  | block (pc : s.pc fd = .attempt true) (isOpen : s.isOpen fd = true) : Jump s fd .add
  | yield (pc : s.pc fd = .yield) : Jump s fd .parked

inductive Moves (s : Accepting κ χ) (fd : Fd) : Accepting κ χ → Prop where
  | stay : Moves s fd s
  | jump {pc : Pc χ} (jump : Jump s fd pc) : Moves s fd (s.goto fd pc)
  | accept {hooked : Bool} {client : χ} {rest : List χ} (pc : s.pc fd = .attempt hooked)
      (isOpen : s.isOpen fd = true) (waits : s.backlog fd = client :: rest) :
      Moves s fd { s.goto fd (.init client) with backlog := Function.update s.backlog fd rest }
  | register {io : IOManager κ Fd} (pc : s.pc fd = .add) (added : s.io.addEvent fd .read 0 fd none true = .ok (0, io)) :
      Moves s fd { s.goto fd .yield with io := io }
  | resume (pc : s.pc fd = .parked) (queued : s.Queued fd) :
      Moves s fd { s.goto fd (.attempt true) with taken := Function.update s.taken fd (s.taken fd + 1) }
  | handle {client : χ} (pc : s.pc fd = .init client) (ok : Bool) :
      Moves s fd { s.goto fd .test with handled := s.handled ++ [(fd, client, ok)] }

theorem loop_moves (moved : s.loop fd ok = .ok t) : Moves s fd t := by
  unfold loop at moved
  split at moved
  · cases moved
    exact .stay
  · rename_i pc
    cases moved
    exact .jump (.begin pc)
  · rename_i pc
    cases moved
    cases stop : s.isStop with
    | true => exact .jump (.leave pc stop)
    | false => exact .jump (.go pc stop)
  · rename_i pc
    split at moved
    · rename_i listening
      cases moved
      exact .jump (.hook pc (.inl listening))
    · rename_i forgotten
      cases moved
      exact .jump (.unhooked pc (.inl forgotten))
    · rename_i closed
      cases moved
      cases found : ok && s.reused fd with
      | true => exact .jump (.hook pc (.inr (Bool.and_eq_true_iff.mp found).2))
      | false => exact .jump (.unhooked pc (.inr closed))
    · cases moved
  · rename_i hooked pc
    split at moved
    · rename_i answered
      obtain ⟨_, isOpen⟩ := Bool.and_eq_true_iff.mp answered
      split at moved
      · rename_i waits
        cases moved
        exact .accept pc isOpen waits
      · cases moved
        cases hooked with
        | true => exact .jump (.block pc isOpen)
        | false => exact .jump (.fail (.inr ⟨false, pc⟩))
    · cases moved
      exact .jump (.fail (.inr ⟨hooked, pc⟩))
  · rename_i pc
    split at moved
    · cases moved
    · rename_i rt io added
      cases moved
      rcases addEvent_cases added with ⟨rfl, rfl⟩ | ⟨rfl, answered⟩
      · exact .jump (.fail (.inl pc))
      · rw [answered] at added
        exact .register pc added
  · rename_i pc
    cases moved
    exact .jump (.yield pc)
  · rename_i pc
    split at moved
    · rename_i queued
      cases moved
      exact .resume pc queued
    · cases moved
      exact .stay
  · rename_i client pc
    cases moved
    exact .handle pc ok
  · cases moved
    exact .stay

/-- A loop changes what is its own. -/
theorem Moves.frame (moves : Moves s fd t) :
    t.isStop = s.isStop ∧ t.isStart = s.isStart ∧ t.socks = s.socks ∧ t.phase = s.phase ∧ t.reused = s.reused ∧
      t.closer = s.closer ∧ t.arrived = s.arrived ∧ t.reset = s.reset ∧ ∀ g, g ≠ fd → t.pc g = s.pc g := by
  have elsewhere (pc : Pc χ) : ∀ g, g ≠ fd → (s.goto fd pc).pc g = s.pc g :=
    fun g other => Function.update_of_ne other _ _
  cases moves with
  | stay => exact ⟨rfl, rfl, rfl, rfl, rfl, rfl, rfl, rfl, fun _ _ => rfl⟩
  | jump _ => exact ⟨rfl, rfl, rfl, rfl, rfl, rfl, rfl, rfl, elsewhere _⟩
  | accept _ _ _ => exact ⟨rfl, rfl, rfl, rfl, rfl, rfl, rfl, rfl, elsewhere _⟩
  | register _ _ => exact ⟨rfl, rfl, rfl, rfl, rfl, rfl, rfl, rfl, elsewhere _⟩
  | resume _ _ => exact ⟨rfl, rfl, rfl, rfl, rfl, rfl, rfl, rfl, elsewhere _⟩
  | handle _ _ => exact ⟨rfl, rfl, rfl, rfl, rfl, rfl, rfl, rfl, elsewhere _⟩

theorem Moves.unstarted (moves : Moves s fd t) (pc : s.pc fd = .unstarted) : t = s := by
  cases moves with
  | stay => rfl
  | jump jump => cases jump <;> simp_all
  | accept there => cases pc.symm.trans there
  | register there => cases pc.symm.trans there
  | resume there => cases pc.symm.trans there
  | handle there => cases pc.symm.trans there

/-! ### The task of `stop` -/

/-- What has become of the socket that the task is at. -/
def Sweep.phase : Sweep → Phase
  | .cancelAll | .cancel | .del => .listening
  | .close => .forgotten
  | .reset => .closed

def Place (bound : List Fd) (s : Accepting κ χ) : Prop :=
  match s.closer with
  | .idle => s.socks = bound ∧ ∀ g ∈ bound, s.phase g = .listening
  | .scheduled => s.socks = bound ∧ ∀ g ∈ bound, s.phase g = .listening
  | .sweep fd rest stage =>
    s.socks = bound ∧ fd :: rest <:+ bound ∧ s.phase fd = stage.phase ∧ (∀ g ∈ rest, s.phase g = .listening) ∧
      ∀ g ∈ bound, g ∉ fd :: rest → s.phase g = .invalid
  | .done => s.socks = [] ∧ ∀ g ∈ bound, s.phase g = .invalid

structure Swept (bound : List Fd) (s : Accepting κ χ) : Prop where
  outside : ∀ fd, fd ∉ bound → s.phase fd = .invalid ∧ s.pc fd = .unstarted
  fresh : s.isStart = false → ∀ fd, s.pc fd = .unstarted
  stopped : s.closer ≠ .idle → s.isStop = true
  place : s.Place bound

variable {bound : List Fd}

theorem swept_new : Swept bound (new bound : Accepting κ χ) where
  outside _ out := ⟨if_neg out, rfl⟩
  fresh _ _ := rfl
  stopped moved := absurd rfl moved
  place := ⟨rfl, fun _ member => if_pos member⟩

theorem Place.congr (place : s.Place bound) (closer : t.closer = s.closer) (socks : t.socks = s.socks)
    (phase : t.phase = s.phase) : t.Place bound := by
  unfold Place at place ⊢
  rwa [closer, socks, phase]

theorem Place.socks (place : s.Place bound) : ∀ fd ∈ s.socks, fd ∈ bound := by
  unfold Place at place
  split at place
  · rw [place.1]
    exact fun _ => id
  · rw [place.1]
    exact fun _ => id
  · rw [place.1]
    exact fun _ => id
  · rw [place.1]
    exact fun _ member => absurd member List.not_mem_nil

theorem place_sweepNext {rest : List Fd} (socks : s.socks = bound) (suffix : rest <:+ bound)
    (listening : ∀ g ∈ rest, s.phase g = .listening) (swept : ∀ g ∈ bound, g ∉ rest → s.phase g = .invalid) :
    (s.sweepNext rest).Place bound := by
  cases rest with
  | nil => exact ⟨rfl, fun g member => swept g member List.not_mem_nil⟩
  | cons fd rest =>
    exact ⟨socks, suffix, listening fd List.mem_cons_self, fun g member => listening g (List.mem_cons_of_mem _ member), swept⟩

theorem Swept.loop (swept : Swept bound s) (moved : s.loop fd ok = .ok t) : Swept bound t := by
  have moves := loop_moves moved
  obtain ⟨isStop, isStart, socks, phase, _, closer, _, _, elsewhere⟩ := moves.frame
  have still (g : Fd) (pc : s.pc g = .unstarted) : t.pc g = .unstarted := by
    by_cases here : g = fd
    · subst here
      rw [moves.unstarted pc, pc]
    · rw [elsewhere g here, pc]
  refine ⟨?_, ?_, ?_, swept.place.congr closer socks phase⟩
  · intro g out
    rw [phase]
    exact ⟨(swept.outside g out).1, still g (swept.outside g out).2⟩
  · intro fresh g
    exact still g (swept.fresh (isStart ▸ fresh) g)
  · rw [closer, isStop]
    exact swept.stopped

theorem Swept.start (swept : Swept bound s) : Swept bound s.start := by
  unfold Accepting.start
  split
  · exact swept
  · refine ⟨?_, fun fresh => absurd fresh Bool.noConfusion, swept.stopped, swept.place.congr rfl rfl rfl⟩
    intro g out
    have unbound : g ∉ s.socks := fun member => out (swept.place.socks g member)
    exact ⟨(swept.outside g out).1, (if_neg unbound).trans (swept.outside g out).2⟩

theorem Swept.stop (swept : Swept bound s) : Swept bound s.stop := by
  unfold Accepting.stop
  split
  · exact swept
  · rename_i going
    have idle : s.closer = .idle := by
      by_contra moved
      exact going (swept.stopped moved)
    refine ⟨swept.outside, swept.fresh, fun _ => rfl, ?_⟩
    have place := swept.place
    unfold Place at place ⊢
    rwa [idle] at place

theorem Swept.connect (swept : Swept bound s) (client : χ) : Swept bound (s.connect fd client) := by
  unfold Accepting.connect
  split
  · exact ⟨swept.outside, swept.fresh, swept.stopped, swept.place.congr rfl rfl rfl⟩
  · exact swept

theorem Swept.reopen (swept : Swept bound s) (fd : Fd) : Swept bound (s.reopen fd) := by
  unfold Accepting.reopen
  split
  · exact swept
  · exact ⟨swept.outside, swept.fresh, swept.stopped, swept.place.congr rfl rfl rfl⟩

theorem Swept.io (swept : Swept bound s) (io : IOManager κ Fd) : Swept bound { s with io := io } :=
  ⟨swept.outside, swept.fresh, swept.stopped, swept.place.congr rfl rfl rfl⟩

theorem Swept.cancekAll {g : Fd} {rest : List Fd} {stage stage' : Sweep} (swept : Swept bound s)
    (closer : s.closer = .sweep g rest stage) (same : stage'.phase = stage.phase)
    (moved : s.cancekAll g (.sweep g rest stage') = .ok t) : Swept bound t := by
  have place := swept.place
  have stopped := swept.stopped (by simp [closer])
  unfold Place at place
  rw [closer] at place
  unfold Accepting.cancekAll at moved
  split at moved
  · cases moved
  · cases moved
    refine ⟨swept.outside, swept.fresh, fun _ => stopped, ?_⟩
    unfold Place
    dsimp only at place ⊢
    rwa [same]

/-- The descriptor of the socket that the task is at goes one phase on. -/
theorem Place.advance {g : Fd} {rest : List Fd} {stage stage' : Sweep} (place : s.Place bound)
    (closer : s.closer = .sweep g rest stage) (nodup : bound.Nodup) (closer' : t.closer = .sweep g rest stage')
    (socks : t.socks = s.socks) (phase : t.phase = Function.update s.phase g stage'.phase) : t.Place bound := by
  unfold Place at place ⊢
  rw [closer] at place
  rw [closer', socks, phase]
  obtain ⟨bound_eq, suffix, -, listening, swept⟩ := place
  have apart : g ∉ rest := (List.nodup_cons.mp (nodup.sublist suffix.sublist)).1
  refine ⟨bound_eq, suffix, Function.update_self .., ?_, ?_⟩
  · intro f member
    have other : f ≠ g := fun same => apart (same ▸ member)
    rw [Function.update_of_ne other]
    exact listening f member
  · intro f member out
    have other : f ≠ g := fun same => out (same ▸ List.mem_cons_self)
    rw [Function.update_of_ne other]
    exact swept f member out

theorem Swept.close (swept : Swept bound s) (nodup : bound.Nodup) (moved : s.close = .ok t) : Swept bound t := by
  have inside {g : Fd} {rest : List Fd} {stage : Sweep} (closer : s.closer = .sweep g rest stage) :
      g ∈ bound ∧ s.isStop = true := by
    have place := swept.place
    unfold Place at place
    rw [closer] at place
    exact ⟨place.2.1.subset List.mem_cons_self, swept.stopped (by simp [closer])⟩
  have outside {g : Fd} {rest : List Fd} {stage : Sweep} (closer : s.closer = .sweep g rest stage) (phase : Phase) :
      ∀ fd, fd ∉ bound → Function.update s.phase g phase fd = .invalid ∧ s.pc fd = .unstarted := by
    intro fd out
    have other : fd ≠ g := fun same => out (same ▸ (inside closer).1)
    rw [Function.update_of_ne other]
    exact swept.outside fd out
  unfold Accepting.close at moved
  split at moved
  · cases moved
    exact swept
  · rename_i closer
    have place := swept.place
    unfold Place at place
    rw [closer] at place
    obtain ⟨socks, listening⟩ := place
    have stopped := swept.stopped (by simp [closer])
    cases moved
    rw [socks]
    have next : (s.sweepNext bound).Place bound :=
      place_sweepNext socks List.suffix_rfl listening fun g member out => absurd member out
    cases bound with
    | nil => exact ⟨swept.outside, swept.fresh, fun _ => stopped, next⟩
    | cons g rest => exact ⟨swept.outside, swept.fresh, fun _ => stopped, next⟩
  · rename_i closer
    exact swept.cancekAll closer (by rfl) moved
  · rename_i closer
    exact swept.cancekAll closer (by rfl) moved
  · rename_i closer
    cases moved
    exact ⟨outside closer _, swept.fresh, fun _ => (inside closer).2, swept.place.advance closer nodup rfl rfl rfl⟩
  · rename_i closer
    cases moved
    exact ⟨outside closer _, swept.fresh, fun _ => (inside closer).2, swept.place.advance closer nodup rfl rfl rfl⟩
  · rename_i g rest closer
    have place := swept.place
    unfold Place at place
    rw [closer] at place
    obtain ⟨socks, suffix, -, listening, invalid⟩ := place
    have apart : g ∉ rest := (List.nodup_cons.mp (nodup.sublist suffix.sublist)).1
    have next : ({ s with phase := Function.update s.phase g .invalid }.sweepNext rest).Place bound := by
      refine place_sweepNext socks ((List.suffix_cons g rest).trans suffix) ?_ ?_
      · intro f member
        have other : f ≠ g := fun same => apart (same ▸ member)
        exact (Function.update_of_ne other _ _).trans (listening f member)
      · intro f member out
        by_cases here : f = g
        · rw [here]
          exact Function.update_self ..
        · refine (Function.update_of_ne here _ _).trans (invalid f member ?_)
          exact fun either => (List.mem_cons.mp either).elim here out
    cases moved
    cases rest with
    | nil => exact ⟨outside closer _, swept.fresh, fun _ => (inside closer).2, next⟩
    | cons f rest => exact ⟨outside closer _, swept.fresh, fun _ => (inside closer).2, next⟩
  · cases moved
    exact swept

theorem Swept.ready (swept : Swept bound s) (moved : s.ready fd = .ok t) : Swept bound t := by
  unfold Accepting.ready at moved
  split at moved
  · cases moved
    exact swept
  · split at moved
    · cases moved
    · cases moved
      exact swept.io _

theorem Swept.step {a : Action χ} (swept : Swept bound s) (nodup : bound.Nodup) (moved : s.step a = .ok t) :
    Swept bound t := by
  cases a with
  | start => cases moved; exact swept.start
  | stop => cases moved; exact swept.stop
  | close => exact swept.close nodup moved
  | loop fd ok => exact swept.loop moved
  | connect fd client => cases moved; exact swept.connect client
  | ready fd => exact swept.ready moved
  | reopen fd => cases moved; exact swept.reopen fd

/-! ### Connections -/

/-- The connections of a socket that `init` was called with. -/
def handledBy (s : Accepting κ χ) (fd : Fd) : List χ := (s.handled.filter (·.1 = fd)).map (·.2.1)

/-- What is told of a number while it is the server's. -/
structure InOrder (s : Accepting κ χ) : Prop where
  order : ∀ fd, s.reused fd = false → s.arrived fd = s.handledBy fd ++ (s.pc fd).hand ++ s.backlog fd ++ s.reset fd
  unreset : ∀ fd, (s.phase fd).isOpen = true → s.reset fd = []
  stopped : ∀ fd, s.reset fd ≠ [] → s.isStop = true

theorem Jump.hand {pc : Pc χ} (jump : Jump s fd pc) : (s.pc fd).hand = [] ∧ pc.hand = [] := by
  cases jump with
  | fail here => rcases here with here | ⟨_, here⟩ <;> exact ⟨by rw [here]; rfl, rfl⟩
  | _ here => exact ⟨by rw [here]; rfl, rfl⟩

/-- A loop hands its connections on from the front. -/
theorem Moves.order (moves : Moves s fd t) (g : Fd) :
    t.handledBy g ++ (t.pc g).hand ++ t.backlog g = s.handledBy g ++ (s.pc g).hand ++ s.backlog g := by
  by_cases here : g = fd
  · subst here
    have now (pc : Pc χ) : (s.goto g pc).pc g = pc := Function.update_self ..
    cases moves with
    | stay => rfl
    | jump jump =>
      obtain ⟨before, after⟩ := jump.hand
      rw [now, before, after]
      rfl
    | accept pc _ waits =>
      rw [pc, waits]
      simp [handledBy, goto, Pc.hand]
    | register pc _ =>
      rw [pc]
      simp [handledBy, goto, Pc.hand]
    | resume pc _ =>
      rw [pc]
      simp [handledBy, goto, Pc.hand]
    | handle pc ok =>
      rw [pc]
      simp [handledBy, goto, Pc.hand]
  · obtain ⟨_, _, _, _, _, _, _, _, elsewhere⟩ := moves.frame
    rw [elsewhere g here]
    cases moves with
    | stay => rfl
    | jump _ => rfl
    | accept _ _ _ =>
      dsimp only
      rw [Function.update_of_ne here]
      rfl
    | register _ _ => rfl
    | resume _ _ => rfl
    | handle _ _ => simp [handledBy, goto, Ne.symm here]

theorem InOrder.congr (kept : InOrder s) (arrived : t.arrived = s.arrived)
    (parts : ∀ g, t.handledBy g ++ (t.pc g).hand ++ t.backlog g = s.handledBy g ++ (s.pc g).hand ++ s.backlog g)
    (reset : t.reset = s.reset) (reused : t.reused = s.reused)
    (opened : ∀ g, (t.phase g).isOpen = true → (s.phase g).isOpen = true)
    (stop : s.isStop = true → t.isStop = true) : InOrder t where
  order g := by rw [arrived, reset, parts, reused]; exact kept.order g
  unreset g isOpen := by rw [reset]; exact kept.unreset g (opened g isOpen)
  stopped g some_reset := by
    rw [reset] at some_reset
    exact stop (kept.stopped g some_reset)

theorem InOrder.start (kept : InOrder s) (swept : Swept bound s) : InOrder s.start := by
  unfold Accepting.start
  split
  · exact kept
  · rename_i fresh
    refine kept.congr rfl (fun g => ?_) rfl rfl (fun _ => id) id
    have unstarted := swept.fresh (by simpa using fresh) g
    dsimp only
    rw [unstarted]
    split
    · rfl
    · rfl

theorem InOrder.connect (kept : InOrder s) (client : χ) : InOrder (s.connect fd client) := by
  unfold Accepting.connect
  split
  · rename_i isOpen
    refine ⟨fun g owned => ?_, kept.unreset, kept.stopped⟩
    have order := kept.order g owned
    by_cases here : g = fd
    · subst here
      have isOpen : (s.phase g).isOpen = true := by
        refine (Bool.or_eq_true_iff.mp isOpen).resolve_right fun reused => ?_
        cases owned.symm.trans reused
      rw [kept.unreset g isOpen] at order
      simp [handledBy, kept.unreset g isOpen, order]
    · dsimp only
      rw [Function.update_of_ne here, Function.update_of_ne here]
      exact order
  · exact kept

theorem InOrder.reopen (kept : InOrder s) (fd : Fd) : InOrder (s.reopen fd) := by
  unfold Accepting.reopen
  split
  · exact kept
  · refine ⟨fun g owned => kept.order g ?_, kept.unreset, kept.stopped⟩
    by_cases here : g = fd
    · subst here
      have given : Function.update s.reused g true g = true := Function.update_self ..
      cases given.symm.trans owned
    · exact (Function.update_of_ne here _ _).symm.trans owned

theorem InOrder.cancekAll {g : Fd} {closer : Closer} (kept : InOrder s) (moved : s.cancekAll g closer = .ok t) :
    InOrder t := by
  unfold Accepting.cancekAll at moved
  split at moved
  · cases moved
  · cases moved
    exact kept.congr rfl (fun _ => rfl) rfl rfl (fun _ => id) id

theorem InOrder.sweepNext (kept : InOrder s) (rest : List Fd) : InOrder (s.sweepNext rest) := by
  cases rest with
  | nil => exact kept.congr rfl (fun _ => rfl) rfl rfl (fun _ => id) id
  | cons g rest => exact kept.congr rfl (fun _ => rfl) rfl rfl (fun _ => id) id

theorem isOpen_update {phase : Fd → Phase} {p : Phase} {f g : Fd} (isOpen : (Function.update phase g p f).isOpen = true) :
    f = g ∧ p.isOpen = true ∨ f ≠ g ∧ (phase f).isOpen = true := by
  by_cases here : f = g
  · subst here
    rw [Function.update_self] at isOpen
    exact .inl ⟨rfl, isOpen⟩
  · rw [Function.update_of_ne here] at isOpen
    exact .inr ⟨here, isOpen⟩

theorem InOrder.close (kept : InOrder s) (swept : Swept bound s) (moved : s.close = .ok t) : InOrder t := by
  have phase {g : Fd} {rest : List Fd} {stage : Sweep} (closer : s.closer = .sweep g rest stage) :
      s.phase g = stage.phase ∧ s.isStop = true := by
    have place := swept.place
    unfold Place at place
    rw [closer] at place
    exact ⟨place.2.2.1, swept.stopped (by simp [closer])⟩
  unfold Accepting.close at moved
  split at moved
  · cases moved
    exact kept
  · cases moved
    exact kept.sweepNext _
  · exact kept.cancekAll moved
  · exact kept.cancekAll moved
  · rename_i g rest closer
    cases moved
    refine kept.congr rfl (fun _ => rfl) rfl rfl (fun f isOpen => ?_) id
    rcases isOpen_update isOpen with ⟨rfl, _⟩ | ⟨_, isOpen⟩
    · rw [(phase closer).1]
      rfl
    · exact isOpen
  · rename_i g rest closer
    obtain ⟨forgotten, stop⟩ := phase closer
    have unreset : s.reset g = [] := kept.unreset g (by rw [forgotten]; rfl)
    cases moved
    refine ⟨fun f owned => ?_, fun f isOpen => ?_, fun _ _ => stop⟩
    · have order := kept.order f owned
      by_cases here : f = g
      · subst here
        simp [handledBy, unreset, order]
      · dsimp only
        rw [Function.update_of_ne here, Function.update_of_ne here]
        exact order
    · rcases isOpen_update isOpen with ⟨_, closed⟩ | ⟨other, isOpen⟩
      · cases closed
      · exact (Function.update_of_ne other _ _).trans (kept.unreset f isOpen)
  · rename_i g rest closer
    have closed : InOrder { s with phase := Function.update s.phase g .invalid } := by
      refine kept.congr rfl (fun _ => rfl) rfl rfl (fun f isOpen => ?_) id
      rcases isOpen_update isOpen with ⟨_, closed⟩ | ⟨_, isOpen⟩
      · cases closed
      · exact isOpen
    cases moved
    exact closed.sweepNext rest
  · cases moved
    exact kept

theorem InOrder.step {a : Action χ} (kept : InOrder s) (swept : Swept bound s) (moved : s.step a = .ok t) :
    InOrder t := by
  cases a with
  | start => cases moved; exact kept.start swept
  | stop =>
    cases moved
    unfold Accepting.stop
    split
    · exact kept
    · exact kept.congr rfl (fun _ => rfl) rfl rfl (fun _ => id) fun _ => rfl
  | close => exact kept.close swept moved
  | loop fd ok =>
    have moves := loop_moves moved
    obtain ⟨isStop, _, _, phase, reused, _, arrived, reset, _⟩ := moves.frame
    exact kept.congr arrived moves.order reset reused (fun g => by rw [phase]; exact id) (by rw [isStop]; exact id)
  | connect fd client => cases moved; exact kept.connect client
  | ready fd =>
    unfold Accepting.step Accepting.ready at moved
    dsimp only at moved
    split at moved
    · cases moved
      exact kept
    · split at moved
      · cases moved
      · cases moved
        exact kept.congr rfl (fun _ => rfl) rfl rfl (fun _ => id) id
  | reopen fd => cases moved; exact kept.reopen fd

/-- Whatever the fibers and the kernel do and in whatever order, the connections that have arrived at a
socket are, in the order of their arrival, those `init` was called with, the one between `accept_f` and
`init`, those that wait, and those that the kernel has reset, unless another socket has got its number;
and none is reset before `stop`. -/
theorem connections_in_order {actions : List (Action χ)} (nodup : bound.Nodup)
    (run : Run (fun s a t => s.step a = .ok t) (new bound : Accepting κ χ) actions s) (fd : Fd) :
    (s.reused fd = false → s.arrived fd = s.handledBy fd ++ (s.pc fd).hand ++ s.backlog fd ++ s.reset fd) ∧
      (s.reset fd ≠ [] → s.isStop = true) := by
  obtain ⟨_, kept⟩ : Swept bound s ∧ InOrder s := by
    refine run.invariant (I := fun s => Swept bound s ∧ InOrder s) ?_ ?_
    · rintro s a t ⟨swept, kept⟩ moved
      exact ⟨swept.step nodup moved, kept.step swept moved⟩
    · exact ⟨swept_new, fun _ _ => rfl, fun _ _ => rfl, fun _ some_reset => absurd rfl some_reset⟩
  exact ⟨kept.order fd, kept.stopped fd⟩

/-- Three connections arrive, the loop has accepted the second, and the server is stopped. -/
def stoppedEarly : List (Action Nat) :=
  [.start, .connect 5 1, .connect 5 2, .connect 5 3] ++ List.replicate 8 (.loop 5 true) ++
    .stop :: List.replicate 6 .close

theorem connections_in_order_stopped : ∃ s : Accepting Unit Nat,
    Run (fun s a t => s.step a = .ok t) (new [5]) stoppedEarly s ∧
      (s.handledBy 5, (s.pc 5).hand, s.reset 5, s.reused 5) = ([1], [2], [3], false) ∧
      (s.reused 5 = false → s.arrived 5 = s.handledBy 5 ++ (s.pc 5).hand ++ s.backlog 5 ++ s.reset 5) ∧
      (s.reset 5 ≠ [] → s.isStop = true) := by
  obtain ⟨s, run, seen⟩ : ∃ s : Accepting Unit Nat,
      Run (fun s a t => s.step a = .ok t) (new [5]) stoppedEarly s ∧
        (s.handledBy 5, (s.pc 5).hand, s.reset 5, s.reused 5) = ([1], [2], [3], false) := Run.of_seen (by decide +kernel)
  exact ⟨s, run, seen, connections_in_order (by decide) run 5⟩

end Accepting

end Cool
