import Cool.Socket.Basic

/-!
# Binding a server

`TcpServer::bind` makes a socket for every address and keeps those that listen in `m_socks`. When an address fails it
clears `m_socks`, in which the sockets of earlier calls stand before its own.
-/

namespace Cool

/-- `m_socks`, and the descriptors of the process. -/
structure TcpServer where
  fds : Int → Option Socket.Endpoint
  invalid : fds (-1) = none
  socks : List Socket

namespace TcpServer

/-- An address, and what the system answers while a socket is bound to it. -/
structure Attempt where
  addr : Address
  answers : Socket.Answers

def somaxconn : Int := 4096

def world (s : TcpServer) (sock : Socket) : Socket.World := ⟨s.fds, sock, s.invalid⟩

def after (s : TcpServer) (w : Socket.World) : TcpServer := ⟨w.fds, w.invalid, s.socks⟩

/-- The last reference to a socket is gone: `~Socket` closes it. -/
def release (s : TcpServer) (sock : Socket) : TcpServer := s.after (s.world sock).close.2

/-- The body of the loop: whether the socket is kept. -/
def attempt (s : TcpServer) (a : Attempt) : Bool × TcpServer :=
  -- `Socket::CreateTCP(addr)`
  let (bound, w) := (s.world (Socket.new a.addr.family 1 0)).bind a.answers a.addr
  if ¬ bound then (false, (s.after w).release w.self)
  else
    let (listening, w) := w.listen a.answers somaxconn
    if ¬ listening then (false, (s.after w).release w.self)
    else (true, { s.after w with socks := s.socks ++ [w.self] })

def bindLoop : List Attempt → List Address → TcpServer → List Address × TcpServer
  | [], fails, s => (fails, s)
  | a :: rest, fails, s =>
    if (s.attempt a).1 then bindLoop rest fails (s.attempt a).2
    else bindLoop rest (fails ++ [a.addr]) (s.attempt a).2

/-- `m_socks.clear()`: the sockets that no accepting fiber holds are closed. -/
def clear (held : Socket → Bool) (s : TcpServer) : TcpServer :=
  { (s.socks.filter (!held ·)).foldl release s with socks := [] }

/-- `bind(addrs, fails)`: what it returns, and `fails` afterwards. -/
def bind (held : Socket → Bool) (attempts : List Attempt) (fails : List Address) (s : TcpServer) :
    Bool × List Address × TcpServer :=
  let (fails, s) := bindLoop attempts fails s
  if fails ≠ [] then (false, fails, s.clear held) else (true, fails, s)

/-! ### One address -/

/-- A descriptor is made, bound and listened on. -/
def Attempt.succeeds (a : Attempt) : Bool :=
  a.answers.socket.any (fun made => made.1 ≠ -1) && a.answers.bind.isSome && a.answers.listen.isSome

/-- The socket of an address that succeeds. -/
def Attempt.made (a : Attempt) : Socket :=
  { Socket.new a.addr.family 1 0 with
    sock := (a.answers.socket.map Prod.fst).getD (-1)
    localAddress := if a.answers.getsockname then a.answers.bind else none }

variable {s : TcpServer} {a : Attempt} {attempts : List Attempt} {fails : List Address} {held : Socket → Bool}

theorem bind_new (s : TcpServer) (a : Attempt) :
    ((s.world (Socket.new a.addr.family 1 0)).bind a.answers a.addr).1 =
        (a.answers.socket.any (fun made => made.1 ≠ -1) && a.answers.bind.isSome) ∧
      (((s.world (Socket.new a.addr.family 1 0)).bind a.answers a.addr).1 = true →
        ((s.world (Socket.new a.addr.family 1 0)).bind a.answers a.addr).2.self = a.made ∧
          (((s.world (Socket.new a.addr.family 1 0)).bind a.answers a.addr).2.fds a.made.sock).isSome = true) := by
  obtain ⟨addr, socket, bound, _, _, getsockname, _, _, _⟩ := a
  -- a new socket has no descriptor yet, so `bind` makes one
  have fresh (answers : Socket.Answers) : (s.world (Socket.new addr.family 1 0)).opened answers =
      (s.world (Socket.new addr.family 1 0)).newSock answers := rfl
  simp only [Socket.World.bind, fresh, Socket.World.newSock, Socket.World.isValid, Socket.World.set]
  rcases socket with _ | ⟨fd, name⟩
  · simp
  · by_cases invalid : fd = -1
    · simp [invalid]
    · cases bound with
      | none => simp [invalid, world, Socket.new, Socket.World.put]
      | some bound =>
        cases getsockname <;>
          simp [invalid, world, Socket.new, Socket.World.put, Socket.World.set, Socket.World.rename,
            Socket.World.localAddress, Attempt.made]

theorem attempt_spec (s : TcpServer) (a : Attempt) :
    (s.attempt a).1 = a.succeeds ∧
      (s.attempt a).2.socks = if a.succeeds then s.socks ++ [a.made] else s.socks := by
  obtain ⟨bound, made⟩ := bind_new s a
  unfold attempt Attempt.succeeds
  generalize (s.world (Socket.new a.addr.family 1 0)).bind a.answers a.addr = result at bound made
  obtain ⟨kept, w⟩ := result
  rw [← bound]
  cases kept with
  | false => simp [release, after]
  | true =>
    obtain ⟨self, opened⟩ := made rfl
    obtain ⟨endpoint, there⟩ := Option.isSome_iff_exists.mp opened
    dsimp only at self there
    cases listening : a.answers.listen with
    | none => simp [Socket.World.listen, self, there, listening, release, after]
    | some name => simp [Socket.World.listen, self, there, listening, after, Socket.World.rename, Socket.World.put]

/-! ### The loop -/

theorem bindLoop_spec (attempts : List Attempt) (fails : List Address) (s : TcpServer) :
    (bindLoop attempts fails s).1 = fails ++ (attempts.filter (!·.succeeds)).map (·.addr) ∧
      (bindLoop attempts fails s).2.socks = s.socks ++ (attempts.filter (·.succeeds)).map Attempt.made := by
  induction attempts generalizing fails s with
  | nil => simp [bindLoop]
  | cons a rest ih =>
    obtain ⟨kept, socks⟩ := attempt_spec s a
    rw [bindLoop, kept]
    cases succeeds : a.succeeds with
    | true =>
      rw [if_pos rfl, (ih _ _).1, (ih _ _).2, socks]
      simp [succeeds]
    | false =>
      rw [if_neg Bool.false_ne_true, (ih _ _).1, (ih _ _).2, socks]
      simp [succeeds]

/-- What is expected of a call. -/
structure Binds (s : TcpServer) (attempts : List Attempt) (result : Bool × List Address × TcpServer) : Prop where
  returned : result.1 = true ↔ ∀ a ∈ attempts, a.succeeds = true
  bound : result.1 = true → result.2.2.socks = s.socks ++ attempts.map Attempt.made
  failed : result.1 = false →
    result.2.1 = (attempts.filter (!·.succeeds)).map (·.addr) ∧ result.2.2.socks = s.socks

theorem bind_succeeds (held : Socket → Bool) (s : TcpServer) (all : ∀ a ∈ attempts, a.succeeds = true) :
    bind held attempts [] s = (true, [], (bindLoop attempts [] s).2) ∧
      (bindLoop attempts [] s).2.socks = s.socks ++ attempts.map Attempt.made := by
  obtain ⟨fails, socks⟩ := bindLoop_spec attempts [] s
  have none : attempts.filter (!·.succeeds) = [] := List.filter_eq_nil_iff.mpr fun a member => by simp [all a member]
  rw [none] at fails
  rw [List.filter_eq_self.mpr all] at socks
  refine ⟨?_, socks⟩
  simp only [List.map_nil, List.append_nil] at fails
  simp [bind, fails]

theorem bind_fails (held : Socket → Bool) (s : TcpServer) (some_fail : ¬ ∀ a ∈ attempts, a.succeeds = true) :
    ∃ s', bind held attempts [] s = (false, (attempts.filter (!·.succeeds)).map (·.addr), s') ∧ s'.socks = [] := by
  obtain ⟨fails, _⟩ := bindLoop_spec attempts [] s
  rw [List.nil_append] at fails
  have nonempty : (attempts.filter (!·.succeeds)).map (·.addr) ≠ [] := by
    simpa [List.filter_eq_nil_iff] using some_fail
  refine ⟨(bindLoop attempts [] s).2.clear held, ?_, rfl⟩
  simp only [bind, fails, if_pos nonempty]

/-- A call does what is expected exactly when the server has no sockets from before, or no address fails. -/
theorem bind_iff (held : Socket → Bool) (attempts : List Attempt) (s : TcpServer) :
    Binds s attempts (bind held attempts [] s) ↔ s.socks = [] ∨ ∀ a ∈ attempts, a.succeeds = true := by
  by_cases all : ∀ a ∈ attempts, a.succeeds = true
  · obtain ⟨ran, socks⟩ := bind_succeeds held s all
    rw [ran]
    exact iff_of_true ⟨iff_of_true rfl all, fun _ => socks, fun failed => absurd failed.symm Bool.false_ne_true⟩ (.inr all)
  · obtain ⟨s', ran, cleared⟩ := bind_fails held s all
    rw [ran, or_iff_left all]
    constructor
    · intro binds
      exact (binds.failed rfl).2.symm.trans cleared
    · intro empty
      exact ⟨iff_of_false Bool.false_ne_true all, fun bound => absurd bound Bool.false_ne_true,
        fun _ => ⟨rfl, cleared.trans empty.symm⟩⟩

/-- An address that cannot be bound. -/
def taken : Attempt := ⟨⟨2, []⟩, some (7, ⟨2, []⟩), none, none, none, true, true, true, 0⟩

/-- A server that listens on descriptor 5. -/
def listening : TcpServer :=
  ⟨fun fd => if fd = 5 then some ⟨⟨2, []⟩, none⟩ else none, rfl, [⟨5, 2, 1, 0, false, some ⟨2, []⟩, none⟩]⟩

theorem bind_loses :
    (bind (fun _ => false) [taken] [] listening).1 = false ∧
      (bind (fun _ => false) [taken] [] listening).2.1 = [taken.addr] ∧
      (bind (fun _ => false) [taken] [] listening).2.2.socks = [] ∧ listening.socks ≠ [] := by
  exact ⟨rfl, rfl, rfl, by decide⟩

end TcpServer

end Cool
