import Mathlib.Logic.Function.Basic

/-!
# `Socket`

A `Socket` and the descriptors of its process. What the system answers to the calls of one member function is
given; `close` and the two address functions are the only places where a `Socket` forgets or learns something
besides its descriptor.
-/

namespace Cool

structure Address where
  family : Int
  bytes : List UInt8
  deriving DecidableEq, Repr

/-- `UnknowAddress(family)`. -/
def Address.unknow (family : Int) : Address := ⟨family, []⟩

structure Socket where
  sock : Int
  family : Int
  type : Int
  protocol : Int
  isConnected : Bool
  localAddress : Option Address
  remoteAddress : Option Address
  deriving DecidableEq, Repr

namespace Socket

/-- What the system has of an open socket: its own address, and its peer's once it is connected. -/
structure Endpoint where
  name : Address
  peer : Option Address
  deriving DecidableEq, Repr

/-- What the system answers during a call. A socket that is made, bound, listened on or connected has the
address given from then on. -/
structure Answers where
  socket : Option (Int × Address)
  bind : Option Address
  listen : Option Address
  connect : Option (Address × Address)
  getsockname : Bool
  getpeername : Bool
  /-- `FdMgr` has a context for the descriptor, of a socket that is not closed. -/
  isSocket : Bool
  /-- What `::send`, `::recv` and their like return. -/
  transferred : Int

def new (family type protocol : Int) : Socket := ⟨-1, family, type, protocol, false, none, none⟩

structure World where
  fds : Int → Option Endpoint
  self : Socket
  invalid : fds (-1) = none

namespace World

/-- The descriptor becomes what is given; -1 is none. -/
def put (w : World) (fd : Int) (endpoint : Option Endpoint) : World where
  fds := if fd = -1 then w.fds else Function.update w.fds fd endpoint
  self := w.self
  invalid := by
    split
    · exact w.invalid
    · rename_i valid
      rw [Function.update_of_ne (Ne.symm valid), w.invalid]

def set (w : World) (self : Socket) : World := { w with self := self }

/-- The descriptor of the socket gets another address of its own. -/
def rename (w : World) (name : Address) : World :=
  w.put w.self.sock ((w.fds w.self.sock).map fun endpoint => { endpoint with name := name })

variable (answers : Answers)

def isValid (w : World) : Bool := w.self.sock ≠ -1

def newSock (w : World) : World :=
  match answers.socket with
  | none => w.set { w.self with sock := -1 }
  | some (fd, name) => (w.put fd (some ⟨name, none⟩)).set { w.self with sock := fd }

def remoteAddress (w : World) : Address × World :=
  match w.self.remoteAddress with
  | some address => (address, w)
  | none =>
    match (w.fds w.self.sock).bind Endpoint.peer, answers.getpeername with
    | some peer, true => (peer, w.set { w.self with remoteAddress := some peer })
    | _, _ => (.unknow w.self.family, w)

def localAddress (w : World) : Address × World :=
  match w.self.localAddress with
  | some address => (address, w)
  | none =>
    match w.fds w.self.sock, answers.getsockname with
    | some endpoint, true => (endpoint.name, w.set { w.self with localAddress := some endpoint.name })
    | _, _ => (.unknow w.self.family, w)

/-- `m_isConnected` is set, not cleared, and the addresses are kept. -/
def close (w : World) : Bool × World :=
  if ¬ w.self.isConnected ∧ w.self.sock = -1 then (true, w)
  else (false, (w.put w.self.sock none).set { w.self with isConnected := true, sock := -1 })

def init (sock : Int) (w : World) : Bool × World :=
  if answers.isSocket then
    let w := w.set { w.self with sock := sock, isConnected := true }
    (true, (remoteAddress answers (localAddress answers w).2).2)
  else (false, w)

/-- The descriptor that `bind` and `connect` go on with. -/
def opened (w : World) : World := if w.isValid then w else newSock answers w

def bind (addr : Address) (w : World) : Bool × World :=
  let w := opened answers w
  if ¬ w.isValid then (false, w)
  else if addr.family ≠ w.self.family then (false, w)
  else
    match answers.bind with
    | none => (false, w)
    | some name => (true, (localAddress answers (w.rename name)).2)

/-- The timeout only chooses between `::connect` and `::connect_with_timeout`. -/
def connect (addr : Address) (_timeoutMs : UInt64) (w : World) : Bool × World :=
  let w := opened answers w
  if ¬ w.isValid then (false, w)
  else if addr.family ≠ w.self.family then (false, w)
  else
    match answers.connect with
    | none => (false, (close w).2)
    | some (name, peer) =>
      let w := (w.put w.self.sock (some ⟨name, some peer⟩)).set { w.self with isConnected := true }
      (true, (localAddress answers (remoteAddress answers w).2).2)

/-- A descriptor that is not open is logged, and passed on all the same. -/
def listen (_backlog : Int) (w : World) : Bool × World :=
  match w.fds w.self.sock, answers.listen with
  | some _, some name => (true, w.rename name)
  | _, _ => (false, w)

/-- `send`, `sendTo`, `recv` and `recvFrom`: the descriptor that a system call is made on, if one is, and
what is returned. -/
def transfer (w : World) : Option Int × Int :=
  if w.self.isConnected then (some w.self.sock, answers.transferred) else (none, -1)

/-- `SocketStream::read` and `SocketStream::write`. -/
def streamTransfer (w : World) : Option Int × Int :=
  if ¬ w.self.isConnected then (none, -1) else transfer answers w

end World

/-- A call of a member function, or what the rest of the process does to other descriptors. -/
inductive Call where
  | bind (addr : Address)
  | listen (backlog : Int)
  | connect (addr : Address) (timeoutMs : UInt64)
  | init (sock : Int)
  | close
  | transfer
  | remoteAddress
  | localAddress
  | others (fds : Int → Option Endpoint)

def World.exec (answers : Answers) (w : World) : Call → World
  | .bind addr => (w.bind answers addr).2
  | .listen backlog => (w.listen answers backlog).2
  | .connect addr timeoutMs => (w.connect answers addr timeoutMs).2
  | .init sock => (w.init answers sock).2
  | .close => w.close.2
  | .transfer => w
  | .remoteAddress => (w.remoteAddress answers).2
  | .localAddress => (w.localAddress answers).2
  | .others fds => ⟨fun fd => if fd = -1 then none else if fd = w.self.sock then w.fds fd else fds fd, w.self, rfl⟩

/-- What the system and `FdMgr` can answer: a new descriptor was not open before, and a context stands for an
open descriptor. -/
structure Answers.Fit (answers : Answers) (w : World) (call : Call) : Prop where
  fresh : ∀ fd name, answers.socket = some (fd, name) → fd ≠ -1 ∧ w.fds fd = none
  context : ∀ sock, call = .init sock → answers.isSocket = true → ∃ endpoint, w.fds sock = some endpoint

end Socket

end Cool
