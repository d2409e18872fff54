import Cool.Foundation.Run
import Cool.Http.Dump
import Cool.Http.Framing

/-!
# One connection

`HttpServer::handle_client` call by call. A servlet may do what it likes to the response and to the
session, and it need not return. The loop looks at the mode of the server alone, a response says
what its own flag says.
-/

namespace Cool.Http

open Foundation HttpRequestParser

/-- `memory` is what each call of `recvRequest` finds, `handle` what the dispatcher does after that
many calls: it leaves a response and the session, or it does not return. -/
structure HttpServer (size : BufferSize) where
  isKeepAlive : Bool
  memory : Nat → Memory size
  handle : Nat → HttpRequest → HttpResponse → HttpSession → Option (HttpResponse × HttpSession)

namespace Connection

inductive Pc where
  | started
  | handling (req : HttpRequest) (rsp : HttpResponse)
  | sending (rsp : HttpResponse)
  /-- At the condition of the loop. -/
  | sent (rsp : HttpResponse)
  /-- `recvRequest` has returned no request. -/
  | broken
  | thrown (fault : Fault)
  | closed
  deriving DecidableEq, Repr

inductive Call where
  | recvRequest
  | handle
  | sendResponse
  | close
  deriving DecidableEq, Repr

end Connection

open Connection

/-- `received` counts the calls of `recvRequest`, `handed` are the requests the dispatcher got. -/
structure Connection where
  pc : Pc
  session : HttpSession
  received : Nat
  handed : List HttpRequest
  output : List UInt8
  deriving DecidableEq, Repr

/-! ### The flag of a request

No callback writes it, so a `Connection` header of the client has no effect. -/

namespace HttpSession

theorem recvBody_close [Boost] {got : Received} {s : HttpSession} {r : HttpRequest}
    (returned : (recvBody got s).request = some r) : r.close = got.parser.data.close := by
  unfold recvBody at returned
  dsimp only at returned
  split at returned
  · split at returned
    · split at returned
      · cases returned
      · cases returned
        rfl
    · cases returned
      rfl
  · cases returned
    rfl

theorem recvRequest_close [Boost] {size : BufferSize} {memory : Memory size} {s : HttpSession} {reply : Reply}
    {r : HttpRequest} (run : recvRequest memory s = .ok reply) (returned : reply.request = some r) :
    r.close = true := by
  unfold recvRequest at run
  split at run
  · cases run
  · cases run
    cases returned
  · rename_i got s' header
    cases run
    exact (recvBody_close returned).trans (congrArg Prod.fst (recvHeader_unwritten header))

end HttpSession

namespace HttpServer

theorem announced_close (close : Bool) : announced close = ascii "close" ↔ close = true := by
  cases close <;> decide

theorem announced_keepAlive (close : Bool) : announced close = ascii "keep-alive" ↔ close = false := by
  cases close <;> decide

section

variable [Boost] {size : BufferSize}

def start (s : HttpSession) : Connection := ⟨.started, s, 0, [], []⟩

/-- Whether the loop goes round from here. -/
def loops (server : HttpServer size) : Pc → Bool
  | .started => true
  | .sent _ => server.isKeepAlive
  | _ => false

def leaves (server : HttpServer size) : Pc → Bool
  | .broken => true
  | .sent _ => !server.isKeepAlive
  | _ => false

def receive (server : HttpServer size) (c : Connection) : Connection :=
  match c.session.recvRequest (server.memory c.received) with
  | .error fault => { c with pc := .thrown fault, received := c.received + 1 }
  | .ok reply =>
    match reply.request with
    | none => { c with pc := .broken, session := reply.session, received := c.received + 1 }
    | some req =>
      { c with
        pc := .handling req (HttpResponse.new req.version (req.close || !server.isKeepAlive))
        session := reply.session
        received := c.received + 1
        handed := c.handed ++ [req] }

/-- The next call of `handle_client`; an error is the place from where it does not make that call, or
where the call does not return. On a socket that is not connected `write` returns -1, which
`writeFixSize` takes for an unsigned length and tries again. -/
def next (server : HttpServer size) (c : Connection) : Call → Except Pc Connection
  | .recvRequest => if server.loops c.pc then .ok (server.receive c) else .error c.pc
  | .handle =>
    match c.pc with
    | .handling req rsp =>
      match server.handle c.received req rsp c.session with
      | none => .error c.pc
      | some (rsp, session) => .ok { c with pc := .sending rsp, session := session }
    | pc => .error pc
  | .sendResponse =>
    match c.pc with
    | .sending rsp =>
      if c.session.connected then .ok { c with pc := .sent rsp, output := c.output ++ rsp.dump }
      else .error c.pc
    | pc => .error pc
  | .close =>
    if server.leaves c.pc then .ok { c with pc := .closed, session := c.session.close }
    else .error c.pc

def Step (server : HttpServer size) (c : Connection) (call : Call) (d : Connection) : Prop :=
  server.next c call = .ok d

variable {server : HttpServer size} {c d : Connection} {call : Call} {calls : List Call} {s : HttpSession}
  {req : HttpRequest} {rsp : HttpResponse}

/-- Everything a call can do. -/
inductive Moved (server : HttpServer size) (c : Connection) : Call → Connection → Prop where
  | threw {fault : Fault} (loops : server.loops c.pc = true)
      (got : c.session.recvRequest (server.memory c.received) = .error fault) :
      Moved server c .recvRequest { c with pc := .thrown fault, received := c.received + 1 }
  | broke {reply : HttpSession.Reply} (loops : server.loops c.pc = true)
      (got : c.session.recvRequest (server.memory c.received) = .ok reply) (none : reply.request = none) :
      Moved server c .recvRequest { c with pc := .broken, session := reply.session, received := c.received + 1 }
  | took {reply : HttpSession.Reply} {req : HttpRequest} (loops : server.loops c.pc = true)
      (got : c.session.recvRequest (server.memory c.received) = .ok reply) (some : reply.request = some req) :
      Moved server c .recvRequest
        { c with
          pc := .handling req (HttpResponse.new req.version (req.close || !server.isKeepAlive))
          session := reply.session
          received := c.received + 1
          handed := c.handed ++ [req] }
  | handle {req : HttpRequest} {rsp rsp' : HttpResponse} {session : HttpSession}
      (here : c.pc = .handling req rsp)
      (left : server.handle c.received req rsp c.session = some (rsp', session)) :
      Moved server c .handle { c with pc := .sending rsp', session := session }
  | sendResponse {rsp : HttpResponse} (here : c.pc = .sending rsp) (connected : c.session.connected = true) :
      Moved server c .sendResponse { c with pc := .sent rsp, output := c.output ++ rsp.dump }
  | close (leaves : server.leaves c.pc = true) :
      Moved server c .close { c with pc := .closed, session := c.session.close }

theorem moved_receive (loops : server.loops c.pc = true) : server.Moved c .recvRequest (server.receive c) := by
  unfold receive
  split
  · exact .threw loops ‹_›
  · split
    · exact .broke loops ‹_› ‹_›
    · exact .took loops ‹_› ‹_›

theorem step_moved (step : server.Step c call d) : server.Moved c call d := by
  unfold Step next at step
  split at step
  · split at step
    · cases step
      exact moved_receive ‹_›
    · cases step
  · split at step
    · split at step
      · cases step
      · cases step
        exact .handle ‹_› ‹_›
    · cases step
  · split at step
    · split at step
      · cases step
        exact .sendResponse ‹_› ‹_›
      · cases step
    · cases step
  · split at step
    · cases step
      exact .close ‹_›
    · cases step

theorem step_of_loops (loops : server.loops c.pc = true) : server.Step c .recvRequest (server.receive c) :=
  if_pos loops

theorem step_of_handling {rsp' : HttpResponse} (here : c.pc = .handling req rsp)
    (left : server.handle c.received req rsp c.session = some (rsp', s)) :
    server.Step c .handle { c with pc := .sending rsp', session := s } := by
  simp only [Step, next, here, left]

theorem step_of_sending (here : c.pc = .sending rsp) (connected : c.session.connected = true) :
    server.Step c .sendResponse { c with pc := .sent rsp, output := c.output ++ rsp.dump } := by
  simp only [Step, next, here, if_pos connected]

theorem step_of_leaves (leaves : server.leaves c.pc = true) :
    server.Step c .close { c with pc := .closed, session := c.session.close } :=
  if_pos leaves

/-! ### What the loop hands on -/

/-- What `handle_client` still hands to the dispatcher, when no servlet touches the session. -/
def remaining (server : HttpServer size) (c : Connection) : Except Fault (List HttpRequest) :=
  match c.pc with
  | .started => handleClient server.isKeepAlive server.memory c.received c.session
  | .handling _ _ | .sending _ | .sent _ =>
    if server.isKeepAlive then handleClient server.isKeepAlive server.memory c.received c.session
    else .ok []
  | .broken | .closed => .ok []
  | .thrown fault => .error fault

def total (server : HttpServer size) (c : Connection) : Except Fault (List HttpRequest) :=
  (server.remaining c).map (c.handed ++ ·)

theorem remaining_of_loops (looping : server.loops c.pc = true) :
    server.remaining c = handleClient server.isKeepAlive server.memory c.received c.session := by
  unfold loops at looping
  unfold remaining
  split at looping
  · rename_i here
    rw [here]
  · rename_i here
    rw [here]
    exact if_pos looping
  · cases looping

theorem remaining_of_leaves (leaving : server.leaves c.pc = true) : server.remaining c = .ok [] := by
  unfold leaves at leaving
  unfold remaining
  split at leaving
  · rename_i here
    rw [here]
  · rename_i here
    rw [here]
    exact if_neg (by simpa using leaving)
  · cases leaving

/-- Servlets that leave the session alone. -/
def Reserved (server : HttpServer size) : Prop :=
  ∀ n req rsp s rsp' s', server.handle n req rsp s = some (rsp', s') → s' = s

theorem step_total (reserved : server.Reserved) (step : server.Step c call d) :
    server.total d = server.total c := by
  unfold total
  cases step_moved step with
  | threw loops got =>
    rw [remaining_of_loops loops, handleClient_failed got]
    rfl
  | broke loops got none =>
    rw [remaining_of_loops loops, handleClient_none got none]
    rfl
  | took loops got some =>
    rw [remaining_of_loops loops, handleClient_some got some]
    simp only [remaining]
    split
    · cases handleClient _ server.memory (c.received + 1) _ with
      | error fault => rfl
      | ok requests => simp [Except.map]
    · simp [Except.map]
  | handle here left =>
    cases reserved _ _ _ _ _ _ left
    simp only [remaining, here]
  | sendResponse here connected => simp only [remaining, here]
  | close leaves =>
    rw [remaining_of_leaves leaves]
    rfl

/-- The connection refines `handleClient`: when it is over, the dispatcher has got the requests that
`handleClient` returns. -/
theorem run_closed (reserved : server.Reserved) (run : Run server.Step (start s) calls d)
    (closed : d.pc = .closed) : handleClient server.isKeepAlive server.memory 0 s = .ok d.handed := by
  have same : server.total d = server.total (start s) :=
    run.invariant (I := fun c => server.total c = server.total (start s))
      (fun _ _ _ held step => (step_total reserved step).trans held) rfl
  have first : server.total (start s) = handleClient server.isKeepAlive server.memory 0 s :=
    congrFun Except.map_id _
  have last : server.total d = .ok d.handed := by simp [total, remaining, closed, Except.map]
  rw [← first, ← same, last]

/-! ### What a response announces -/

/-- What follows the response `rsp`, just sent, is what it announces. -/
structure KeepsWord (server : HttpServer size) (c : Connection) (rsp : HttpResponse) : Prop where
  again : (∃ d, server.Step c .recvRequest d) ↔ announced rsp.close = ascii "keep-alive"
  quiet : announced rsp.close = ascii "close" → ∀ calls d, Run server.Step c calls d → .recvRequest ∉ calls
  closes : announced rsp.close = ascii "close" → (∃ d, server.Step c .close d) ∧
    ∀ call d, server.Step c call d → d.pc = .closed ∧ d.session.connected = false

/-- The next call after a response is decided by the mode of the server. -/
theorem step_of_sent (here : c.pc = .sent rsp) (step : server.Step c call d) :
    if server.isKeepAlive then call = .recvRequest
    else call = .close ∧ d.pc = .closed ∧ d.session.connected = false := by
  cases step_moved step with
  | threw looping | broke looping | took looping =>
    have alive : server.isKeepAlive = true := by simpa only [here, loops] using looping
    rw [if_pos alive]
  | handle here' => rw [here] at here'; cases here'
  | sendResponse here' => rw [here] at here'; cases here'
  | close leaving =>
    rw [here] at leaving
    rw [if_neg (by simpa [leaves] using leaving)]
    exact ⟨rfl, rfl, rfl⟩

theorem not_step_of_closed (closed : c.pc = .closed) : ¬ server.Step c call d := by
  intro step
  cases step_moved step with
  | threw looping | broke looping | took looping => rw [closed] at looping; cases looping
  | handle here => rw [closed] at here; cases here
  | sendResponse here => rw [closed] at here; cases here
  | close leaving => rw [closed] at leaving; cases leaving

theorem recvRequest_iff (here : c.pc = .sent rsp) :
    (∃ d, server.Step c .recvRequest d) ↔ server.isKeepAlive = true := by
  constructor
  · rintro ⟨d, step⟩
    have next := step_of_sent here step
    split at next
    · assumption
    · cases next.1
  · intro alive
    exact ⟨_, step_of_loops (by rw [here]; exact alive)⟩

/-- From its response on, a server that is not in keep-alive mode only closes. -/
theorem run_of_sent (here : c.pc = .sent rsp) (once : server.isKeepAlive = false)
    (run : Run server.Step c calls d) : .recvRequest ∉ calls ∧ (d = c ∨ d.pc = .closed) := by
  induction run with
  | nil => exact ⟨List.not_mem_nil, .inl rfl⟩
  | snoc run last ih =>
    obtain ⟨quiet, rfl | closed⟩ := ih
    · have next := step_of_sent here last
      rw [if_neg (by simp [once])] at next
      obtain ⟨rfl, closed, -⟩ := next
      exact ⟨by simpa using quiet, .inr closed⟩
    · exact absurd last (not_step_of_closed closed)

theorem keepsWord_of_mode (here : c.pc = .sent rsp) (mode : rsp.close = !server.isKeepAlive) :
    server.KeepsWord c rsp where
  again := by
    rw [recvRequest_iff here, announced_keepAlive, mode]
    simp
  quiet := by
    intro close calls d run
    rw [announced_close, mode] at close
    exact (run_of_sent here (by simpa using close) run).1
  closes := by
    intro close
    rw [announced_close, mode] at close
    refine ⟨⟨_, step_of_leaves (by rw [here]; exact close)⟩, fun call d step => ?_⟩
    have next := step_of_sent here step
    rw [if_neg (by simpa using close)] at next
    exact next.2

theorem KeepsWord.mode (here : c.pc = .sent rsp) (keeps : server.KeepsWord c rsp) :
    rsp.close = !server.isKeepAlive := by
  have same := keeps.again
  rw [recvRequest_iff here, announced_keepAlive] at same
  cases alive : server.isKeepAlive <;> simpa [alive] using same

/-- Every response that the servlets leave to be sent has this flag. -/
def Answers (server : HttpServer size) (s : HttpSession) (close : Bool) : Prop :=
  ∀ calls c req rsp rsp' s', Run server.Step (start s) calls c → c.pc = .handling req rsp →
    server.handle c.received req rsp c.session = some (rsp', s') → s'.connected = true → rsp'.close = close

/-- The flag of the response that is on its way. -/
def Carries (close : Bool) (c : Connection) : Prop :=
  match c.pc with
  | .sending rsp => c.session.connected = true → rsp.close = close
  | .sent rsp => rsp.close = close
  | _ => True

theorem run_carries {close : Bool} (answers : server.Answers s close)
    (run : Run server.Step (start s) calls c) : Carries close c := by
  induction run with
  | nil => trivial
  | snoc run last ih =>
    cases step_moved last with
    | threw | broke | took | close => trivial
    | handle here left => exact answers _ _ _ _ _ _ run here left
    | sendResponse here connected =>
      simp only [Carries, here] at ih
      exact ih connected

theorem sent_close {close : Bool} (answers : server.Answers s close)
    (run : Run server.Step (start s) calls c) (here : c.pc = .sent rsp) : rsp.close = close := by
  have carries := run_carries answers run
  simpa only [Carries, here] using carries

/-- For every server, every peer and every behaviour of the servlets: what the server does after each
response is what the response announces exactly when the servlets leave the flag of the mode that the
server is in. -/
theorem keepsWord_iff (server : HttpServer size) (s : HttpSession) :
    (∀ calls c rsp, Run server.Step (start s) calls c → c.pc = .sent rsp → server.KeepsWord c rsp) ↔
      server.Answers s (!server.isKeepAlive) := by
  constructor
  · intro keeps calls c req rsp rsp' s' run here left connected
    have handled := run.snoc (step_of_handling here left)
    exact (keeps _ _ rsp' (handled.snoc (step_of_sending rfl connected)) rfl).mode rfl
  · intro answers calls c rsp run here
    exact keepsWord_of_mode here (sent_close answers run here)

/-- Whatever the client asks for, the response that is handed to the servlets says `close`. -/
theorem run_offered (run : Run server.Step (start s) calls c) (here : c.pc = .handling req rsp) :
    rsp.close = true := by
  cases run with
  | nil => cases here
  | snoc run last =>
    cases step_moved last with
    | took loops got some =>
      cases here
      simp [HttpResponse.new, HttpSession.recvRequest_close got some]
    | threw | broke | handle | sendResponse | close => cases here

/-- Servlets that leave the flag of the response alone. -/
def LeavesFlag (server : HttpServer size) : Prop :=
  ∀ n req rsp s rsp' s', server.handle n req rsp s = some (rsp', s') → rsp'.close = rsp.close

/-- Where the servlets leave the flag alone every response announces `close`: a server keeps its word
with all of them or, in keep-alive mode, with none. -/
theorem keepsWord_of_leavesFlag (leaves : server.LeavesFlag) (run : Run server.Step (start s) calls c)
    (here : c.pc = .sent rsp) : server.KeepsWord c rsp ↔ server.isKeepAlive = false := by
  have answers : server.Answers s true := by
    intro calls c req rsp rsp' s' run here left _
    rw [leaves _ _ _ _ _ _ left, run_offered run here]
  have flag := sent_close answers run here
  constructor
  · intro keeps
    have mode := keeps.mode here
    simpa [flag] using mode
  · intro once
    exact keepsWord_of_mode here (by rw [flag, once]; rfl)

end

/-- A keep-alive server whose servlets leave everything as they find it. -/
def idle : HttpServer 64 where
  isKeepAlive := true
  memory _ := Memory.zeroed 64
  handle _ _ rsp s := some (rsp, s)

/-- A client that asks for `keep-alive`, and a second request. -/
def twoRequests : HttpSession where
  arrivals := [ascii "GET / HTTP/1.1\r\nConnection: keep-alive\r\n\r\n", ascii "GET /b HTTP/1.1\r\n\r\n"]
  connected := true

/-- The response announces `close`, and the next request is read. -/
theorem announces_close_and_reads :
    ∃ c d rsp, Run idle.Step (start twoRequests) [.recvRequest, .handle, .sendResponse] c ∧
      c.pc = .sent rsp ∧ announced rsp.close = ascii "close" ∧ idle.Step c .recvRequest d ∧
      d.handed.map HttpRequest.path = [ascii "/", ascii "/b"] := by
  have seen : ([Call.recvRequest, .handle, .sendResponse].foldlM idle.next (start twoRequests)).toOption.map
      (fun c => (c.pc, (idle.receive c).handed.map HttpRequest.path)) =
        some (.sent (HttpResponse.new 0x11 true), [ascii "/", ascii "/b"]) := by
    decide +kernel
  obtain ⟨c, run, seen⟩ := Run.of_seen seen
  obtain ⟨here, paths⟩ := Prod.mk.inj seen
  exact ⟨c, _, _, run, here, by decide, step_of_loops (by rw [here]; rfl), paths⟩

end HttpServer

end Cool.Http
