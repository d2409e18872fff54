import Cool.Http.Parser

/-!
# `HttpSession`

`recvRequest`, and the loop of `HttpServer::handle_client` that calls it. The peer is the list of
what arrives, one entry for each stretch of bytes that becomes readable at once; when the list is
spent the peer has closed.
-/

namespace Cool.Http

open Foundation

structure HttpSession where
  arrivals : List (List UInt8)
  connected : Bool
  deriving DecidableEq, Repr

/-- `GetHttpRequestBufferSize()`, small enough for the `int` locals of `recvRequest`. -/
abbrev BufferSize := Fin (2 ^ 31)

/-- What one call of `recvRequest` finds in the memory it allocates. -/
structure Memory (size : BufferSize) extends Uninit where
  buffer : List UInt8
  buffer_length : buffer.length = size

def Memory.zeroed (size : BufferSize) : Memory size where
  queryStart := 0
  uriRelaxed := false
  buffer := List.replicate size 0
  buffer_length := List.length_replicate

namespace HttpSession

def pending (s : HttpSession) : Nat := (s.arrivals.map List.length).sum

def close (s : HttpSession) : HttpSession := { s with connected := false }

/-- `SocketStream::read`; `none` is a result of at most 0. -/
def read (length : Nat) (s : HttpSession) : Option (List UInt8 × HttpSession) :=
  if s.connected then
    match s.arrivals with
    | [] => none
    | first :: later =>
      if first.take length = [] then none
      else some (first.take length,
        { s with arrivals := if first.length ≤ length then later else first.drop length :: later })
  else none

theorem read_pending {length : Nat} {s s' : HttpSession} {chunk : List UInt8}
    (got : s.read length = some (chunk, s')) : s'.pending + chunk.length = s.pending ∧ chunk ≠ [] := by
  unfold read at got
  split at got
  · split at got
    · cases got
    · rename_i first later harrivals
      split at got
      · cases got
      · rename_i nonempty
        cases got
        refine ⟨?_, nonempty⟩
        simp only [pending, harrivals, List.map_cons, List.sum_cons, List.length_take]
        split
        · omega
        · simp only [List.map_cons, List.sum_cons, List.length_drop]
          omega
  · cases got

theorem read_length {length : Nat} {s s' : HttpSession} {chunk : List UInt8}
    (got : s.read length = some (chunk, s')) : chunk.length ≤ length := by
  unfold read at got
  split at got
  · split at got
    · cases got
    · split at got
      · cases got
      · cases got
        exact List.length_take_le _ _
  · cases got

theorem read_shrinks {length : Nat} {s s' : HttpSession} {chunk : List UInt8}
    (got : s.read length = some (chunk, s')) : s'.pending < s.pending := by
  obtain ⟨total, nonempty⟩ := read_pending got
  have := List.length_pos_of_ne_nil nonempty
  omega

/-- A parsed header, and the buffer with the `offset` bytes that came after it. -/
structure Received where
  parser : HttpRequestParser
  data : List UInt8
  offset : Nat
  deriving DecidableEq, Repr

/-- The loop of `recvRequest` that parses the header. -/
def recvHeader (size : BufferSize) (parser : HttpRequestParser) (data : List UInt8) (offset : Nat)
    (s : HttpSession) : Except Fault (Option Received × HttpSession) :=
  match _hread : s.read (size - offset) with
  | none => .ok (none, s.close)
  | some (chunk, s') =>
    let len := chunk.length + offset
    match parser.execute (overwrite data offset chunk) len with
    | .error f => .error f
    | .ok (nparse, data', parser') =>
      if parser'.hasError then .ok (none, s'.close)
      else if len - nparse = size then .ok (none, s'.close)
      else if parser'.isFinished ≠ 0 then .ok (some ⟨parser', data', len - nparse⟩, s')
      else recvHeader size parser' data' (len - nparse) s'
termination_by s.pending
decreasing_by exact read_shrinks _hread

def toInt32 (n : Nat) : Int :=
  if n % 2 ^ 32 < 2 ^ 31 then (n % 2 ^ 32 : Nat) else (n % 2 ^ 32 : Nat) - 2 ^ 32

def toInt64 (n : Nat) : Int :=
  if n % 2 ^ 64 < 2 ^ 63 then (n % 2 ^ 64 : Nat) else (n % 2 ^ 64 : Nat) - 2 ^ 64

/-- The loop of `Stream::readFixSize`: the bytes it stores and whether all of them came. -/
def fill (left : Nat) (s : HttpSession) : List UInt8 × Bool × HttpSession :=
  if left = 0 then ([], true, s)
  else
    match _hread : s.read left with
    | none => ([], false, s)
    | some (chunk, s') =>
      let rest := fill (left - chunk.length) s'
      (chunk ++ rest.1, rest.2)
termination_by s.pending
decreasing_by exact read_shrinks _hread

/-- `readFixSize(buffer, length)`: the result, the bytes stored at `buffer`, and the session. -/
def readFixSize (length : Nat) (s : HttpSession) : Int × List UInt8 × HttpSession :=
  match fill length s with
  | (stored, true, s') => (toInt32 length, stored, s')
  | (stored, false, s') => (0, stored, s')

/-- What `recvRequest` returns, what it stored at and behind the end of the body string, and the
session it leaves. -/
structure Reply where
  request : Option HttpRequest
  stray : List UInt8
  session : HttpSession
  deriving DecidableEq, Repr

/-- The rest of `recvRequest`. The body string is already `length` long when the bytes that came
with the header are appended to it, and the missing ones go to `&body[body.size()]`. -/
def recvBody [Boost] (got : Received) (s : HttpSession) : Reply :=
  let length := toInt64 got.parser.contentLength
  if 0 < length then
    let body := List.replicate length.toNat 0 ++
      (if got.offset ≤ length then got.data.take got.offset else got.data.take length.toNat)
    let request := { got.parser.data with body := body }
    let missing := length - got.offset
    if 0 < missing then
      match readFixSize missing.toNat s with
      | (result, stored, s') =>
        if result ≤ 0 then ⟨none, stored, s'.close⟩ else ⟨some request, stored, s'⟩
    else ⟨some request, [], s⟩
  else ⟨some got.parser.data, [], s⟩

def recvRequest [Boost] {size : BufferSize} (memory : Memory size) (s : HttpSession) : Except Fault Reply :=
  match recvHeader size (HttpRequestParser.new memory.toUninit) memory.buffer 0 s with
  | .error f => .error f
  | .ok (none, s') => .ok ⟨none, [], s'⟩
  | .ok (some got, s') => .ok (recvBody got s')

/-! ### Every call takes from what is pending -/

theorem recvHeader_pending {size : BufferSize} {parser : HttpRequestParser} {data : List UInt8}
    {offset : Nat} {s s' : HttpSession} {got : Received}
    (run : recvHeader size parser data offset s = .ok (some got, s')) : s'.pending < s.pending := by
  fun_induction recvHeader size parser data offset s with
  | case6 parser data offset s chunk s₁ hread len nparse data' parser' hexec _ _ _ ih =>
    exact Nat.lt_trans (ih run) (read_shrinks hread)
  | case5 parser data offset s chunk s₁ hread => cases run; exact read_shrinks hread
  | _ => cases run

theorem fill_pending (left : Nat) (s : HttpSession) : (fill left s).2.2.pending ≤ s.pending := by
  fun_induction fill left s with
  | case3 left s _ chunk s' hread rest ih => exact Nat.le_trans ih (Nat.le_of_lt (read_shrinks hread))
  | _ => exact Nat.le_refl _

theorem recvBody_pending [Boost] (got : Received) (s : HttpSession) :
    (recvBody got s).session.pending ≤ s.pending := by
  unfold recvBody
  simp only
  split
  · split
    · have := fill_pending (toInt64 got.parser.contentLength - got.offset).toNat s
      unfold readFixSize
      split <;> split <;> simp_all [close, pending]
    · exact Nat.le_refl _
  · exact Nat.le_refl _

theorem recvRequest_pending [Boost] {size : BufferSize} {memory : Memory size} {s : HttpSession}
    {reply : Reply} {r : HttpRequest} (run : recvRequest memory s = .ok reply)
    (returned : reply.request = some r) : reply.session.pending < s.pending := by
  unfold recvRequest at run
  split at run
  · cases run
  · cases run
    cases returned
  · rename_i got s' hheader
    cases run
    exact Nat.lt_of_le_of_lt (recvBody_pending got s') (recvHeader_pending hheader)

end HttpSession

open HttpSession in
/-- The requests that `HttpServer::handle_client` hands to the dispatcher. -/
def handleClient [Boost] {size : BufferSize} (isKeepAlive : Bool) (memory : Nat → Memory size) (calls : Nat)
    (s : HttpSession) : Except Fault (List HttpRequest) :=
  match _hrun : recvRequest (memory calls) s with
  | .error f => .error f
  | .ok reply =>
    match _hreq : reply.request with
    | none => .ok []
    | some request =>
      if isKeepAlive then
        match handleClient isKeepAlive memory (calls + 1) reply.session with
        | .error f => .error f
        | .ok requests => .ok (request :: requests)
      else .ok [request]
termination_by s.pending
decreasing_by exact recvRequest_pending _hrun _hreq

section

variable [Boost] {size : BufferSize} {isKeepAlive : Bool} {memory : Nat → Memory size} {calls : Nat}
  {s : HttpSession} {reply : HttpSession.Reply} {request : HttpRequest}

theorem handleClient_failed {fault : Fault} (run : s.recvRequest (memory calls) = .error fault) :
    handleClient isKeepAlive memory calls s = .error fault := by
  rw [handleClient]
  split
  · rename_i failed
    rw [run] at failed
    cases failed
    rfl
  · rename_i got
    rw [run] at got
    cases got

theorem handleClient_none (run : s.recvRequest (memory calls) = .ok reply)
    (returned : reply.request = none) : handleClient isKeepAlive memory calls s = .ok [] := by
  rw [handleClient]
  split
  · rename_i failed
    rw [run] at failed
    cases failed
  · rename_i got
    rw [run] at got
    cases got
    split
    · rfl
    · rename_i some
      rw [returned] at some
      cases some

theorem handleClient_some (run : s.recvRequest (memory calls) = .ok reply)
    (returned : reply.request = some request) :
    handleClient isKeepAlive memory calls s =
      if isKeepAlive then (handleClient isKeepAlive memory (calls + 1) reply.session).map (request :: ·)
      else .ok [request] := by
  rw [handleClient]
  split
  · rename_i failed
    rw [run] at failed
    cases failed
  · rename_i got
    rw [run] at got
    cases got
    split
    · rename_i none
      rw [returned] at none
      cases none
    · rename_i some
      rw [returned] at some
      cases some
      split
      · split <;> rename_i rest <;> rw [rest] <;> rfl
      · rfl

end

end Cool.Http
