import Cool.Http.Framing

/-!
# The limit on bodies

`GetHttpRequestMaxBodySize()` is configured and never asked for. A body that is too long is made room for like
any other, and from 2^63 on its length is negative, so that the request is returned without a body.
-/

namespace Cool.Http.HttpSession

open HttpRequestParser

/-- The default of `http.request.max_body_size`. -/
def maxBodySize : Nat := 64 * 1024 * 1024

/-- What `body.resize(length)` is asked for, if it is reached. -/
def Received.bodyResize [Boost] (got : Received) : Option Nat :=
  let length := toInt64 got.parser.contentLength
  if 0 < length then some length.toNat else none

/-- What is expected of a request with a body over the limit. -/
structure Refuses [Boost] (limit : Nat) (got : Received) (reply : Reply) : Prop where
  nullptr : reply.request = none
  closed : reply.session.connected = false
  bounded : ∀ n, got.bodyResize = some n → n ≤ limit

variable {size : BufferSize} {s s' : HttpSession} {got : Received} {limit : Nat}

theorem bodyResize_of_lt [Boost] (positive : 0 < got.parser.contentLength) (small : got.parser.contentLength < 2 ^ 63) :
    got.bodyResize = some got.parser.contentLength := by
  rw [Received.bodyResize, toInt64_of_lt small, if_pos (by omega), Int.toNat_natCast]

theorem recvBody_of_ge [Boost] (large : 2 ^ 63 ≤ got.parser.contentLength) (s : HttpSession) :
    recvBody got s = ⟨some got.parser.data, [], s⟩ := by
  have small : got.parser.contentLength < 2 ^ 64 := HttpRequest.getHeaderAs_lt _ _
  rw [recvBody]
  dsimp only
  rw [if_neg (toInt64_of_ge large small)]

/-- However a request over the limit arrives, it is not refused: room is made for its body, or it is returned
with an empty one. -/
theorem oversized_never [Boost] (memory : Memory size)
    (header : recvHeader size (HttpRequestParser.new memory.toUninit) memory.buffer 0 s = .ok (some got, s'))
    (large : limit < got.parser.contentLength) :
    ∃ reply, recvRequest memory s = .ok reply ∧ ¬ Refuses limit got reply ∧
      (got.parser.contentLength < 2 ^ 63 → got.bodyResize = some got.parser.contentLength) ∧
      (2 ^ 63 ≤ got.parser.contentLength →
        reply.request = some got.parser.data ∧ got.parser.data.body = [] ∧ reply.session = s') := by
  have empty : got.parser.data.body = [] := congrArg Prod.snd (recvHeader_unwritten header)
  refine ⟨recvBody got s', by rw [recvRequest, header], ?_, ?_, ?_⟩
  · rintro ⟨nullptr, _, bounded⟩
    by_cases small : got.parser.contentLength < 2 ^ 63
    · have within := bounded _ (bodyResize_of_lt (by omega) small)
      omega
    · rw [recvBody_of_ge (by omega)] at nullptr
      cases nullptr
  · exact bodyResize_of_lt (by omega)
  · intro negative
    rw [recvBody_of_ge negative]
    exact ⟨rfl, empty, rfl⟩

theorem oversized_never_post : ∃ got s' reply,
    recvHeader 64 (HttpRequestParser.new (Memory.zeroed 64).toUninit) (Memory.zeroed 64).buffer 0
      ⟨[ValidHeader.post.bytes], true⟩ = .ok (some got, s') ∧
      recvRequest (Memory.zeroed 64) ⟨[ValidHeader.post.bytes], true⟩ = .ok reply ∧ ¬ Refuses 2 got reply := by
  have fits : (ValidHeader.post.bytes ++ []).length ≤ (64 : BufferSize).val := by decide +kernel
  obtain ⟨m, data, header, same, _⟩ :=
    ValidHeader.post.recvHeader (Memory.zeroed 64).toUninit [] (Memory.zeroed 64).buffer_length fits
  rw [List.append_nil] at header
  have declared : m.contentLength = 3 := by
    rw [HttpRequestParser.contentLength, same]
    decide +kernel
  have large : 2 < m.contentLength := by
    rw [declared]
    decide
  obtain ⟨reply, run, refuses, _⟩ := oversized_never (Memory.zeroed 64) header large
  exact ⟨_, _, reply, header, run, refuses⟩

/-- A length of 2^64 - 1 is over the limit, and the request comes back without a body. -/
theorem oversized_returned :
    maxBodySize < 18446744073709551615 ∧
      (recvRequest (Memory.zeroed 64)
          ⟨[ascii "POST / HTTP/1.1\r\nContent-Length: 18446744073709551615\r\n\r\n"], true⟩).toOption.map
        (fun reply => (reply.request.map HttpRequest.body, reply.session.connected)) = some (some [], true) := by
  decide +kernel

end Cool.Http.HttpSession
