import Cool.Http.Chunks

/-!
# Bodies and requests that follow each other

What `recvRequest` makes of a header that arrives in one read. The bytes behind the header are in the
buffer of the call; they go to the body as far as `Content-Length` says and are lost with the buffer
otherwise.
-/

namespace Cool.Http

open Foundation HttpRequestParser HttpSession

/-! ### A finished header does not depend on what follows it -/

namespace HttpRequestParser

variable {buffer bytes tail : List UInt8} {p n k : Nat} {m m' : HttpRequestParser}

theorem assertions_mono {r : HttpParser} {len len' : Nat} (le : len ≤ len')
    (asserted : assertions r len = true) : assertions r len' = true := by
  simp only [assertions, Bool.and_eq_true, decide_eq_true_eq] at asserted ⊢
  omega

theorem httpParserExecute_append (live : m.parser.cs ≠ 0 ∧ m.parser.cs < 348)
    (run : m.httpParserExecute (bytes ++ tail) bytes.length = .ok (n, m'))
    (finished : m'.isFinished = 1) (small : bytes.length + k < 2 ^ 31) :
    m.httpParserExecute (bytes ++ tail) (bytes.length + k) = .ok (n, m') := by
  have ahead : (bytes ++ tail).take (bytes.length + k) = bytes ++ tail.take k :=
    List.take_length_add_append k
  have unfinished (q : HttpRequestParser) (going : q.parser.cs ≠ 0 ∧ q.parser.cs < 348) :
      q.isFinished ≠ 1 := by
    simp [isFinished, going.1, Nat.not_le.mpr going.2]
  rcases httpParserExecute_ok run with ⟨-, -, rfl⟩ | ⟨started, -, move, hscan, rfl, rfl, asserted⟩
  · exact absurd finished (unfinished m' live)
  · rw [List.take_left] at hscan
    have settled := scan_settled (s := ⟨0, m.parser.cs, m.reset⟩) live hscan
    cases move with
    | next s =>
      refine absurd finished (unfinished _ ?_)
      simp only [leave, Move.state, if_neg live.1]
      exact settled
    | stop s =>
      unfold httpParserExecute
      rw [if_neg (by omega), if_neg (by omega), ahead, scan_append_of_stop hscan]
      simp only [assertions_mono (Nat.le_add_right _ k) asserted, if_true]
      rfl

/-- Everything a callback can do to the request. -/
inductive Called (d : Parsed) : Parsed → Prop where
  | nothing : Called d d
  | method (text : List UInt8) : Called d (d.onRequestMethod text)
  | fragment (text : List UInt8) : Called d (d.onRequestFragment text)
  | path (text : List UInt8) : Called d (d.onRequestPath text)
  | query (text : List UInt8) : Called d (d.onRequestQuery text)
  | version (text : List UInt8) (length : Nat) : Called d (d.onRequestVersion text length)
  | httpField (field : List UInt8) (flen : Nat) (value : List UInt8) :
      Called d (d.onRequestHttpField field flen value)

theorem callback_called {a : Action} {r : HttpParser} {d d' : Parsed}
    (run : callback buffer p a r d = .ok d') : Called d d' := by
  have map_ok {x : Except Fault (List UInt8)} {f : List UInt8 → Parsed} (got : x.map f = .ok d') :
      ∃ u, f u = d' := by
    cases x with
    | error e => cases got
    | ok u => cases got; exact ⟨u, rfl⟩
  cases a with
  | writeValue => obtain ⟨value, rfl⟩ := map_ok run; exact .httpField _ _ _
  | requestMethod => cases run; exact .method _
  | httpVersion => cases run; exact .version _ _
  | fragment => obtain ⟨text, rfl⟩ := map_ok run; exact .fragment text
  | queryString => obtain ⟨text, rfl⟩ := map_ok run; exact .query text
  | requestPath => obtain ⟨text, rfl⟩ := map_ok run; exact .path text
  | _ => cases run; exact .nothing

/-- The fields of the request that no callback writes. -/
def unwritten (d : Parsed) : Bool × List UInt8 := (d.data.close, d.data.body)

theorem Called.unwritten {d d' : Parsed} (called : Called d d') :
    HttpRequestParser.unwritten d' = HttpRequestParser.unwritten d := by
  cases called with
  | method => unfold Parsed.onRequestMethod; split <;> rfl
  | version text length =>
    unfold Parsed.onRequestVersion
    rcases onVersion_cases text length _ _ with ⟨version, stored⟩ | refused
    · rw [stored]; rfl
    · rw [refused]; rfl
  | httpField => unfold Parsed.onRequestHttpField; split <;> rfl
  | _ => rfl

/-- No callback writes `INVALID_METHOD`. -/
theorem Called.valid {d d' : Parsed} (called : Called d d') (valid : d.data.method ≠ .invalidMethod) :
    d'.data.method ≠ .invalidMethod := by
  cases called with
  | method =>
    unfold Parsed.onRequestMethod
    split
    · exact valid
    · assumption
  | version text length =>
    unfold Parsed.onRequestVersion
    rcases onVersion_cases text length _ _ with ⟨version, stored⟩ | refused
    · rw [stored]; exact valid
    · rw [refused]; exact valid
  | httpField => unfold Parsed.onRequestHttpField; split <;> exact valid
  | _ => exact valid

theorem perform_parsed {P : Parsed → Prop} (keep : ∀ d d', Called d d' → P d → P d') {as : List Action}
    (run : perform buffer p as m = .ok m') (start : P m.toParsed) : P m'.toParsed := by
  induction as generalizing m with
  | nil => cases run; exact start
  | cons a as ih =>
    unfold perform at run
    split at run
    · cases run
    · rename_i d called
      exact ih run (keep _ _ (callback_called called) start)

/-- What no callback breaks holds after every call. -/
theorem httpParserExecute_parsed {P : Parsed → Prop} (keep : ∀ d d', Called d d' → P d → P d')
    (run : m.httpParserExecute buffer k = .ok (n, m')) (start : P m.toParsed) : P m'.toParsed := by
  rcases httpParserExecute_ok run with ⟨-, -, rfl⟩ | ⟨-, -, move, hscan, -, rfl, -⟩
  · exact start
  · have kept : move.Holds (fun s => P s.owner.toParsed) (fun s => P s.owner.toParsed) := by
      refine scan_holds (N := fun _ (s : Locals) => P s.owner.toParsed) (fun c _ s move held run => ?_) start hscan
      cases follow_iff.mp run with
      | rejected => exact held
      | finished taken performed | advanced taken performed => exact perform_parsed keep performed held
    cases move <;> exact kept

theorem httpParserExecute_unwritten (run : m.httpParserExecute buffer k = .ok (n, m')) :
    unwritten m'.toParsed = unwritten m.toParsed :=
  httpParserExecute_parsed (P := fun d => unwritten d = unwritten m.toParsed)
    (fun _ _ called held => called.unwritten.trans held) run rfl

end HttpRequestParser

/-- A header that the parser accepts, finishing at its last byte, whatever it finds in its memory
and behind the header. -/
structure ValidHeader where
  bytes : List UInt8
  request : HttpRequest
  accepted : ∀ (junk : Uninit) (beyond : List UInt8), ∃ data m,
    (HttpRequestParser.new junk).execute (bytes ++ beyond) bytes.length =
        .ok (bytes.length, data, m) ∧
      m.isFinished = 1 ∧ m.hasError = false ∧ m.data = request

namespace ValidHeader

variable {size : BufferSize}

theorem httpParserExecute (header : ValidHeader) (junk : Uninit) (beyond : List UInt8) :
    ∃ m, (HttpRequestParser.new junk).httpParserExecute (header.bytes ++ beyond) header.bytes.length =
        .ok (header.bytes.length, m) ∧
      m.isFinished = 1 ∧ m.hasError = false ∧ m.data = header.request := by
  obtain ⟨data, m, run, facts⟩ := header.accepted junk beyond
  exact ⟨m, (execute_ok run).1, facts⟩

theorem body_nil (header : ValidHeader) : header.request.body = [] := by
  obtain ⟨m, run, -, -, same⟩ := header.httpParserExecute ⟨0, false⟩ []
  rw [← same]
  exact congrArg Prod.snd (httpParserExecute_unwritten run)

theorem bytes_ne_nil (header : ValidHeader) : header.bytes ≠ [] := by
  intro empty
  obtain ⟨m, run, finished, -⟩ := header.httpParserExecute ⟨0, false⟩ []
  rw [empty] at run
  cases run
  cases finished

/-- The header loop on a read that holds the header and some of what follows it. -/
theorem recvHeader (header : ValidHeader) (junk : Uninit) {data tail : List UInt8}
    (later : List (List UInt8)) (room : data.length = size.val)
    (fits : (header.bytes ++ tail).length ≤ size) :
    ∃ m data', HttpSession.recvHeader size (HttpRequestParser.new junk) data 0
          ⟨(header.bytes ++ tail) :: later, true⟩ =
        .ok (some ⟨m, data', tail.length⟩, ⟨later, true⟩) ∧
      m.data = header.request ∧ data'.take tail.length = tail := by
  have nonempty : header.bytes ++ tail ≠ [] := by simp [header.bytes_ne_nil]
  have started := List.length_pos_of_ne_nil header.bytes_ne_nil
  obtain ⟨m, run, finished, sound, same⟩ := header.httpParserExecute junk
    (tail ++ data.drop (header.bytes ++ tail).length)
  have longer := httpParserExecute_append (k := tail.length)
    (m := HttpRequestParser.new junk) ⟨Nat.one_ne_zero, by simp [HttpRequestParser.new, httpParserInit]⟩
    run finished (by rw [← List.length_append]; exact Nat.lt_of_le_of_lt fits size.isLt)
  rw [← List.append_assoc, ← List.length_append] at longer
  obtain ⟨data', -, kept, turn⟩ := recvHeader_cons later nonempty fits room longer
  have left : (header.bytes ++ tail).length - header.bytes.length = tail.length := by simp
  have short : ¬ tail.length = size.val := by
    rw [List.length_append] at fits
    omega
  rw [left, sound, finished, if_neg (by decide), if_neg short, if_pos (by decide)] at turn
  rw [left, List.drop_left] at kept
  exact ⟨m, data', turn, same, kept⟩

/-- The machine on tokens after `bytes`. -/
def after (bytes : List UInt8) : Tokens :=
  match scan (Tokens.step false) bytes Tokens.new with
  | .ok move => move.state
  | .error _ => Tokens.new

/-- A header on which the machine on tokens finishes is valid. -/
def ofTokens (bytes : List UInt8)
    (accepted : (∀ uriRelaxed, scan (Tokens.step uriRelaxed) bytes Tokens.new = .ok (.stop (after bytes))) ∧
      (after bytes).used = bytes.length ∧ (after bytes).cs ≠ 0 ∧ (after bytes).error = 0 ∧
      bytes.length < 2 ^ 31) :
    ValidHeader where
  bytes := bytes
  request := (after bytes).data
  accepted junk beyond := by
    obtain ⟨run, consumed, live, sound, small⟩ := accepted
    have nonempty : bytes ≠ [] := by
      rintro rfl
      cases run true
    have idle := Tokens.idle_new junk
    obtain ⟨s, hexec, -, alike, settled⟩ :=
      Tokens.execute_tracks beyond idle nonempty small (run junk.uriRelaxed)
    have finished : 348 ≤ (after bytes).cs := settled.resolve_left live
    have position : s.p = bytes.length := alike.position.trans consumed
    refine ⟨overwrite (bytes ++ beyond) 0 (((bytes ++ beyond).take bytes.length).drop bytes.length),
      (HttpRequestParser.new junk).leave s, ?_, ?_, ?_, congrArg Parsed.data alike.parsed⟩
    · unfold execute
      rw [hexec, position]
    · rw [isFinished_leave alike idle.cs_ne_zero]
      simp [Move.state, live, finished]
    · rw [hasError_leave alike idle.cs_ne_zero]
      simp [Move.state, live, sound]

def get : ValidHeader := ofTokens (ascii "GET /a HTTP/1.1\r\n\r\n") (by decide +kernel)

def post : ValidHeader :=
  ofTokens (ascii "POST /b HTTP/1.1\r\nContent-Length: 3\r\n\r\n") (by decide +kernel)

end ValidHeader

/-! ### The body -/

theorem HttpRequest.getHeaderAs_lt [Boost] (r : HttpRequest) (key : List UInt8) :
    r.getHeaderAs key 0 < 2 ^ 64 := by
  unfold getHeaderAs
  split
  · decide
  · rename_i text _
    cases value : Boost.lexicalCast text with
    | none => decide
    | some n => exact Boost.lexicalCast_lt value

namespace HttpSession

theorem fill_stored {left : Nat} {s : HttpSession} (all : (fill left s).2.1 = true) :
    (fill left s).1.length = left := by
  fun_induction fill left s with
  | case1 s => rfl
  | case2 => cases all
  | case3 left s _ chunk s' hread rest ih =>
    have bound := read_length hread
    rw [List.length_append, ih all]
    omega

/-- A positive result of `readFixSize` means that everything was stored. -/
theorem readFixSize_stored {length : Nat} {s : HttpSession} (ok : 0 < (readFixSize length s).1) :
    (readFixSize length s).2.1.length = length := by
  unfold readFixSize at ok ⊢
  split
  · rename_i stored s' hfill
    have all : (fill length s).2.1 = true := by rw [hfill]
    have filled := fill_stored all
    rw [hfill] at filled
    exact filled
  · rename_i stored s' hfill
    rw [hfill] at ok
    exact absurd ok (by simp)

theorem toInt64_of_lt {n : Nat} (small : n < 2 ^ 63) : toInt64 n = n := by
  have same : n % 2 ^ 64 = n := Nat.mod_eq_of_lt (by omega)
  rw [toInt64, same, if_pos small]

theorem toInt64_of_ge {n : Nat} (large : 2 ^ 63 ≤ n) (small : n < 2 ^ 64) : ¬ 0 < toInt64 n := by
  have same : n % 2 ^ 64 = n := Nat.mod_eq_of_lt small
  rw [toInt64, same, if_neg (by omega)]
  omega

theorem recvHeader_unwritten {size : BufferSize} {parser : HttpRequestParser} {data : List UInt8} {offset : Nat}
    {s s' : HttpSession} {got : Received} (run : recvHeader size parser data offset s = .ok (some got, s')) :
    unwritten got.parser.toParsed = unwritten parser.toParsed := by
  fun_induction recvHeader size parser data offset s with
  | case5 parser data offset s chunk s₁ hread len nparse data' parser' hexec =>
    cases run
    exact httpParserExecute_unwritten (execute_ok hexec).1
  | case6 parser data offset s chunk s₁ hread len nparse data' parser' hexec _ _ _ ih =>
    exact (ih run).trans (httpParserExecute_unwritten (execute_ok hexec).1)
  | _ => cases run

/-- A body of exactly the declared length is returned only along with stores behind its end. -/
theorem recvBody_stray [Boost] {got : Received} {s : HttpSession} {request : HttpRequest}
    (empty : got.parser.data.body = []) (room : got.offset ≤ got.data.length)
    (declared : 1 ≤ got.parser.contentLength)
    (returned : (recvBody got s).request = some request)
    (exact_length : request.body.length = got.parser.contentLength) : (recvBody got s).stray ≠ [] := by
  have small : got.parser.contentLength < 2 ^ 64 := HttpRequest.getHeaderAs_lt _ _
  generalize hn : got.parser.contentLength = n at declared exact_length small
  unfold recvBody at returned ⊢
  rw [hn] at returned ⊢
  by_cases fitsInt : n < 2 ^ 63
  · simp only [toInt64_of_lt fitsInt, Int.toNat_natCast] at returned ⊢
    rw [if_pos (by omega)] at returned ⊢
    have taken : (if (got.offset : Int) ≤ n then got.data.take got.offset else got.data.take n).length =
        min n got.offset := by
      split <;> rw [List.length_take] <;> omega
    split at returned
    · -- the missing bytes go behind the body; if nothing is appended to it, all `n` are missing
      rename_i missing
      rw [if_pos missing]
      split at returned
      · cases returned
      · rename_i ok
        rw [if_neg ok]
        cases returned
        rw [List.length_append, List.length_replicate, taken] at exact_length
        have stored := readFixSize_stored (Int.not_le.mp ok)
        intro none
        simp only at none
        rw [none, List.length_nil] at stored
        omega
    · -- the body came with the header and stands behind `n` zeros
      cases returned
      rw [List.length_append, List.length_replicate, taken] at exact_length
      omega
  · rw [if_neg (toInt64_of_ge (by omega) small)] at returned
    cases returned
    rw [empty, List.length_nil] at exact_length
    omega

/-- However the body of a valid request arrives, `recvRequest` does not return it: the body is not
the declared bytes, or bytes were stored behind its end. -/
theorem recvRequest_body_never [Boost] {size : BufferSize} (memory : Memory size) (header : ValidHeader)
    (n : Nat) (first : List UInt8) (later : List (List UInt8))
    (declared : header.request.getHeaderAs (ascii "content-length") 0 = n) (positive : 1 ≤ n)
    (fits : (header.bytes ++ first).length ≤ size) (enough : n ≤ (first ++ later.flatten).length) :
    ¬ ∃ reply request, recvRequest memory ⟨(header.bytes ++ first) :: later, true⟩ = .ok reply ∧
      reply.request = some request ∧ request.body = (first ++ later.flatten).take n ∧
      reply.stray = [] := by
  rintro ⟨reply, request, run, returned, body, clean⟩
  obtain ⟨m, data, hheader, same, kept⟩ :=
    header.recvHeader memory.toUninit later memory.buffer_length fits
  unfold recvRequest at run
  rw [hheader] at run
  cases run
  have hn : m.contentLength = n := by rw [contentLength, same, declared]
  have room : first.length ≤ data.length := by
    have := congrArg List.length kept
    rw [List.length_take] at this
    omega
  refine recvBody_stray ?_ ?_ ?_ returned ?_ clean
  · rw [same, header.body_nil]
  · exact room
  · exact hn ▸ positive
  · rw [body, List.length_take, hn]
    omega

theorem recvRequest_body_never_split :
    ¬ ∃ reply request, recvRequest (Memory.zeroed 64)
        ⟨[ValidHeader.post.bytes ++ ascii "ab", ascii "c"], true⟩ = .ok reply ∧
      reply.request = some request ∧ request.body = ascii "abc" ∧ reply.stray = [] :=
  recvRequest_body_never (Memory.zeroed 64) .post 3 (ascii "ab") [ascii "c"] (by decide +kernel)
    (by decide) (by decide +kernel) (by decide)

/-- The body `abc` in the read that holds the header comes behind three zeros; in a read of its own
it is stored behind the end. -/
theorem recvRequest_body_abc :
    (recvRequest (Memory.zeroed 64)
        ⟨[ascii "POST / HTTP/1.1\r\nContent-Length: 3\r\n\r\nabc"], true⟩).toOption.map
      (fun reply => (reply.request.map HttpRequest.body, reply.stray)) =
        some (some ([0, 0, 0] ++ ascii "abc"), []) ∧
    (recvRequest (Memory.zeroed 64)
        ⟨[ascii "POST / HTTP/1.1\r\nContent-Length: 3\r\n\r\n", ascii "abc"], true⟩).toOption.map
      (fun reply => (reply.request.map HttpRequest.body, reply.stray)) =
        some (some [0, 0, 0], ascii "abc") := by
  decide +kernel

end HttpSession

/-! ### Requests on one connection -/

/-- A request whose body is as long as its header declares. -/
structure ValidRequest [Boost] where
  header : ValidHeader
  body : List UInt8
  declared : header.request.getHeaderAs (ascii "content-length") 0 = body.length

namespace ValidRequest

variable [Boost]

def bytes (r : ValidRequest) : List UInt8 := r.header.bytes ++ r.body

/-- A request that arrives in a read of its own is returned, and nothing is left of the read. -/
theorem recvRequest {size : BufferSize} (r : ValidRequest) (memory : Memory size)
    (later : List (List UInt8)) (fits : r.bytes.length ≤ size) :
    ∃ request, HttpSession.recvRequest memory ⟨r.bytes :: later, true⟩ =
        .ok ⟨some request, [], ⟨later, true⟩⟩ ∧
      { request with body := [] } = r.header.request := by
  obtain ⟨m, data, hheader, same, kept⟩ :=
    r.header.recvHeader memory.toUninit later memory.buffer_length fits
  have hn : m.contentLength = r.body.length := by rw [contentLength, same, r.declared]
  have small : r.body.length < 2 ^ 63 := by
    have := size.isLt
    rw [bytes, List.length_append] at fits
    omega
  have unchanged : { m.data with body := [] } = r.header.request := by
    rw [same]
    exact congrArg (fun b => { r.header.request with body := b }) r.header.body_nil.symm
  unfold HttpSession.recvRequest
  rw [bytes, hheader]
  simp only [recvBody, hn, toInt64_of_lt small]
  split
  · rw [if_neg (by omega)]
    exact ⟨_, rfl, unchanged⟩
  · exact ⟨_, rfl, unchanged⟩

end ValidRequest

theorem handleClient_closed [Boost] {size : BufferSize} (memory : Nat → Memory size) (calls : Nat) :
    handleClient true memory calls ⟨[], true⟩ = .ok [] := by
  have none : recvRequest (memory calls) ⟨[], true⟩ = .ok ⟨none, [], ⟨[], false⟩⟩ := by
    unfold recvRequest
    rw [recvHeader]
    rfl
  exact handleClient_none none rfl

/-- Requests that each arrive in a read of their own, body included, are all handed on in order. -/
theorem handleClient_separate [Boost] {size : BufferSize} (memory : Nat → Memory size) (calls : Nat)
    (requests : List ValidRequest) (fits : ∀ r ∈ requests, r.bytes.length ≤ size) :
    ∃ got, handleClient true memory calls ⟨requests.map ValidRequest.bytes, true⟩ = .ok got ∧
      got.map (fun request => { request with body := [] }) = requests.map (·.header.request) := by
  induction requests generalizing calls with
  | nil => exact ⟨[], handleClient_closed memory calls, rfl⟩
  | cons r requests ih =>
    obtain ⟨request, run, same⟩ := r.recvRequest (memory calls) (requests.map ValidRequest.bytes)
      (fits r List.mem_cons_self)
    obtain ⟨got, rest, sames⟩ := ih (calls + 1) (fun q hq => fits q (List.mem_cons_of_mem r hq))
    refine ⟨request :: got, ?_, ?_⟩
    · rw [List.map_cons, handleClient_some run rfl, if_pos rfl, rest]
      rfl
    · rw [List.map_cons, List.map_cons, same, sames]

theorem handleClient_separate_two :
    ∃ got, handleClient true (fun _ => Memory.zeroed 64) 0
        ⟨[ValidHeader.get.bytes ++ [], ValidHeader.post.bytes ++ ascii "abc"], true⟩ = .ok got ∧
      got.map (fun request => { request with body := [] }) =
        [ValidHeader.get.request, ValidHeader.post.request] :=
  handleClient_separate (fun _ => Memory.zeroed 64) 0
    [⟨.get, [], by decide +kernel⟩, ⟨.post, ascii "abc", by decide +kernel⟩] (by decide +kernel)

/-- Of two requests in one read the second is lost. -/
theorem handleClient_pipelined :
    (handleClient true (fun _ => Memory.zeroed 64) 0
        ⟨[ascii "GET /a HTTP/1.1\r\n\r\nGET /b HTTP/1.1\r\n\r\n"], true⟩).toOption.map
      (List.map HttpRequest.path) = some [ascii "/a"] := by
  decide +kernel

end Cool.Http
