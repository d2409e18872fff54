import Cool.Http.Connection
import Cool.Http.RequestTrip
import Cool.Http.ResponseTrip
import Cool.Http.Servlet

/-!
# Requests and their answers

A connection from end to end: requests are printed, parsed, routed and answered, and the answers are
printed and parsed again. The servlets are those that the calls of the dispatcher name, and they may
change from one request to the next.
-/

namespace Cool.Http

open Foundation

/-! ### The servlets -/

/-- `Servlet::handle(request, response, session)`, which need not return. -/
abbrev Handler := HttpRequest → HttpResponse → HttpSession → Option (HttpResponse × HttpSession)

/-- `NotFoundServlet::handle`. -/
def notFoundServlet (rsp : HttpResponse) : HttpResponse :=
  let named := ({ rsp with status := .notFound }.setHeader (ascii "Server") (ascii "cool/1.0.0")).setHeader
    (ascii "Content-Type") (ascii "text/html")
  { named with
    body := ascii "<html><head><title>404 Not Found</title></head><body>" ++
      ascii "<center><h1>404 Not Found</h1></center>" ++ ascii "<hr><center>cool/1.0.0</center>" ++
      ascii "</body></html>" }

def Servlet.handle : Servlet Handler Handler → Handler
  | .object slt => slt
  | .function cb => cb
  | .notFound => fun _ rsp s => some (notFoundServlet rsp, s)

def ServletDispatch.handle (d : ServletDispatch Handler Handler) (fnmatch : List UInt8 → List UInt8 → Bool) :
    Handler :=
  fun req => (d.getMatchedServlet req.path fnmatch).handle req

/-- A server and its dispatcher; `routes` are the calls that the dispatcher has got when it is given the
request of that number. -/
structure Routing (size : BufferSize) where
  isKeepAlive : Bool
  memory : Nat → Memory size
  fnmatch : List UInt8 → List UInt8 → Bool
  routes : Nat → List (ServletDispatch.Call Handler Handler)

def Routing.server {size : BufferSize} (routing : Routing size) : HttpServer size where
  isKeepAlive := routing.isKeepAlive
  memory := routing.memory
  handle n := (ServletDispatch.run (routing.routes n)).handle routing.fnmatch

/-! ### A printed request arrives -/

theorem units_mono {cls cls' : UInt8 → Bool} (wider : ∀ c, cls c = true → cls' c = true) {l : List UInt8}
    (inside : units cls l = true) : units cls' l = true := by
  fun_induction units cls l with
  | case1 => rfl
  | case2 a b rest ih =>
    simp only [Bool.and_eq_true] at inside
    simp only [units, inside.1, ih inside.2, Bool.and_self]
  | case3 c rest other ih =>
    simp only [Bool.and_eq_true] at inside
    rw [units, wider c inside.1, ih inside.2]
    · rfl
    · exact other

theorem pathAbsolute_mono (u : Bool) {l : List UInt8} (path : pathAbsolute false l = true) :
    pathAbsolute u l = true := by
  have wider (c : UInt8) (inside : isPathChar false c = true) : isPathChar u c = true := by
    cases u with
    | false => exact inside
    | true =>
      simp only [isPathChar, isPchar, isSubDelims, Bool.false_and, Bool.or_false, Bool.or_eq_true] at inside ⊢
      tauto
  unfold pathAbsolute at path ⊢
  split at path
  · rfl
  · simp only [Bool.and_eq_true] at path ⊢
    exact ⟨path.1, units_mono wider path.2⟩
  · cases path

/-- The method is printed as a word that the parser knows, and no header starts with a line end. -/
structure Sendable (r : HttpRequest) : Prop where
  usual : r.method ≠ .msearch
  valid : r.method ≠ .invalidMethod
  inside : ∀ h ∈ r.headers, endsHeader h.1 = false

namespace PlainRequest

def loosen (r : PlainRequest false) (u : Bool) : PlainRequest u :=
  { r with absolute := pathAbsolute_mono u r.absolute }

def head {u : Bool} (r : PlainRequest u) : List UInt8 := r.requestLine ++ r.lines ++ crlf

theorem dump_head {u : Bool} (r : PlainRequest u) : r.dump = r.head ++ r.body := by
  rw [r.dump_eq, head]
  simp only [List.append_assoc]

theorem scan_head {u : Bool} (r : PlainRequest u) (sendable : Sendable r.toHttpRequest) :
    ∃ k, scan (Tokens.step u) r.head Tokens.new = .ok (.stop ⟨⟨0, r.parsed⟩, 348, r.head.length, k⟩) := by
  obtain ⟨k, ran⟩ := ((r.passes_requestLine sendable.usual sendable.valid).append
    (r.passes_lines sendable.inside)) 0 .none
  obtain ⟨k', ended⟩ := scan_end (u := u) ⟨0, r.parsed⟩ (0 + (r.requestLine ++ r.lines).length) k
  have used : 0 + (r.requestLine ++ r.lines).length + 2 = r.head.length := by
    rw [head, Nat.zero_add]
    exact (List.length_append : (r.requestLine ++ r.lines ++ crlf).length = _).symm
  rw [used] at ended
  exact ⟨k', (scan_append_of_next ran).trans ended⟩

/-- The printed request is one that the session accepts, whatever its memory holds. -/
theorem accepted_head (r : PlainRequest false) (sendable : Sendable r.toHttpRequest) (small : r.dump.length < 2 ^ 31)
    (junk : Uninit) (beyond : List UInt8) : ∃ data m,
      (HttpRequestParser.new junk).execute (r.head ++ beyond) r.head.length = .ok (r.head.length, data, m) ∧
        m.isFinished = 1 ∧ m.hasError = false ∧ m.data = r.parsed := by
  obtain ⟨k, ran⟩ := (r.loosen junk.uriRelaxed).scan_head sendable
  have nonempty : r.head ≠ [] := by simp [head, crlf]
  have short : r.head.length < 2 ^ 31 := by
    rw [r.dump_head, List.length_append] at small
    omega
  have idle := Tokens.idle_new junk
  obtain ⟨s, executed, -, alike, -⟩ := Tokens.execute_tracks beyond idle nonempty short ran
  have position : s.p = r.head.length := alike.position
  refine ⟨overwrite (r.head ++ beyond) 0 (((r.head ++ beyond).take r.head.length).drop r.head.length),
    (HttpRequestParser.new junk).leave s, ?_, ?_, ?_, congrArg Parsed.data alike.parsed⟩
  · unfold HttpRequestParser.execute
    rw [executed, position]
  · rw [HttpSession.isFinished_leave alike idle.cs_ne_zero]
    rfl
  · rw [HttpSession.hasError_leave alike idle.cs_ne_zero]
    rfl

theorem declared_body [Boost] (r : PlainRequest false) (small : r.dump.length < 2 ^ 31) :
    r.parsed.getHeaderAs (ascii "content-length") 0 = r.body.length := by
  refine r.contentLength_parsed ?_
  rw [r.dump_head, List.length_append] at small
  omega

def valid [Boost] (r : PlainRequest false) (sendable : Sendable r.toHttpRequest) (small : r.dump.length < 2 ^ 31) :
    ValidRequest where
  header := ⟨r.head, r.parsed, r.accepted_head sendable small⟩
  body := r.body
  declared := r.declared_body small

end PlainRequest

/-- What `recvRequest` makes of a printed request. The body stands behind as many zeros. -/
def HttpRequest.handed (r : HttpRequest) : HttpRequest :=
  { r.parsed with body := List.replicate r.body.length 0 ++ r.body }

/-- A request that arrives in a read of its own, to the byte. -/
theorem ValidRequest.recvRequest_eq [Boost] {size : BufferSize} (r : ValidRequest) (memory : Memory size)
    (later : List (List UInt8)) (fits : r.bytes.length ≤ size) :
    HttpSession.recvRequest memory ⟨r.bytes :: later, true⟩ =
      .ok ⟨some { r.header.request with body := List.replicate r.body.length 0 ++ r.body }, [], ⟨later, true⟩⟩ := by
  obtain ⟨m, data, header, same, kept⟩ :=
    r.header.recvHeader memory.toUninit later memory.buffer_length fits
  have length : m.contentLength = r.body.length := by rw [HttpRequestParser.contentLength, same, r.declared]
  have small : r.body.length < 2 ^ 63 := by
    have := size.isLt
    rw [bytes, List.length_append] at fits
    omega
  unfold HttpSession.recvRequest
  rw [bytes, header]
  simp only [HttpSession.recvBody, length, HttpSession.toInt64_of_lt small]
  split
  · rw [if_neg (by omega), if_pos (Int.le_refl _), kept, same, Int.toNat_natCast]
  · have empty : r.body = [] := List.length_eq_zero_iff.mp (by omega)
    have unchanged : { r.header.request with body := [] } = r.header.request :=
      congrArg (fun b => { r.header.request with body := b }) r.header.body_nil.symm
    rw [empty, same]
    exact congrArg (fun request => Except.ok (⟨some request, [], ⟨later, true⟩⟩ : HttpSession.Reply)) unchanged.symm

namespace HttpServer

variable [Boost] {size : BufferSize} {server : HttpServer size} {c : Connection}

/-- One turn of the loop. -/
theorem run_turn (loops : server.loops c.pc = true) {r : PlainRequest false} {rsp : HttpResponse}
    {later : List (List UInt8)} (sendable : Sendable r.toHttpRequest) (fits : r.dump.length ≤ size)
    (arrives : c.session = ⟨r.dump :: later, true⟩)
    (answers : server.handle (c.received + 1) r.handed (HttpResponse.new r.version true) ⟨later, true⟩ =
      some (rsp, ⟨later, true⟩)) :
    Run server.Step c [.recvRequest, .handle, .sendResponse]
      ⟨.sent rsp, ⟨later, true⟩, c.received + 1, c.handed ++ [r.handed], c.output ++ rsp.dump⟩ := by
  have small : r.dump.length < 2 ^ 31 := Nat.lt_of_le_of_lt fits size.isLt
  have bytes : (r.valid sendable small).bytes = r.dump := r.dump_head.symm
  have got := (r.valid sendable small).recvRequest_eq (server.memory c.received) later (by rw [bytes]; exact fits)
  rw [bytes] at got
  have received : server.receive c =
      ⟨.handling r.handed (HttpResponse.new r.version true), ⟨later, true⟩, c.received + 1,
        c.handed ++ [r.handed], c.output⟩ := by
    unfold receive
    rw [arrives, got]
    rfl
  have first := step_of_loops loops
  rw [received] at first
  exact ((Run.nil.snoc first).snoc (step_of_handling rfl answers)).snoc (step_of_sending rfl rfl)

/-- With nothing more to read the loop ends. -/
theorem run_end (loops : server.loops c.pc = true) (quiet : c.session = ⟨[], true⟩) :
    Run server.Step c [.recvRequest, .close] ⟨.closed, ⟨[], false⟩, c.received + 1, c.handed, c.output⟩ := by
  have none : c.session.recvRequest (server.memory c.received) = .ok ⟨none, [], ⟨[], false⟩⟩ := by
    rw [quiet]
    unfold HttpSession.recvRequest
    rw [HttpSession.recvHeader]
    rfl
  have received : server.receive c = ⟨.broken, ⟨[], false⟩, c.received + 1, c.handed, c.output⟩ := by
    unfold receive
    rw [none]
  have first := step_of_loops loops
  rw [received] at first
  exact (Run.nil.snoc first).snoc (step_of_leaves rfl)

/-- The only call that can come next. -/
def due (server : HttpServer size) : Connection.Pc → Connection.Call
  | .handling _ _ => .handle
  | .sending _ => .sendResponse
  | .sent _ => if server.isKeepAlive then .recvRequest else .close
  | .broken => .close
  | _ => .recvRequest

theorem step_due {call : Connection.Call} {d : Connection} (step : server.Step c call d) :
    call = server.due c.pc := by
  cases step_moved step with
  | threw looping | broke looping | took looping =>
    unfold loops at looping
    split at looping
    · rename_i here
      rw [here]
      rfl
    · rename_i here
      rw [here, due, if_pos looping]
    · cases looping
  | handle here | sendResponse here => rw [here, due]
  | close leaving =>
    unfold leaves at leaving
    split at leaving
    · rename_i here
      rw [here, due]
    · rename_i here
      rw [here, due, if_neg (by simpa using leaving)]
    · cases leaving

theorem step_unique {call call' : Connection.Call} {d d' : Connection} (step : server.Step c call d)
    (step' : server.Step c call' d') : d = d' := by
  obtain rfl := (step_due step).trans (step_due step').symm
  exact Except.ok.inj (step.symm.trans step')

end HttpServer

/-! ### The answers are read -/

namespace Client

open HttpResponseParser

/-- A client that reads a response with a parser of its own, and the body by its length. -/
def receive [Boost] (stream : List UInt8) : Except ClientFault (Option (HttpResponse × List UInt8)) :=
  match HttpResponseParser.new.execute (stream ++ [0]) stream.length with
  | .error f => .error f
  | .ok (n, _, m) =>
    let rest := stream.drop n
    if m.hasError || m.isFinished != 1 || rest.length < m.contentLength then .ok none
    else .ok (some ({ m.data with body := rest.take m.contentLength }, rest.drop m.contentLength))

/-- So many responses, and nothing behind them. -/
def receiveAll [Boost] : Nat → List UInt8 → Except ClientFault (Option (List HttpResponse))
  | 0, stream => .ok (if stream = [] then some [] else none)
  | k + 1, stream =>
    match receive stream with
    | .error f => .error f
    | .ok none => .ok none
    | .ok (some (rsp, rest)) => (receiveAll k rest).map (Option.map (rsp :: ·))

/-- What the client has of a response. -/
structure Delivers (r got : HttpResponse) : Prop where
  version : got.version = r.version
  status : got.status = r.status
  reason : got.reason = r.effectiveReason
  headers : got.headers.filter (fun h => !added h.1) = r.headers
  body : got.body = r.body

theorem receive_dump [Boost] (r : PlainResponse) (rest : List UInt8) (small : (r.dump ++ rest).length < 2 ^ 31) :
    receive (r.dump ++ rest) = .ok (some ({ r.parsed with body := r.body }, rest)) := by
  have short : r.dump.length < 2 ^ 31 := by
    rw [List.length_append] at small
    omega
  obtain ⟨s, stopped, final, same, behind, total⟩ := r.scan_dump (rest ++ [0]) short
  have whole : scan (step (r.dump ++ rest ++ [0])) (r.dump ++ rest) ⟨0, 1, .new⟩ = .ok (.stop s) := by
    rw [List.append_assoc r.dump]
    exact scan_append_of_stop stopped
  obtain ⟨nread, asserted, checked⟩ := checks_of_stop (n := (r.dump ++ rest).length) ⟨rfl, Nat.le_refl _,
    Nat.le_refl _, Nat.le_refl _, Nat.zero_le _⟩ (Nat.zero_add _) whole
  have terminated : (r.dump ++ rest ++ [0])[(r.dump ++ rest).length]? = some 0 := by simp
  have executed : HttpResponseParser.new.execute (r.dump ++ rest ++ [0]) (r.dump ++ rest).length =
      .ok (s.p, overwrite (r.dump ++ rest ++ [0]) 0 ((r.dump ++ rest).drop s.p), leave s) := by
    unfold execute httpclientParserExecute
    rw [if_neg (not_not.mpr terminated), if_neg (Nat.not_le.mpr small), List.take_left]
    simp only [new, httpclientParserInit] at whole ⊢
    simp only [whole, Move.state, if_pos asserted, if_pos checked, nread]
  have data : (leave s).data = r.parsed := congrArg ParsedResponse.data same
  have content : (leave s).contentLength = r.body.length := by
    rw [contentLength, data]
    exact r.contentLength_parsed (by omega)
  have left : (r.dump ++ rest).drop s.p = r.body ++ rest := by
    rw [List.drop_append_of_le_length (by omega), behind]
  have finished : (leave s).isFinished = 1 := by simp [isFinished, leave, final]
  have sound : (leave s).hasError = false := by simp [hasError, leave, final, same]
  unfold receive
  simp only [executed, content, left, finished, sound, data, List.take_left, List.drop_left]
  rw [if_neg (by simp)]

theorem delivers_parsed (r : PlainResponse) : Delivers r.toHttpResponse { r.parsed with body := r.body } :=
  ⟨rfl, rfl, rfl, r.entries_eq.filter_setAll, rfl⟩

theorem receiveAll_dump [Boost] {responses : List PlainResponse}
    (small : (responses.flatMap fun r => r.dump).length < 2 ^ 31) :
    ∃ got, receiveAll responses.length (responses.flatMap fun r => r.dump) = .ok (some got) ∧
      List.Forall₂ (fun r got => Delivers r.toHttpResponse got) responses got := by
  induction responses with
  | nil => exact ⟨[], rfl, .nil⟩
  | cons r responses ih =>
    rw [List.flatMap_cons] at small ⊢
    have first := receive_dump r _ small
    rw [List.length_append] at small
    obtain ⟨got, later, delivered⟩ := ih (by omega)
    refine ⟨{ r.parsed with body := r.body } :: got, ?_, .cons (delivers_parsed r) delivered⟩
    rw [List.length_cons, receiveAll, first]
    simp only [later, Except.map, Option.map_some]

end Client

/-! ### The whole connection -/

namespace Routing

variable {size : BufferSize} {routing : Routing size} {n : Nat} {c : Connection}

/-- The servlet to which the calls route the request answers it, and leaves the session alone. -/
def Answers (routing : Routing size) (n : Nat) (r : HttpRequest) (rsp : HttpResponse) : Prop :=
  ∃ slt, ServletDispatch.Routed routing.fnmatch (routing.routes n) r.path slt ∧
    ∀ s, slt.handle r.handed (HttpResponse.new r.version true) s = some (rsp, s)

/-- The requests from number `n` on, and their answers. -/
inductive Answered (routing : Routing size) : Nat → List (PlainRequest false) → List Client.PlainResponse → Prop where
  | nil {n : Nat} : Answered routing n [] []
  | cons {n : Nat} {r : PlainRequest false} {rsp : Client.PlainResponse} {requests : List (PlainRequest false)}
      {responses : List Client.PlainResponse} (first : routing.Answers n r.toHttpRequest rsp.toHttpResponse)
      (later : Answered routing (n + 1) requests responses) : Answered routing n (r :: requests) (rsp :: responses)

theorem Answers.handle {r : HttpRequest} {rsp : HttpResponse} (answers : routing.Answers n r rsp) (s : HttpSession) :
    routing.server.handle n r.handed (HttpResponse.new r.version true) s = some (rsp, s) := by
  obtain ⟨slt, routed, handles⟩ := answers
  have matched := (ServletDispatch.routed_matched routing.fnmatch (routing.routes n) r.path).unique routed
  show (ServletDispatch.getMatchedServlet _ r.path _).handle _ _ _ = _
  rw [matched]
  exact handles s

/-- What a server in keep-alive mode does with all that comes. -/
theorem run_all [Boost] (alive : routing.isKeepAlive = true) {requests : List (PlainRequest false)}
    {responses : List Client.PlainResponse} (loops : routing.server.loops c.pc = true)
    (answered : routing.Answered (c.received + 1) requests responses)
    (sendable : ∀ r ∈ requests, Sendable r.toHttpRequest ∧ r.dump.length ≤ size)
    (arrive : c.session = ⟨requests.map fun r => r.dump, true⟩) :
    ∃ calls d, Run routing.server.Step c calls d ∧ d.pc = .closed ∧
      d.handed = c.handed ++ requests.map (fun r => r.handed) ∧
      d.output = c.output ++ responses.flatMap fun r => r.dump := by
  induction requests generalizing c responses with
  | nil =>
    cases answered
    exact ⟨_, _, HttpServer.run_end loops arrive, rfl, by simp, by simp⟩
  | cons r requests ih =>
    cases answered with
    | cons first later =>
      rename_i rsp responses
      obtain ⟨fine, fits⟩ := sendable r List.mem_cons_self
      have turn := HttpServer.run_turn loops fine fits arrive (first.handle _)
      obtain ⟨calls, d, run, closed, handed, output⟩ := ih
        (c := ⟨.sent rsp.toHttpResponse, ⟨requests.map fun r => r.dump, true⟩, c.received + 1,
          c.handed ++ [r.handed], c.output ++ rsp.dump⟩) alive later
        (fun r member => sendable r (List.mem_cons_of_mem _ member)) rfl
      refine ⟨_, d, turn.append run, closed, ?_, ?_⟩
      · rw [handed, List.map_cons, List.append_assoc, List.singleton_append]
      · rw [output, List.flatMap_cons, List.append_assoc]

/-- A server that is not in keep-alive mode serves the first of what comes. -/
def served {α : Type} (routing : Routing size) (l : List α) : List α := if routing.isKeepAlive then l else l.take 1

theorem run_served [Boost] {requests : List (PlainRequest false)} {responses : List Client.PlainResponse}
    (answered : routing.Answered 1 requests responses)
    (sendable : ∀ r ∈ requests, Sendable r.toHttpRequest ∧ r.dump.length ≤ size) :
    ∃ calls d, Run routing.server.Step (HttpServer.start ⟨requests.map fun r => r.dump, true⟩) calls d ∧
      d.pc = .closed ∧ d.handed = (routing.served requests).map (fun r => r.handed) ∧
      d.output = (routing.served responses).flatMap fun r => r.dump := by
  cases mode : routing.isKeepAlive with
  | true =>
    simp only [served, mode, if_true]
    exact run_all (c := HttpServer.start ⟨requests.map fun r => r.dump, true⟩) mode rfl answered sendable rfl
  | false =>
    simp only [served, mode, Bool.false_eq_true, if_false]
    cases answered with
    | nil => exact ⟨_, _, HttpServer.run_end rfl rfl, rfl, rfl, rfl⟩
    | cons first later =>
      rename_i r rsp requests responses
      obtain ⟨fine, fits⟩ := sendable r List.mem_cons_self
      have turn := HttpServer.run_turn (c := HttpServer.start ⟨(r :: requests).map fun r => r.dump, true⟩) rfl
        fine fits rfl (first.handle _)
      refine ⟨_, _, turn.snoc (HttpServer.step_of_leaves ?_), rfl, by simp [HttpServer.start], by simp [HttpServer.start]⟩
      simp [HttpServer.leaves, server, mode]

/-- What a servlet is given of a request: all of it, but for the body. -/
structure Hands (r got : HttpRequest) : Prop where
  method : got.method = r.method
  version : got.version = r.version
  path : got.path = r.path
  query : got.query = r.query
  fragment : got.fragment = r.fragment
  headers : got.headers.filter (fun h => !added h.1) = r.headers
  body : got.body = List.replicate r.body.length 0 ++ r.body

theorem hands_handed (r : PlainRequest false) : Hands r.toHttpRequest r.handed :=
  ⟨rfl, rfl, rfl, rfl, rfl, r.entries_eq.filter_setAll, rfl⟩

/-- Requests that arrive in reads of their own go to the servlets that the calls say, and a client reads
from what comes back the answers of these servlets, one for each request that is served. -/
theorem exchange_delivers [Boost] (routing : Routing size) (requests : List (PlainRequest false))
    (responses : List Client.PlainResponse) (answered : routing.Answered 1 requests responses)
    (sendable : ∀ r ∈ requests, Sendable r.toHttpRequest ∧ r.dump.length ≤ size)
    (small : ((routing.served responses).flatMap fun r => r.dump).length < 2 ^ 31) :
    ∃ d, d.pc = .closed ∧
      (∀ calls c, Run routing.server.Step (HttpServer.start ⟨requests.map fun r => r.dump, true⟩) calls c →
        ∃ more, Run routing.server.Step c more d) ∧
      List.Forall₂ (fun r got => Hands r.toHttpRequest got) (routing.served requests) d.handed ∧
      ∃ got, Client.receiveAll (routing.served responses).length d.output = .ok (some got) ∧
        List.Forall₂ (fun r got => Client.Delivers r.toHttpResponse got) (routing.served responses) got := by
  obtain ⟨calls, d, run, closed, handed, output⟩ := run_served answered sendable
  refine ⟨d, closed, fun calls' c run' => ?_, ?_, ?_⟩
  · exact run.continues (fun _ _ _ _ _ => HttpServer.step_unique)
      (fun _ _ => HttpServer.not_step_of_closed closed) run'
  · rw [handed, List.forall₂_map_right_iff, List.forall₂_same]
    exact fun r _ => hands_handed r
  · rw [output]
    exact Client.receiveAll_dump small

theorem headers_notFoundServlet (version : UInt8) (close : Bool) :
    (notFoundServlet (HttpResponse.new version close)).headers =
      [(ascii "Content-Type", ascii "text/html"), (ascii "Server", ascii "cool/1.0.0")] := by
  rfl

/-- The answer of `NotFoundServlet`. -/
def notFoundResponse (version : UInt8) (versioned : version = 0x10 ∨ version = 0x11) : Client.PlainResponse where
  toHttpResponse := notFoundServlet (HttpResponse.new version true)
  versioned := versioned
  listed := (by decide : HttpStatus.notFound ∈ httpStatusMap.map Prod.fst)
  reasoned := by rintro c ⟨⟩
  ordered := by
    rw [headers_notFoundServlet]
    exact List.pairwise_pair.mpr ((strcasecmpLt_iff _ _).mp (by decide))
  others := by
    rw [headers_notFoundServlet]
    decide
  readable := by
    rw [headers_notFoundServlet]
    intro h member
    simp only [List.mem_cons, List.not_mem_nil, or_false] at member
    rcases member with rfl | rfl <;> constructor <;> decide +kernel

/-- What no call routes is answered by `NotFoundServlet`. -/
theorem answers_notFound (r : PlainRequest false) (unrouted : routing.routes n = []) :
    routing.Answers n r.toHttpRequest (notFoundResponse r.version r.versioned).toHttpResponse := by
  refine ⟨.notFound, ?_, fun s => rfl⟩
  rw [unrouted]
  exact .default (fun t slt => Foundation.History.not_stands_nil)
    fun t pattern slt stands => absurd stands Foundation.History.not_stands_nil

/-- A request for a path, and one with a body. -/
def getPath : PlainRequest false where
  toHttpRequest := { HttpRequest.new with path := ascii "/a" }
  versioned := .inr rfl
  absolute := by decide
  queried := rfl
  fragmented := rfl
  ordered := ordered_nil
  others := by rintro h ⟨⟩
  readable := by rintro h ⟨⟩

def postBody : PlainRequest false where
  toHttpRequest := { HttpRequest.new with method := .post, body := ascii "abc" }
  versioned := .inr rfl
  absolute := rfl
  queried := rfl
  fragmented := rfl
  ordered := ordered_nil
  others := by rintro h ⟨⟩
  readable := by rintro h ⟨⟩

/-- A server without routes. -/
def unrouted (size : BufferSize) : Routing size where
  isKeepAlive := true
  memory _ := Memory.zeroed _
  fnmatch _ _ := false
  routes _ := []

/-- Two requests, and two pages that say so. -/
theorem exchange_delivers_unrouted :
    ∃ d : Connection, d.pc = .closed ∧
      List.Forall₂ (fun r got => Hands r.toHttpRequest got) [getPath, postBody] d.handed ∧
      ∃ got, Client.receiveAll 2 d.output = .ok (some got) ∧
        List.Forall₂ (fun r got => Client.Delivers r.toHttpResponse got)
          [notFoundResponse 0x11 (.inr rfl), notFoundResponse 0x11 (.inr rfl)] got := by
  have answered : (unrouted 128).Answered 1 [getPath, postBody]
      [notFoundResponse 0x11 (.inr rfl), notFoundResponse 0x11 (.inr rfl)] :=
    .cons (answers_notFound getPath rfl) (.cons (answers_notFound postBody rfl) .nil)
  have sendable : ∀ r ∈ [getPath, postBody], Sendable r.toHttpRequest ∧ r.dump.length ≤ 128 := by
    intro r member
    simp only [List.mem_cons, List.not_mem_nil, or_false] at member
    rcases member with rfl | rfl <;> exact ⟨⟨by decide, by decide, by rintro h ⟨⟩⟩, by decide +kernel⟩
  obtain ⟨d, closed, -, delivered⟩ := exchange_delivers (unrouted 128) _ _ answered sendable (by decide +kernel)
  exact ⟨d, closed, delivered⟩

end Routing

end Cool.Http
