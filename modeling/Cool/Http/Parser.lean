import Cool.Foundation.Blocks
import Cool.Foundation.Scan
import Cool.Http.Message
import Cool.Http.Table

/-!
# `HttpRequestParser`

`http_parser_execute` runs the machine over one buffer; its registers are positions in that buffer,
and the callbacks of `HttpRequestParser` read the buffer through them.
-/

namespace Cool.Http

open Foundation

inductive Fault where
  /-- `std::string(at, length)` with a length that wrapped below zero. -/
  | lengthError
  /-- An assertion of `http_parser_execute`. -/
  | assertion
  deriving DecidableEq, Repr

/-- What `HttpRequestParser` and `http_parser_init` leave uninitialised. -/
structure Uninit where
  queryStart : Nat
  uriRelaxed : Bool

structure HttpParser where
  cs : Nat
  bodyStart : Nat
  contentLen : Nat
  nread : Nat
  mark : Nat
  fieldStart : Nat
  fieldLen : Nat
  queryStart : Nat
  xmlSent : Bool
  jsonSent : Bool
  uriRelaxed : Bool
  deriving DecidableEq, Repr

def httpParserInit (junk : Uninit) : HttpParser where
  cs := 1
  bodyStart := 0
  contentLen := 0
  nread := 0
  mark := 0
  fieldStart := 0
  fieldLen := 0
  queryStart := junk.queryStart
  xmlSent := false
  jsonSent := false
  uriRelaxed := junk.uriRelaxed

/-- `m_error` and `m_data`, which the callbacks write. -/
structure Parsed where
  error : Nat
  data : HttpRequest
  deriving DecidableEq, Repr

structure HttpRequestParser extends Parsed where
  parser : HttpParser
  deriving DecidableEq, Repr

/-! ### Callbacks -/

namespace Parsed

def onRequestMethod (d : Parsed) (text : List UInt8) : Parsed :=
  match charsToHttpMethd text with
  | .invalidMethod => { d with error := 1000 }
  | m => { d with data := { d.data with method := m } }

def onRequestFragment (d : Parsed) (text : List UInt8) : Parsed :=
  { d with data := { d.data with fragment := text } }

def onRequestPath (d : Parsed) (text : List UInt8) : Parsed :=
  { d with data := { d.data with path := text } }

def onRequestQuery (d : Parsed) (text : List UInt8) : Parsed :=
  { d with data := { d.data with query := text } }

def onRequestVersion (d : Parsed) (text : List UInt8) (length : Nat) : Parsed :=
  onVersion text length (fun version => { d with data := { d.data with version := version } }) { d with error := 1001 }

def onRequestHttpField (d : Parsed) (field : List UInt8) (flen : Nat) (value : List UInt8) : Parsed :=
  if flen = 0 then d else { d with data := d.data.setHeader (field.take flen) value }

end Parsed

namespace HttpRequestParser

def new (junk : Uninit) : HttpRequestParser where
  error := 0
  data := HttpRequest.new
  parser := httpParserInit junk

/-- `std::string(PTR_TO(start), LEN(start, p))`. -/
def slice (buffer : List UInt8) (start p : Nat) : Except Fault (List UInt8) :=
  if start ≤ p then .ok ((buffer.take p).drop start) else .error .lengthError

/-- What an action does to the registers. -/
def registers (p : Nat) (a : Action) (r : HttpParser) : HttpParser :=
  match a with
  | .mark => { r with mark := p }
  | .startField => { r with fieldStart := p }
  | .writeField => { r with fieldLen := p - r.fieldStart }
  | .startQuery => { r with queryStart := p }
  | .done =>
    if r.xmlSent || r.jsonSent then { r with bodyStart := r.mark, contentLen := p - r.mark + 1 }
    else { r with bodyStart := p + 1 }
  | .xml => { r with xmlSent := true }
  | .json => { r with jsonSent := true }
  | _ => r

/-- What an action calls back; `on_request_uri` and `on_request_header_done` do nothing. -/
def callback (buffer : List UInt8) (p : Nat) (a : Action) (r : HttpParser) (d : Parsed) :
    Except Fault Parsed :=
  match a with
  | .writeValue =>
    (slice buffer r.mark p).map (d.onRequestHttpField (buffer.drop r.fieldStart) r.fieldLen)
  | .requestMethod => .ok (d.onRequestMethod (buffer.drop r.mark))
  | .fragment => (slice buffer r.mark p).map d.onRequestFragment
  | .queryString => (slice buffer r.queryStart p).map d.onRequestQuery
  | .httpVersion => .ok (d.onRequestVersion (buffer.drop r.mark) (p - r.mark))
  | .requestPath => (slice buffer r.mark p).map d.onRequestPath
  | _ => .ok d

def perform (buffer : List UInt8) (p : Nat) :
    List Action → HttpRequestParser → Except Fault HttpRequestParser
  | [], m => .ok m
  | a :: as, m =>
    match callback buffer p a m.parser m.toParsed with
    | .error f => .error f
    | .ok d => perform buffer p as ⟨d, registers p a m.parser⟩

/-- The locals of `http_parser_execute`. -/
structure Locals where
  p : Nat
  cs : Nat
  owner : HttpRequestParser
  deriving DecidableEq, Repr

def step (buffer : List UInt8) (c : UInt8) (s : Locals) : Except Fault (Move Locals) :=
  follow (edge s.owner.parser.uriRelaxed s.cs c) (fun e => perform buffer s.p e.actions s.owner)
    -- `fbreak` in the action `done`
    (fun e => .done ∈ e.actions) { s with cs := 0 } fun e owner => ⟨s.p + 1, e.target, owner⟩

/-- The registers that every call of `http_parser_execute` resets; `query_start` is not among them. -/
def reset (m : HttpRequestParser) : HttpRequestParser :=
  { m with parser := { m.parser with nread := 0, mark := 0, fieldLen := 0, fieldStart := 0 } }

def assertions (r : HttpParser) (len : Nat) : Bool :=
  r.nread ≤ len && r.bodyStart ≤ len && r.mark < len && r.fieldLen ≤ len && r.fieldStart < len

/-- The end of `http_parser_execute`: the state is kept unless the parser had failed before. -/
def leave (m : HttpRequestParser) (s : Locals) : HttpRequestParser :=
  { s.owner with
    parser := { s.owner.parser with cs := if m.parser.cs = 0 then 0 else s.cs, nread := s.p } }

def httpParserExecute (m : HttpRequestParser) (buffer : List UInt8) (len : Nat) :
    Except Fault (Nat × HttpRequestParser) :=
  if len = 0 then .ok (0, m)
  -- `assert(pe - p == (int)len - (int)off)`
  else if 2 ^ 31 ≤ len then .error .assertion
  else
    match scan (step buffer) (buffer.take len) ⟨0, m.parser.cs, m.reset⟩ with
    | .error f => .error f
    | .ok move =>
      let m' := m.leave move.state
      if assertions m'.parser len then .ok (m'.parser.nread, m') else .error .assertion

/-- `execute(data, len)`: the number of bytes consumed and the buffer after the `memmove`. -/
def execute (m : HttpRequestParser) (data : List UInt8) (len : Nat) :
    Except Fault (Nat × List UInt8 × HttpRequestParser) :=
  match m.httpParserExecute data len with
  | .error f => .error f
  | .ok (offset, m') => .ok (offset, overwrite data 0 ((data.take len).drop offset), m')

def isFinished (m : HttpRequestParser) : Int :=
  if m.parser.cs = 0 then -1 else if 348 ≤ m.parser.cs then 1 else 0

def hasError (m : HttpRequestParser) : Bool := m.error != 0 || m.parser.cs == 0

def contentLength [Boost] (m : HttpRequestParser) : Nat := m.data.getHeaderAs (ascii "content-length") 0

end HttpRequestParser

end Cool.Http
