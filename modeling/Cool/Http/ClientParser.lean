import Cool.Foundation.Blocks
import Cool.Foundation.Scan
import Cool.Http.ClientTable
import Cool.Http.Dump

/-!
# `HttpResponseParser`

`httpclient_parser_execute` over one buffer, and the callbacks of `HttpResponseParser` that read the
buffer through its registers. The registers `content_len`, `status`, `chunked`, `chunks_done` and
`close` are written and never read.
-/

namespace Cool.Http

open Foundation

inductive ClientFault where
  /-- `std::string(at, length)` with a length that wrapped below zero. -/
  | lengthError
  /-- A read behind the buffer, through a register of an earlier call. -/
  | outside
  /-- An assertion of `httpclient_parser_execute`. -/
  | assertion
  /-- `memmove` from `data - 1`, after a result of -1. -/
  | memmove
  deriving DecidableEq, Repr

structure HttpclientParser where
  cs : Nat
  bodyStart : Nat
  nread : Nat
  mark : Nat
  fieldStart : Nat
  fieldLen : Nat
  deriving DecidableEq, Repr

def httpclientParserInit : HttpclientParser where
  cs := 1
  bodyStart := 0
  nread := 0
  mark := 0
  fieldStart := 0
  fieldLen := 0

/-- `m_error` and `m_data`, which the callbacks write. -/
structure ParsedResponse where
  error : Nat
  data : HttpResponse
  deriving DecidableEq, Repr

structure HttpResponseParser extends ParsedResponse where
  parser : HttpclientParser
  deriving DecidableEq, Repr

def HttpResponse.setHeader (r : HttpResponse) (key val : List UInt8) : HttpResponse :=
  { r with headers := r.headers.set key val }

/-- `getHeaderAs<uint64_t>(key, def)`. -/
def HttpResponse.getHeaderAs [Boost] (r : HttpResponse) (key : List UInt8) (def' : Nat) : Nat :=
  match r.headers.find key with
  | none => def'
  | some text => (Boost.lexicalCast text).getD def'

/-- `(uint32_t)atoi(at)` at a digit: the number is a `long`, and the result its lower half. -/
def atoi (text : List UInt8) : Nat :=
  min (((text.takeWhile fun c => 48 ≤ c && c ≤ 57).map fun c => c.toNat - 48).foldl (fun acc d => acc * 10 + d) 0)
    (2 ^ 63 - 1) % 2 ^ 32

/-! ### Callbacks -/

namespace ParsedResponse

def onResponseReason (d : ParsedResponse) (text : List UInt8) : ParsedResponse :=
  { d with data := { d.data with reason := text } }

def onResponseStatus (d : ParsedResponse) (text : List UInt8) : ParsedResponse :=
  { d with data := { d.data with status := .ofCode (atoi text) } }

def onResponseVersion (d : ParsedResponse) (text : List UInt8) (length : Nat) : ParsedResponse :=
  onVersion text length (fun version => { d with data := { d.data with version := version } }) { d with error := 1001 }

/-- `field` and `value` are the strings that are only built when the name is not empty. -/
def onResponseHttpField (d : ParsedResponse) (flen : Nat) (field value : Except ClientFault (List UInt8)) :
    Except ClientFault ParsedResponse :=
  if flen = 0 then .ok { d with error := 1002 }
  else
    match field, value with
    | .error f, _ => .error f
    | .ok _, .error f => .error f
    | .ok key, .ok val => .ok { d with data := d.data.setHeader key val }

end ParsedResponse

namespace HttpResponseParser

def new : HttpResponseParser where
  error := 0
  data := HttpResponse.new 0x11 true
  parser := httpclientParserInit

/-- `LEN(start, p)`, a `size_t`: the registers of earlier calls are kept and may be larger than `p`. -/
def distance (start p : Nat) : Nat := if start ≤ p then p - start else 2 ^ 64 - (start - p)

/-- `buffer + start`, to be read up to a NUL. -/
def pointer (buffer : List UInt8) (start : Nat) : Except ClientFault (List UInt8) :=
  if start < buffer.length then .ok (buffer.drop start) else .error .outside

/-- `std::string(buffer + start, length)`. -/
def text (buffer : List UInt8) (start length : Nat) : Except ClientFault (List UInt8) :=
  if 2 ^ 63 ≤ length then .error .lengthError
  else if buffer.length < start + length then .error .outside
  else .ok ((buffer.drop start).take length)

/-- What an action does to the registers that are kept. -/
def registers (p : Nat) (a : Client.Action) (r : HttpclientParser) : HttpclientParser :=
  match a with
  | .mark => { r with mark := p }
  | .startField => { r with fieldStart := p }
  | .writeField => { r with fieldLen := distance r.fieldStart p }
  | .done => { r with bodyStart := p + 1 }
  | _ => r

/-- What an action calls back; the callbacks for chunks and for the end of the header do nothing. -/
def callback (buffer : List UInt8) (p : Nat) (a : Client.Action) (r : HttpclientParser) (d : ParsedResponse) :
    Except ClientFault ParsedResponse :=
  match a with
  | .writeValue =>
    d.onResponseHttpField r.fieldLen (text buffer r.fieldStart r.fieldLen) (text buffer r.mark (distance r.mark p))
  | .reasonPhrase => (text buffer r.mark (distance r.mark p)).map d.onResponseReason
  | .statusCode => (pointer buffer r.mark).map d.onResponseStatus
  | .httpVersion => (pointer buffer r.mark).map fun at_ => d.onResponseVersion at_ (distance r.mark p)
  | _ => .ok d

def perform (buffer : List UInt8) (p : Nat) :
    List Client.Action → HttpResponseParser → Except ClientFault HttpResponseParser
  | [], m => .ok m
  | a :: as, m =>
    match callback buffer p a m.parser m.toParsedResponse with
    | .error f => .error f
    | .ok d => perform buffer p as ⟨d, registers p a m.parser⟩

/-- The locals of `httpclient_parser_execute`. -/
structure Locals where
  p : Nat
  cs : Nat
  owner : HttpResponseParser
  deriving DecidableEq, Repr

def step (buffer : List UInt8) (c : UInt8) (s : Locals) : Except ClientFault (Move Locals) :=
  follow (Client.move s.cs c) (fun e => perform buffer s.p e.2 s.owner)
    -- `fbreak` in the action `done`
    (fun e => .done ∈ e.2)
    -- The generated `switch` has no case for the error state: it ends at `_test_eof2`, in state 2.
    { s with cs := if s.cs = 0 then 2 else 0 } fun e owner => ⟨s.p + 1, e.1, owner⟩

def leave (s : Locals) : HttpResponseParser :=
  { s.owner with parser := { s.owner.parser with cs := s.cs, nread := s.owner.parser.nread + s.p } }

def assertions (r : HttpclientParser) (len : Nat) : Bool := r.nread ≤ len && r.bodyStart ≤ len

/-- The three conditions whose failure makes the result -1. -/
def checks (r : HttpclientParser) (len : Nat) : Bool :=
  r.mark < len && r.fieldLen ≤ len && r.fieldStart < len

/-- `httpclient_parser_execute(parser, buffer, len, 0)`; `none` is -1. -/
def httpclientParserExecute (m : HttpResponseParser) (buffer : List UInt8) (len : Nat) :
    Except ClientFault (Option Nat × HttpResponseParser) :=
  -- `assert(*pe == 0)`
  if buffer[len]? ≠ some 0 then .error .assertion
  -- `assert(pe - p == (int)len - (int)off)`
  else if 2 ^ 31 ≤ len then .error .assertion
  else
    match scan (step buffer) (buffer.take len) ⟨0, m.parser.cs, m⟩ with
    | .error f => .error f
    | .ok move =>
      let m' := leave move.state
      if assertions m'.parser len then .ok (if checks m'.parser len then some m'.parser.nread else none, m')
      else .error .assertion

/-- `execute(data, len)`: the number of bytes consumed and the buffer after the `memmove`. -/
def execute (m : HttpResponseParser) (data : List UInt8) (len : Nat) :
    Except ClientFault (Nat × List UInt8 × HttpResponseParser) :=
  match m.httpclientParserExecute data len with
  | .error f => .error f
  | .ok (none, _) => .error .memmove
  | .ok (some offset, m') => .ok (offset, overwrite data 0 ((data.take len).drop offset), m')

def isFinished (m : HttpResponseParser) : Int :=
  if m.parser.cs = 0 then -1 else if m.parser.cs = 120 then 1 else 0

def hasError (m : HttpResponseParser) : Bool := m.error != 0 || m.parser.cs == 0

def contentLength [Boost] (m : HttpResponseParser) : Nat := m.data.getHeaderAs (ascii "content-length") 0

end HttpResponseParser

end Cool.Http
