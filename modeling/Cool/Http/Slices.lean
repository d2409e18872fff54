import Cool.Foundation.Run
import Cool.Http.Session
import Cool.Http.Tokens

/-!
# What the callbacks are handed

A callback gets a pointer into the buffer and a length that is the difference of two positions.
Every call resets `mark`, `field_start` and `field_len`, so what they span lies in the buffer of the
call. `query_start` keeps its value from an earlier read, and the difference wraps when the query
ends at a smaller offset than that.
-/

namespace Cool.Http

open Foundation

/-- A stretch of the buffer: where it starts, and its length as a `size_t`. -/
structure Slice where
  start : Nat
  length : Nat
  deriving DecidableEq, Repr

def Slice.Inside (len : Nat) (x : Slice) : Prop := x.start + x.length ≤ len

instance (len : Nat) (x : Slice) : Decidable (x.Inside len) := Nat.decLe _ _

namespace HttpRequestParser

/-- `LEN(AT, FPC)`: the subtraction is one of `size_t`. -/
def lenFrom (start p : Nat) : Nat := (p + (2 ^ 64 - start % 2 ^ 64)) % 2 ^ 64

/-- The stretches that an action hands to its callback. Those of `on_request_uri` and
`on_request_header_done`, which read nothing, are left out. -/
def slices (p : Nat) (a : Action) (r : HttpParser) : List Slice :=
  match a with
  | .writeValue => [⟨r.fieldStart, r.fieldLen⟩, ⟨r.mark, lenFrom r.mark p⟩]
  | .requestMethod => [⟨r.mark, lenFrom r.mark p⟩]
  | .fragment => [⟨r.mark, lenFrom r.mark p⟩]
  | .httpVersion => [⟨r.mark, lenFrom r.mark p⟩]
  | .requestPath => [⟨r.mark, lenFrom r.mark p⟩]
  | .queryString => [⟨r.queryStart, lenFrom r.queryStart p⟩]
  | _ => []

def handedBy (buffer : List UInt8) (p : Nat) : List Action → HttpRequestParser → List Slice
  | [], _ => []
  | a :: as, m =>
    slices p a m.parser ++
      match callback buffer p a m.parser m.toParsed with
      | .error _ => []
      | .ok d => handedBy buffer p as ⟨d, registers p a m.parser⟩

def handedAt (buffer : List UInt8) (c : UInt8) (s : Locals) : List Slice :=
  match edge s.owner.parser.uriRelaxed s.cs c with
  | none => []
  | some e => handedBy buffer s.p e.actions s.owner

def handedIn (buffer : List UInt8) : List UInt8 → Locals → List Slice
  | [], _ => []
  | c :: rest, s =>
    handedAt buffer c s ++
      match step buffer c s with
      | .ok (.next s') => handedIn buffer rest s'
      | _ => []

/-- Everything that `http_parser_execute` hands to the callbacks in one call. -/
def handed (m : HttpRequestParser) (buffer : List UInt8) (len : Nat) : List Slice :=
  handedIn buffer (buffer.take len) ⟨0, m.parser.cs, m.reset⟩

end HttpRequestParser

/-! ### The machine alone -/

/-- The state of the machine, the offset in the current read, and the offset, in its own read, at
which the last query started. -/
structure Walk where
  cs : Nat
  p : Nat
  queryStart : Option Nat
  deriving DecidableEq, Repr

namespace Walk

def start : Walk := ⟨1, 0, none⟩

/-- A query ends at a smaller offset than it started at. -/
def Wraps (p : Nat) (a : Action) (q : Option Nat) : Prop := a = .queryString ∧ q.all (· ≤ p) = false

instance (p : Nat) (a : Action) (q : Option Nat) : Decidable (Wraps p a q) :=
  inferInstanceAs (Decidable (_ ∧ _))

def follow (p : Nat) : List Action → Option Nat → Except Unit (Option Nat)
  | [], q => .ok q
  | a :: as, q =>
    if Wraps p a q then .error ()
    else follow p as (if a = .startQuery then some p else q)

def step (uriRelaxed : Bool) (c : UInt8) (w : Walk) : Except Unit (Move Walk) :=
  match edge uriRelaxed w.cs c with
  | none => .ok (.stop { w with cs := 0 })
  | some e =>
    match follow w.p e.actions w.queryStart with
    | .error g => .error g
    | .ok q =>
      if .done ∈ e.actions then .ok (.stop ⟨e.target, w.p + 1, q⟩)
      else .ok (.next ⟨e.target, w.p + 1, q⟩)

def read (uriRelaxed : Bool) (w : Walk) (bytes : List UInt8) :
    Except Unit (Move Walk) :=
  scan (step uriRelaxed) bytes { w with p := 0 }

end Walk

/-! ### What the table guarantees

A header name that was started is written before its value is, and a query string is started before it
ends. -/

/-- `named`: the last field name is complete. `queried`: a query has been started. -/
structure Flags where
  named : Bool
  queried : Bool
  deriving DecidableEq, Repr

namespace Flags

def of (cs : Nat) : Flags := ⟨!([14, 18, 348].contains cs), [30, 31, 32].contains cs⟩

def permits (fl : Flags) : Action → Bool
  | .writeValue => fl.named
  | .queryString => fl.queried
  | _ => true

def after (fl : Flags) : Action → Flags
  | .startField => { fl with named := false }
  | .writeField => { fl with named := true }
  | .startQuery => { fl with queried := true }
  | _ => fl

def follow : List Action → Flags → Option Flags
  | [], fl => some fl
  | a :: as, fl => if fl.permits a then follow as (fl.after a) else none

/-- `fl` has every flag of `fl'`. -/
def covers (fl fl' : Flags) : Bool := (!fl'.named || fl.named) && (!fl'.queried || fl.queried)

/-- The edge performs what it may, and leads to a state that claims no more than is true. -/
def respects (cs : Nat) (e : Edge) : Bool := (follow e.actions (of cs)).any (·.covers (of e.target))

theorem rows_respect : ∀ row ∈ rows, ∀ e ∈ row.2, respects row.1 e = true := by decide +kernel

theorem edge_respects {uriRelaxed : Bool} {cs : Nat} {c : UInt8} {e : Edge}
    (taken : edge uriRelaxed cs c = some e) :
    ∃ fl, follow e.actions (of cs) = some fl ∧ ((of e.target).named = true → fl.named = true) ∧
      ((of e.target).queried = true → fl.queried = true) := by
  have respected := edge_holds (P := fun cs e => respects cs e = true) rows_respect taken
  obtain ⟨fl, followed, covered⟩ := (Option.any_eq_true _ _).mp respected
  rw [covers, Bool.and_eq_true_iff] at covered
  refine ⟨fl, followed, fun named => ?_, fun queried => ?_⟩
  · simpa [named] using covered.1
  · simpa [queried] using covered.2

end Flags

/-! ### Registers at a position -/

namespace HttpRequestParser

variable {uriRelaxed : Bool} {buffer rest : List UInt8} {len p : Nat} {fl fl' : Flags} {r : HttpParser}
  {q : Option Nat} {a : Action} {as : List Action} {m : HttpRequestParser} {s : Locals} {w : Walk}

/-- The registers of a call that is at `p`, with what the flags say of them. -/
structure Marked (fl : Flags) (p : Nat) (r : HttpParser) (q : Option Nat) : Prop where
  mark : r.mark ≤ p
  fieldStart : r.fieldStart ≤ p
  named : fl.named = true → r.fieldStart + r.fieldLen ≤ p
  queried : fl.queried = true → ∃ start, q = some start
  query : ∀ start, q = some start → r.queryStart = start ∧ start < 2 ^ 64

theorem Marked.registers (marked : Marked fl p r q) (small : p < 2 ^ 64) (a : Action) :
    Marked (fl.after a) p (registers p a r) (if a = .startQuery then some p else q) := by
  have fieldStart := marked.fieldStart
  cases a with
  | mark => exact { marked with mark := Nat.le_refl p }
  | startField => exact { marked with fieldStart := Nat.le_refl p, named := by simp [Flags.after] }
  | writeField =>
    refine { marked with named := fun _ => ?_ }
    show r.fieldStart + (p - r.fieldStart) ≤ p
    omega
  | startQuery =>
    refine { marked with queried := fun _ => ⟨p, rfl⟩, query := fun start same => ?_ }
    obtain rfl := Option.some.inj same
    exact ⟨rfl, small⟩
  | done =>
    unfold HttpRequestParser.registers
    dsimp only
    split
    · exact { marked with }
    · exact { marked with }
  | _ => exact { marked with }

theorem Marked.mono (marked : Marked fl p r q) (named : fl'.named = true → fl.named = true)
    (queried : fl'.queried = true → fl.queried = true) : Marked fl' (p + 1) r q where
  mark := Nat.le_succ_of_le marked.mark
  fieldStart := Nat.le_succ_of_le marked.fieldStart
  named holds := Nat.le_succ_of_le (marked.named (named holds))
  queried holds := marked.queried (queried holds)
  query := marked.query

theorem lenFrom_of_le {start : Nat} (behind : start ≤ p) (small : p < 2 ^ 64) : lenFrom start p = p - start := by
  unfold lenFrom
  omega

/-- A start that is not behind `p` gives a length that reaches past every buffer. -/
theorem lenFrom_of_lt {start : Nat} (ahead : p < start) (small : start < 2 ^ 64) :
    start + lenFrom start p = p + 2 ^ 64 := by
  unfold lenFrom
  omega

theorem Marked.wraps (marked : Marked fl p r q) (buffer : List UInt8) (small : len < 2 ^ 64)
    (wraps : Walk.Wraps p a q) :
    (∃ x ∈ slices p a r, ¬ x.Inside len) ∧ ∀ d, callback buffer p a r d = .error .lengthError := by
  obtain ⟨rfl, passed⟩ := wraps
  cases q with
  | none => cases passed
  | some start =>
    obtain ⟨same, start_small⟩ := marked.query start rfl
    have ahead : p < start := by simpa using passed
    have reach := lenFrom_of_lt ahead start_small
    refine ⟨⟨_, List.mem_singleton_self _, ?_⟩, fun d => ?_⟩
    · rw [Slice.Inside, same]
      dsimp only
      omega
    · rw [callback, slice, if_neg (by omega)]
      rfl

theorem Marked.unwrapped (marked : Marked fl p r q) (buffer : List UInt8)
    (permits : fl.permits a = true) (bound : p < len) (small : len < 2 ^ 64) (unwrapped : ¬ Walk.Wraps p a q) :
    (∀ x ∈ slices p a r, x.Inside len) ∧ ∀ d, ∃ d', callback buffer p a r d = .ok d' := by
  have behind := marked.mark
  have span := lenFrom_of_le behind (by omega)
  have inside : Slice.Inside len ⟨r.mark, lenFrom r.mark p⟩ := by
    rw [Slice.Inside, span]
    dsimp only
    omega
  have only (x : Slice) (among : x ∈ [⟨r.mark, lenFrom r.mark p⟩]) : x.Inside len := by
    rw [List.mem_singleton.mp among]
    exact inside
  have sliced : slice buffer r.mark p = .ok ((buffer.take p).drop r.mark) := if_pos behind
  cases a with
  | writeValue =>
    have named := marked.named permits
    refine ⟨fun x among => ?_, fun d => ⟨_, by rw [callback, sliced]; rfl⟩⟩
    rcases List.mem_cons.mp among with rfl | last
    · exact Nat.le_of_lt (Nat.lt_of_le_of_lt named bound)
    · exact only x last
  | queryString =>
    obtain ⟨start, rfl⟩ := marked.queried permits
    obtain ⟨same, _⟩ := marked.query start rfl
    have started : start ≤ p := by
      by_contra ahead
      exact unwrapped ⟨rfl, by simpa using ahead⟩
    refine ⟨fun x among => ?_, fun d => ⟨_, by rw [callback, slice, if_pos (by omega)]; rfl⟩⟩
    rw [List.mem_singleton.mp among, Slice.Inside, same, lenFrom_of_le started (by omega)]
    dsimp only
    omega
  | requestMethod | httpVersion => exact ⟨only, fun d => ⟨_, rfl⟩⟩
  | fragment | requestPath => exact ⟨only, fun d => ⟨_, by rw [callback, sliced]; rfl⟩⟩
  | _ => exact ⟨fun x among => absurd among List.not_mem_nil, fun d => ⟨d, rfl⟩⟩

/-- The actions of one edge: they go through, and hand over only what lies in the buffer, exactly when
no query wraps. -/
theorem perform_marked (buffer : List UInt8) (flow : Flags.follow as fl = some fl') (marked : Marked fl p m.parser q)
    (bound : p < len) (small : len < 2 ^ 64) :
    (∃ q' m', Walk.follow p as q = .ok q' ∧ perform buffer p as m = .ok m' ∧ Marked fl' p m'.parser q' ∧
      ∀ x ∈ handedBy buffer p as m, x.Inside len) ∨
    (Walk.follow p as q = .error () ∧ perform buffer p as m = .error .lengthError ∧
      ∃ x ∈ handedBy buffer p as m, ¬ x.Inside len) := by
  induction as generalizing m fl q with
  | nil =>
    obtain rfl := Option.some.inj flow
    exact .inl ⟨q, m, rfl, rfl, marked, fun x among => absurd among List.not_mem_nil⟩
  | cons a as ih =>
    rw [Flags.follow] at flow
    split at flow
    · rename_i permits
      rw [Walk.follow, perform, handedBy]
      by_cases wraps : Walk.Wraps p a q
      · obtain ⟨⟨x, among, outside⟩, failed⟩ := marked.wraps buffer small wraps
        rw [if_pos wraps, failed]
        exact .inr ⟨rfl, rfl, x, List.mem_append_left _ among, outside⟩
      · obtain ⟨inside, returns⟩ := marked.unwrapped buffer permits bound small wraps
        obtain ⟨d, returned⟩ := returns m.toParsed
        rw [if_neg wraps, returned]
        rcases ih (m := ⟨d, HttpRequestParser.registers p a m.parser⟩) flow
          (marked.registers (by omega) a) with ⟨q', m', walked, performed, marked', rest⟩ |
            ⟨walked, performed, x, among, outside⟩
        · refine .inl ⟨q', m', walked, performed, marked', fun x among => ?_⟩
          rcases List.mem_append.mp among with here | later
          · exact inside x here
          · exact rest x later
        · exact .inr ⟨walked, performed, x, List.mem_append_right _ among, outside⟩
    · cases flow

/-- A call and the machine alone, in the same place of the same read. -/
structure Abreast (uriRelaxed : Bool) (len : Nat) (rest : List UInt8) (s : Locals) (w : Walk) : Prop where
  cs : s.cs = w.cs
  position : s.p = w.p
  ahead : s.p + rest.length = len
  relaxed : s.owner.parser.uriRelaxed = uriRelaxed
  marked : Marked (.of w.cs) s.p s.owner.parser w.queryStart

theorem step_handed {c : UInt8} (buffer : List UInt8) (small : len < 2 ^ 64)
    (abreast : Abreast uriRelaxed len (c :: rest) s w) :
    (∃ move move', Walk.step uriRelaxed c w = .ok move ∧ step buffer c s = .ok move' ∧
      move'.Rel (Abreast uriRelaxed len rest) (fun s w => s.cs = w.cs) move ∧
      ∀ x ∈ handedAt buffer c s, x.Inside len) ∨
    (Walk.step uriRelaxed c w = .error () ∧ step buffer c s = .error .lengthError ∧
      ∃ x ∈ handedAt buffer c s, ¬ x.Inside len) := by
  obtain ⟨cs, position, ahead, relaxed, marked⟩ := abreast
  rw [List.length_cons] at ahead
  rw [Walk.step, handedAt, relaxed, cs]
  cases taken : edge uriRelaxed w.cs c with
  | none =>
    have dead : edge s.owner.parser.uriRelaxed s.cs c = none := by rw [relaxed, cs, taken]
    exact .inl ⟨_, _, rfl, follow_iff.mpr (.rejected dead), .stop rfl, fun x among => absurd among List.not_mem_nil⟩
  | some e =>
    have taken' : edge s.owner.parser.uriRelaxed s.cs c = some e := by rw [relaxed, cs, taken]
    obtain ⟨fl, flow, named, queried⟩ := Flags.edge_respects taken
    rcases perform_marked buffer flow marked (by omega : s.p < len) small with
      ⟨q', m', walked, performed, marked', inside⟩ | ⟨walked, performed, outside⟩
    · rw [position] at walked
      dsimp only
      rw [walked]
      by_cases done : .done ∈ e.actions
      · exact .inl ⟨_, _, if_pos done, follow_iff.mpr (.finished taken' performed done), .stop rfl, inside⟩
      · have kept : m'.parser.uriRelaxed = uriRelaxed :=
          perform_invariant (P := fun r => r.uriRelaxed = uriRelaxed)
            (fun a _ r held => (registers_uriRelaxed _ a r).trans held) performed relaxed
        refine .inl ⟨_, _, if_neg done, follow_iff.mpr (.advanced taken' performed done), .next ?_, inside⟩
        exact ⟨rfl, congrArg Nat.succ position, by dsimp only; omega, kept, marked'.mono named queried⟩
    · rw [position] at walked
      refine .inr ⟨by simp only [walked], ?_, outside⟩
      exact follow_error.mpr ⟨e, taken', performed⟩

theorem scan_handed (buffer : List UInt8) (small : len < 2 ^ 64)
    (abreast : Abreast uriRelaxed len rest s w) :
    (∃ move move', scan (Walk.step uriRelaxed) rest w = .ok move ∧ scan (step buffer) rest s = .ok move' ∧
      move'.Rel (Abreast uriRelaxed len []) (fun s w => s.cs = w.cs) move ∧
      ∀ x ∈ handedIn buffer rest s, x.Inside len) ∨
    (scan (Walk.step uriRelaxed) rest w = .error () ∧ scan (step buffer) rest s = .error .lengthError ∧
      ∃ x ∈ handedIn buffer rest s, ¬ x.Inside len) := by
  induction rest generalizing s w with
  | nil => exact .inl ⟨_, _, rfl, rfl, .next abreast, fun x among => absurd among List.not_mem_nil⟩
  | cons c rest ih =>
    rw [scan, scan, handedIn]
    rcases step_handed buffer small abreast with
      ⟨move, move', walked, stepped, rel, inside⟩ | ⟨walked, stepped, x, among, outside⟩
    · rw [walked, stepped]
      cases rel with
      | stop same =>
        refine .inl ⟨_, _, rfl, rfl, .stop same, fun x among => ?_⟩
        exact inside x ((List.mem_append.mp among).resolve_right List.not_mem_nil)
      | next abreast' =>
        rcases ih abreast' with ⟨move, move', walks, runs, rel, later⟩ | ⟨walks, runs, x, among, outside⟩
        · refine .inl ⟨move, move', walks, runs, rel, fun x among => ?_⟩
          rcases List.mem_append.mp among with here | there
          · exact inside x here
          · exact later x there
        · exact .inr ⟨walks, runs, x, List.mem_append_right _ among, outside⟩
    · rw [walked, stepped]
      exact .inr ⟨rfl, rfl, x, List.mem_append_left _ among, outside⟩

/-- Between two calls. -/
structure Between (uriRelaxed : Bool) (m : HttpRequestParser) (w : Walk) : Prop where
  cs : m.parser.cs = w.cs
  live : w.cs ≠ 0 ∧ w.cs < 348
  relaxed : m.parser.uriRelaxed = uriRelaxed
  bodyStart : m.parser.bodyStart = 0
  queried : (Flags.of w.cs).queried = true → ∃ start, w.queryStart = some start
  query : ∀ start, w.queryStart = some start → m.parser.queryStart = start ∧ start < 2 ^ 64

theorem between_new (junk : Uninit) : Between junk.uriRelaxed (new junk) .start where
  cs := rfl
  live := by decide
  relaxed := rfl
  bodyStart := rfl
  queried := by simp [Walk.start, Flags.of]
  query := by simp [Walk.start]

theorem Between.abreast (between : Between uriRelaxed m w) (total : rest.length = len) :
    Abreast uriRelaxed len rest ⟨0, m.parser.cs, m.reset⟩ { w with p := 0 } where
  cs := between.cs
  position := rfl
  ahead := (Nat.zero_add _).trans total
  relaxed := between.relaxed
  marked := ⟨Nat.le_refl _, Nat.le_refl _, fun _ => Nat.le_refl _, between.queried, between.query⟩

theorem Between.settled {move : Move Locals} (between : Between uriRelaxed m w)
    (runs : scan (step buffer) rest ⟨0, m.parser.cs, m.reset⟩ = .ok move) :
    move.Holds (fun s => s.cs ≠ 0 ∧ s.cs < 348) (fun s => s.cs = 0 ∨ 348 ≤ s.cs) :=
  scan_settled (s := ⟨0, m.parser.cs, m.reset⟩) (between.cs ▸ between.live) runs

theorem Between.next {w' : Walk} (between : Between uriRelaxed m w) (started : 0 < len)
    (total : rest.length = len)
    (runs : scan (step buffer) rest ⟨0, m.parser.cs, m.reset⟩ = .ok (.next s))
    (abreast : Abreast uriRelaxed len [] s w') : Between uriRelaxed (m.leave s) w' := by
  have ongoing : Ongoing len rest ⟨0, m.parser.cs, m.reset⟩ := ongoing_reset started between.bodyStart total
  have held := scan_holds (fun _ _ _ _ => step_ongoing) ongoing runs
  have live : m.parser.cs ≠ 0 := between.cs ▸ between.live.1
  have settled := between.settled runs
  refine ⟨?_, abreast.cs ▸ settled, abreast.relaxed, held.bodyStart, abreast.marked.queried,
    abreast.marked.query⟩
  rw [leave, if_neg live]
  exact abreast.cs

/-- A call on one read: the assertions at its end hold, and what it hands over lies in the buffer
exactly when the machine alone gets through. -/
theorem execute_handed {read : List UInt8} (beyond : List UInt8) (between : Between uriRelaxed m w)
    (nonempty : read ≠ []) (small : read.length < 2 ^ 31) :
    (∃ move, w.read uriRelaxed read = .ok move ∧
      (∃ s, m.httpParserExecute (read ++ beyond) read.length = .ok (s.p, m.leave s) ∧
        move.Holds (fun w' => s.p = read.length ∧ Between uriRelaxed (m.leave s) w')
          (fun _ => s.cs = 0 ∨ 348 ≤ s.cs)) ∧
      ∀ x ∈ m.handed (read ++ beyond) read.length, x.Inside read.length) ∨
    (w.read uriRelaxed read = .error () ∧
      m.httpParserExecute (read ++ beyond) read.length = .error .lengthError ∧
      ∃ x ∈ m.handed (read ++ beyond) read.length, ¬ x.Inside read.length) := by
  have started : 0 < read.length := List.length_pos_of_ne_nil nonempty
  have whole : (read ++ beyond).take read.length = read := List.take_left
  rw [handed, whole]
  rcases scan_handed (read ++ beyond) (Nat.lt_trans small (by decide)) (between.abreast rfl) with
    ⟨move, move', walks, runs, rel, inside⟩ | ⟨walks, runs, outside⟩
  · refine .inl ⟨move, walks, ⟨move'.state, ?_, ?_⟩, inside⟩
    · exact httpParserExecute_eq started small between.bodyStart (by simp) (by rw [whole]; exact runs)
    · have settled := between.settled runs
      cases rel with
      | next abreast => exact ⟨abreast.ahead, between.next started rfl runs abreast⟩
      | stop => exact settled
  · refine .inr ⟨walks, ?_, outside⟩
    rw [httpParserExecute, if_neg (by omega), if_neg (by omega), whole, runs]

end HttpRequestParser

/-! ### The reads that `recvRequest` feeds to the parser -/

open HttpRequestParser HttpSession

/-- The locals of the header loop of `recvRequest`. -/
structure Feed where
  parser : HttpRequestParser
  data : List UInt8
  offset : Nat
  deriving DecidableEq, Repr

/-- How a turn of the loop ends. -/
inductive Verdict where
  | closed
  | finished (got : Received)
  | more (f : Feed)
  deriving DecidableEq, Repr

namespace Feed

def new {size : BufferSize} (memory : Memory size) : Feed :=
  ⟨HttpRequestParser.new memory.toUninit, memory.buffer, 0⟩

/-- A turn of the loop on what `read` has stored behind the bytes left in the buffer. -/
def next (size : BufferSize) (f : Feed) (chunk : List UInt8) : Except Fault Verdict :=
  let len := chunk.length + f.offset
  match f.parser.execute (overwrite f.data f.offset chunk) len with
  | .error fault => .error fault
  | .ok (nparse, data', parser') =>
    if parser'.hasError then .ok .closed
    else if len - nparse = size then .ok .closed
    else if parser'.isFinished ≠ 0 then .ok (.finished ⟨parser', data', len - nparse⟩)
    else .ok (.more ⟨parser', data', len - nparse⟩)

/-- What `read` can return. -/
def Takes (size : BufferSize) (f : Feed) (chunk : List UInt8) : Prop :=
  chunk ≠ [] ∧ chunk.length ≤ size - f.offset

instance (size : BufferSize) (f : Feed) (chunk : List UInt8) : Decidable (f.Takes size chunk) :=
  inferInstanceAs (Decidable (_ ∧ _))

/-- A turn after which the loop goes on. -/
def Step (size : BufferSize) (f : Feed) (chunk : List UInt8) (f' : Feed) : Prop :=
  f.Takes size chunk ∧ f.next size chunk = .ok (.more f')

/-- What the turn on `chunk` hands to the callbacks. -/
def handed (f : Feed) (chunk : List UInt8) : List Slice :=
  f.parser.handed (overwrite f.data f.offset chunk) (chunk.length + f.offset)

variable {size : BufferSize} {f f' : Feed} {chunk : List UInt8} {fault : Fault}

theorem next_failed
    (failed : f.parser.execute (overwrite f.data f.offset chunk) (chunk.length + f.offset) = .error fault) :
    f.next size chunk = .error fault := by
  unfold next
  dsimp only
  rw [failed]

theorem next_executed {n : Nat} {data : List UInt8} {m : HttpRequestParser}
    (executed : f.parser.execute (overwrite f.data f.offset chunk) (chunk.length + f.offset) =
      .ok (n, data, m)) :
    f.next size chunk =
      if m.hasError then .ok .closed
      else if chunk.length + f.offset - n = size then .ok .closed
      else if m.isFinished ≠ 0 then .ok (.finished ⟨m, data, chunk.length + f.offset - n⟩)
      else .ok (.more ⟨m, data, chunk.length + f.offset - n⟩) := by
  unfold next
  dsimp only
  rw [executed]

theorem next_error (failed : f.next size chunk = .error fault) :
    f.parser.httpParserExecute (overwrite f.data f.offset chunk) (chunk.length + f.offset) = .error fault := by
  cases ran : f.parser.httpParserExecute (overwrite f.data f.offset chunk) (chunk.length + f.offset) with
  | error g =>
    rw [show f.next size chunk = .error g from next_failed (by rw [execute, ran])] at failed
    rw [Except.error.inj failed]
  | ok done =>
    rw [next_executed (by rw [execute, ran])] at failed
    split at failed
    · cases failed
    split at failed
    · cases failed
    split at failed <;> cases failed

theorem next_more (more : f.next size chunk = .ok (.more f')) :
    ∃ n, f.parser.httpParserExecute (overwrite f.data f.offset chunk) (chunk.length + f.offset) =
        .ok (n, f'.parser) ∧ f'.parser.hasError = false ∧ f'.parser.isFinished = 0 ∧
      f'.offset = chunk.length + f.offset - n ∧ f'.data.length = f.data.length := by
  cases ran : f.parser.httpParserExecute (overwrite f.data f.offset chunk) (chunk.length + f.offset) with
  | error g =>
    rw [show f.next size chunk = .error g from next_failed (by rw [execute, ran])] at more
    cases more
  | ok done =>
    rw [next_executed (by rw [execute, ran])] at more
    split at more
    · cases more
    rename_i sound
    split at more
    · cases more
    split at more
    · cases more
    rename_i unfinished
    cases more
    exact ⟨done.1, rfl, by simpa using sound, by simpa using unfinished, rfl, by simp⟩

/-- How the loop ends in the turn of `f`. -/
inductive Ends (size : BufferSize) (f : Feed) (s : HttpSession) :
    Except Fault (Option Received × HttpSession) → Prop where
  | drained (spent : s.read (size - f.offset) = none) : Ends size f s (.ok (none, s.close))
  | faulted {chunk : List UInt8} {s' : HttpSession} {fault : Fault}
      (got : s.read (size - f.offset) = some (chunk, s')) (last : f.next size chunk = .error fault) :
      Ends size f s (.error fault)
  | closed {chunk : List UInt8} {s' : HttpSession} (got : s.read (size - f.offset) = some (chunk, s'))
      (last : f.next size chunk = .ok .closed) : Ends size f s (.ok (none, s'.close))
  | finished {chunk : List UInt8} {s' : HttpSession} {received : Received}
      (got : s.read (size - f.offset) = some (chunk, s'))
      (last : f.next size chunk = .ok (.finished received)) : Ends size f s (.ok (some received, s'))

/-- The header loop of `recvRequest` is a run of turns. -/
theorem recvHeader_turns {start : Feed} {parser : HttpRequestParser} {data : List UInt8} {offset : Nat}
    {s : HttpSession} {reads : List (List UInt8)}
    (run : Run (Step size) start reads ⟨parser, data, offset⟩) :
    ∃ reads' f s', Run (Step size) start reads' f ∧ Ends size f s' (recvHeader size parser data offset s) := by
  fun_induction recvHeader size parser data offset s generalizing reads with
  | case1 parser data offset s spent => exact ⟨reads, _, s, run, .drained spent⟩
  | case2 parser data offset s chunk s' got =>
    rename_i fault failed
    exact ⟨reads, _, s, run, .faulted got (next_failed failed)⟩
  | case3 parser data offset s chunk s' got =>
    rename_i executed error
    exact ⟨reads, _, s, run, .closed got (by rw [next_executed executed, if_pos error])⟩
  | case4 parser data offset s chunk s' got =>
    rename_i executed sound full
    exact ⟨reads, _, s, run, .closed got (by rw [next_executed executed, if_neg sound, if_pos full])⟩
  | case5 parser data offset s chunk s' got =>
    rename_i executed sound room finished
    refine ⟨reads, _, s, run, .finished got ?_⟩
    rw [next_executed executed, if_neg sound, if_neg room, if_pos finished]
  | case6 parser data offset s chunk s' got =>
    rename_i executed sound room unfinished ih
    refine ih (run.snoc ⟨⟨(read_pending got).2, read_length got⟩, ?_⟩)
    rw [next_executed executed, if_neg sound, if_neg room, if_neg unfinished]

end Feed

/-- The machine alone after some reads. -/
def Walk.after (uriRelaxed : Bool) (reads : List (List UInt8)) : Walk :=
  reads.foldl (fun w bytes => ((w.read uriRelaxed bytes).toOption.map Move.state).getD w) .start

/-- Every query string that ends in `bytes` ends at no smaller offset than it started at, each counted
from the beginning of its own read. -/
def QueriesInOrder (uriRelaxed : Bool) (reads : List (List UInt8)) (bytes : List UInt8) : Prop :=
  ∃ move, (Walk.after uriRelaxed reads).read uriRelaxed bytes = .ok move

instance (uriRelaxed : Bool) (reads : List (List UInt8)) (bytes : List UInt8) :
    Decidable (QueriesInOrder uriRelaxed reads bytes) :=
  match same : (Walk.after uriRelaxed reads).read uriRelaxed bytes with
  | .ok move => isTrue ⟨move, same⟩
  | .error _ => isFalse fun found => by obtain ⟨_, ok⟩ := found; cases same.symm.trans ok

/-- What holds after some turns: nothing is left over, and the machine alone has kept up. -/
structure Fed (size : BufferSize) (uriRelaxed : Bool) (reads : List (List UInt8)) (f : Feed) : Prop where
  offset : f.offset = 0
  room : f.data.length = size.val
  between : Between uriRelaxed f.parser (Walk.after uriRelaxed reads)

namespace Fed

variable {size : BufferSize} {uriRelaxed : Bool} {reads : List (List UInt8)} {f f' : Feed} {bytes : List UInt8}

theorem stored (fed : Fed size uriRelaxed reads f) (takes : f.Takes size bytes) :
    overwrite f.data f.offset bytes = bytes ++ f.data.drop bytes.length ∧
      bytes.length + f.offset = bytes.length ∧ bytes.length < 2 ^ 31 := by
  have fits := takes.2
  have bound := size.isLt
  have room := fed.room
  rw [fed.offset] at fits ⊢
  refine ⟨?_, Nat.add_zero _, by omega⟩
  rw [overwrite_eq (by omega)]
  simp

theorem step (fed : Fed size uriRelaxed reads f) (step : f.Step size bytes f') :
    Fed size uriRelaxed (reads ++ [bytes]) f' := by
  obtain ⟨takes, more⟩ := step
  obtain ⟨buffer_eq, len_eq, small⟩ := fed.stored takes
  obtain ⟨n, executed, sound, unfinished, offset, room⟩ := Feed.next_more more
  rw [buffer_eq, len_eq] at executed
  rcases execute_handed (f.data.drop bytes.length) fed.between takes.1 small with
    ⟨move, walked, ⟨s, executed', ends⟩, _⟩ | ⟨_, failed, _⟩
  · rw [executed'] at executed
    obtain ⟨rfl, same⟩ := Prod.mk.inj (Except.ok.inj executed)
    cases move with
    | next w' =>
      obtain ⟨spent, between⟩ := ends
      refine ⟨by rw [offset, len_eq, spent, Nat.sub_self], room.trans fed.room, ?_⟩
      have after : Walk.after uriRelaxed (reads ++ [bytes]) = w' := by
        rw [Walk.after, List.foldl_append]
        show ((Walk.read uriRelaxed (Walk.after uriRelaxed reads) bytes).toOption.map Move.state).getD _ = w'
        rw [walked]
        rfl
      rw [after, ← same]
      exact between
    | stop w' =>
      -- the loop does not go on after the machine has stopped
      have live : f.parser.parser.cs ≠ 0 := fed.between.cs ▸ fed.between.live.1
      have left : f'.parser.parser.cs = s.cs := by rw [← same, leave, if_neg live]
      rcases ends with failed | final
      · rw [hasError, left, failed] at sound
        simp at sound
      · rw [isFinished, left, if_neg (by omega), if_pos final] at unfinished
        cases unfinished
  · cases executed.symm.trans failed

theorem new {size : BufferSize} (memory : Memory size) : Fed size memory.uriRelaxed [] (Feed.new memory) :=
  ⟨rfl, memory.buffer_length, between_new memory.toUninit⟩

theorem of_run {memory : Memory size} (run : Run (Feed.Step size) (Feed.new memory) reads f) :
    Fed size memory.uriRelaxed reads f := by
  induction run with
  | nil => exact new memory
  | snoc _ last ih => exact ih.step last

end Fed

/-- The header loop of `recvRequest` is a run of turns, whatever the client sends. In every turn the assertions
of `http_parser_execute` hold, and what the callbacks are handed lies in the buffer exactly when no query ends
before the offset it started at in an earlier read. -/
theorem handed_inside_iff {size : BufferSize} (memory : Memory size) :
    (∀ s, ∃ reads f s', Run (Feed.Step size) (Feed.new memory) reads f ∧
      f.Ends size s' (recvHeader size (HttpRequestParser.new memory.toUninit) memory.buffer 0 s)) ∧
    ∀ (reads : List (List UInt8)) (f : Feed), Run (Feed.Step size) (Feed.new memory) reads f →
      ∀ bytes, f.Takes size bytes → f.next size bytes ≠ .error .assertion ∧
        ((∀ x ∈ f.handed bytes, x.Inside (bytes.length + f.offset)) ↔
          QueriesInOrder memory.uriRelaxed reads bytes) := by
  refine ⟨fun s => Feed.recvHeader_turns .nil, fun reads f run bytes takes => ?_⟩
  have fed := Fed.of_run run
  obtain ⟨buffer_eq, len_eq, small⟩ := fed.stored takes
  have reported : ∀ fault, f.next size bytes = .error fault →
      f.parser.httpParserExecute (bytes ++ f.data.drop bytes.length) bytes.length = .error fault := by
    intro fault failed
    have same := Feed.next_error failed
    rwa [buffer_eq, len_eq] at same
  rw [Feed.handed, buffer_eq, len_eq, QueriesInOrder]
  rcases execute_handed (f.data.drop bytes.length) fed.between takes.1 small with
    ⟨move, walked, ⟨s, executed, _⟩, inside⟩ | ⟨walked, failed, x, among, outside⟩
  · refine ⟨fun asserted => ?_, fun _ => ⟨move, walked⟩, fun _ => inside⟩
    cases executed.symm.trans (reported _ asserted)
  · refine ⟨fun asserted => ?_, fun inside => absurd (inside x among) outside, fun found => ?_⟩
    · cases failed.symm.trans (reported _ asserted)
    · obtain ⟨move, ok⟩ := found
      cases walked.symm.trans ok

/-- The state of the loop, when it goes on. -/
def Verdict.feed : Except Fault Verdict → Option Feed
  | .ok (.more f) => some f
  | _ => none

theorem Feed.step_of_seen {size : BufferSize} {f : Feed} {chunk : List UInt8} {slices : List Slice}
    {later : List UInt8} (takes : f.Takes size chunk)
    (seen : (Verdict.feed (f.next size chunk)).map (fun f' => (f'.handed later, f'.offset)) = some (slices, 0)) :
    ∃ f', Run (Feed.Step size) f [chunk] f' ∧ f'.handed later = slices ∧ f'.offset = 0 := by
  unfold Verdict.feed at seen
  split at seen
  · rename_i f' more
    obtain ⟨handed_eq, offset_eq⟩ := Prod.mk.inj (Option.some.inj seen)
    exact ⟨f', Run.nil.snoc ⟨takes, more⟩, handed_eq, offset_eq⟩
  · cases seen

/-- A query that starts in one read and ends behind that offset in the next. -/
theorem handed_inside_iff_split :
    ∃ f, Run (Feed.Step 4096) (Feed.new (Memory.zeroed 4096)) [ascii "GET /?b"] f ∧
      f.Takes 4096 (ascii "cccccc HTTP/1.1\r\n") ∧
      f.next 4096 (ascii "cccccc HTTP/1.1\r\n") ≠ .error .assertion ∧
      f.handed (ascii "cccccc HTTP/1.1\r\n") = [⟨6, 0⟩, ⟨7, 8⟩] ∧
      ∀ x ∈ f.handed (ascii "cccccc HTTP/1.1\r\n"),
        x.Inside ((ascii "cccccc HTTP/1.1\r\n").length + f.offset) := by
  obtain ⟨f, run, handed_eq, offset_eq⟩ :
      ∃ f, Run (Feed.Step 4096) (Feed.new (Memory.zeroed 4096)) [ascii "GET /?b"] f ∧
        f.handed (ascii "cccccc HTTP/1.1\r\n") = [⟨6, 0⟩, ⟨7, 8⟩] ∧ f.offset = 0 :=
    Feed.step_of_seen (by decide +kernel) (by decide +kernel)
  have takes : f.Takes 4096 (ascii "cccccc HTTP/1.1\r\n") := by
    rw [Feed.Takes, offset_eq]
    decide
  obtain ⟨_, turns⟩ := handed_inside_iff (Memory.zeroed 4096)
  obtain ⟨asserted, inside⟩ := turns _ f run _ takes
  exact ⟨f, run, takes, asserted, handed_eq, inside.mpr (by decide +kernel)⟩

/-- The query starts at offset 10 of the first read and ends at offset 1 of the second. -/
theorem handed_outside :
    ∃ f, Run (Feed.Step 4096) (Feed.new (Memory.zeroed 4096)) [ascii "GET /aaaa?b"] f ∧
      f.Takes 4096 (ascii "c HTTP/1.1\r\n") ∧
      ∃ x ∈ f.handed (ascii "c HTTP/1.1\r\n"), x = ⟨10, 2 ^ 64 - 9⟩ ∧
        ¬ x.Inside ((ascii "c HTTP/1.1\r\n").length + f.offset) := by
  obtain ⟨f, run, handed_eq, offset_eq⟩ :
      ∃ f, Run (Feed.Step 4096) (Feed.new (Memory.zeroed 4096)) [ascii "GET /aaaa?b"] f ∧
        f.handed (ascii "c HTTP/1.1\r\n") = [⟨10, 2 ^ 64 - 9⟩] ∧ f.offset = 0 :=
    Feed.step_of_seen (by decide +kernel) (by decide +kernel)
  refine ⟨f, run, ?_, ⟨10, 2 ^ 64 - 9⟩, ?_, rfl, ?_⟩
  · rw [Feed.Takes, offset_eq]
    decide
  · rw [handed_eq]
    exact List.mem_singleton_self _
  · rw [offset_eq]
    decide

end Cool.Http
