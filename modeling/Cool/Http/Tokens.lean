import Cool.Http.Parser
import Mathlib.Data.List.Find

/-!
# The machine on tokens

The machine of `http_parser_execute` with each register replaced by the bytes it stands for. A
capture that is `none` is not known, and a callback that needs it gets nowhere. This machine has no
buffer, so it does not matter how its input is cut; `execute_tracks` says when a call of `execute`
does what it does.
-/

namespace Cool.Http

open Foundation

structure Captures where
  mark : Option (List UInt8)
  fieldStart : Option (List UInt8)
  field : Option (List UInt8)
  query : Option (List UInt8)
  deriving DecidableEq, Repr

/-- No method name is longer than `text` and starts with it. -/
def settled (text : List UInt8) : Bool :=
  httpMethodMap.all fun entry => entry.2.length ≤ text.length || !text.isPrefixOf entry.2

def known {α : Type} : Option α → Except Unit α
  | none => .error ()
  | some a => .ok a

namespace Captures

def none : Captures := ⟨.none, .none, .none, .none⟩

def registers (a : Action) (k : Captures) : Captures :=
  match a with
  | .mark => { k with mark := some [] }
  | .startField => { k with fieldStart := some [], field := .none }
  | .writeField => { k with field := k.fieldStart }
  | .startQuery => { k with query := some [] }
  | _ => k

def callback (c : UInt8) (a : Action) (k : Captures) (d : Parsed) : Except Unit Parsed :=
  match a with
  | .writeValue =>
    (known k.field).bind fun name => (known k.mark).map (d.onRequestHttpField name name.length)
  | .requestMethod =>
    (known k.mark).bind fun text =>
      if settled (text ++ [c]) then .ok (d.onRequestMethod (text ++ [c])) else .error ()
  | .fragment => (known k.mark).map d.onRequestFragment
  | .queryString => (known k.query).map d.onRequestQuery
  | .httpVersion => (known k.mark).map fun text => d.onRequestVersion text text.length
  | .requestPath => (known k.mark).map d.onRequestPath
  | _ => .ok d

def advance (c : UInt8) (k : Captures) : Captures where
  mark := k.mark.map (· ++ [c])
  fieldStart := k.fieldStart.map (· ++ [c])
  field := k.field
  query := k.query.map (· ++ [c])

end Captures

structure Tokens extends Parsed where
  cs : Nat
  -- bytes consumed since the captures were last given up
  used : Nat
  captures : Captures
  deriving DecidableEq, Repr

namespace Tokens

def new : Tokens := { error := 0, data := HttpRequest.new, cs := 1, used := 0, captures := .none }

def forget (t : Tokens) : Tokens := { t with used := 0, captures := .none }

def perform (c : UInt8) : List Action → Captures → Parsed → Except Unit (Captures × Parsed)
  | [], k, d => .ok (k, d)
  | a :: as, k, d =>
    match k.callback c a d with
    | .error e => .error e
    | .ok d' => perform c as (k.registers a) d'

def step (uriRelaxed : Bool) (c : UInt8) (t : Tokens) : Except Unit (Move Tokens) :=
  follow (edge uriRelaxed t.cs c) (fun e => perform c e.actions t.captures t.toParsed) (fun e => .done ∈ e.actions)
    { t with cs := 0 } fun e out => ⟨out.2, e.target, t.used + 1, out.1.advance c⟩

end Tokens

theorem map_known {α β : Type} {o : Option α} {f : α → β} {b : β} (done : (known o).map f = .ok b) :
    ∃ a, o = some a ∧ f a = b := by
  cases o with
  | none => cases done
  | some a => cases done; exact ⟨a, rfl, rfl⟩

theorem bind_known {α β : Type} {o : Option α} {f : α → Except Unit β} {b : β}
    (done : (known o).bind f = .ok b) : ∃ a, o = some a ∧ f a = .ok b := by
  cases o with
  | none => cases done
  | some a => exact ⟨a, rfl, done⟩

/-! ### Comparisons that look at a part of the memory -/

theorem strncmpEq_append_right {n : Nat} {xs u : List UInt8} (v : List UInt8)
    (enough : n ≤ u.length ∨ ¬ u <+: xs) : strncmpEq n xs (u ++ v) = strncmpEq n xs u := by
  induction n generalizing xs u with
  | zero => simp [strncmpEq]
  | succ n ih =>
    cases xs with
    | nil => simp [strncmpEq]
    | cons x xs =>
      cases u with
      | nil => simp at enough
      | cons y u =>
        by_cases same : x = y
        · subst same
          simp only [List.cons_append, strncmpEq, ih (by simpa using enough)]
        · simp only [List.cons_append, strncmpEq, beq_eq_false_iff_ne.mpr same, Bool.false_and]

theorem strncmpEq_append_left {n : Nat} {u ys : List UInt8} (v : List UInt8) (enough : n ≤ u.length) :
    strncmpEq n (u ++ v) ys = strncmpEq n u ys := by
  induction n generalizing u ys with
  | zero => simp [strncmpEq]
  | succ n ih =>
    cases u with
    | nil => simp at enough
    | cons x u =>
      cases ys with
      | nil => simp [strncmpEq]
      | cons y ys => simp only [List.cons_append, strncmpEq, ih (by simpa using enough)]

theorem charsToHttpMethd_append {u : List UInt8} (v : List UInt8) (settled : settled u = true) :
    charsToHttpMethd (u ++ v) = charsToHttpMethd u := by
  have same : ∀ entry ∈ httpMethodMap,
      strncmpEq entry.2.length entry.2 (u ++ v) = strncmpEq entry.2.length entry.2 u := by
    intro entry member
    have enough := List.all_eq_true.mp settled entry member
    apply strncmpEq_append_right
    simpa [List.isPrefixOf_iff_prefix, ← Bool.not_eq_true] using enough
  unfold charsToHttpMethd
  rw [List.find?_congr same]

theorem onRequestVersion_append {u : List UInt8} (d : Parsed) (v : List UInt8) :
    d.onRequestVersion (u ++ v) u.length = d.onRequestVersion u u.length := by
  unfold Parsed.onRequestVersion onVersion
  rw [strncmpEq_append_left v (Nat.le_refl _), strncmpEq_append_left v (Nat.le_refl _)]

theorem onRequestHttpField_append {u : List UInt8} (d : Parsed) (v value : List UInt8) :
    d.onRequestHttpField (u ++ v) u.length value = d.onRequestHttpField u u.length value := by
  simp [Parsed.onRequestHttpField]

/-! ### Registers and the bytes they stand for -/

theorem lt_length_of_drop {buffer rest : List UInt8} {p : Nat} {c : UInt8}
    (here : buffer.drop p = c :: rest) : p < buffer.length := by
  by_contra beyond
  rw [List.drop_eq_nil_of_le (by omega)] at here
  cases here

/-- The register `start` of a call that is at `p` points at `text`. -/
structure PointsAt (buffer : List UInt8) (p start : Nat) (text : List UInt8) : Prop where
  le : start ≤ p
  eq : (buffer.take p).drop start = text

namespace PointsAt

variable {buffer : List UInt8} {p start : Nat} {text rest : List UInt8} {c : UInt8}

theorem self : PointsAt buffer p p [] where
  le := Nat.le_refl p
  eq := List.drop_eq_nil_of_le (List.length_take_le p buffer)

theorem memory (points : PointsAt buffer p start text) (here : buffer.drop p = c :: rest) :
    buffer.drop start = text ++ c :: rest := by
  have bound : p ≤ buffer.length := Nat.le_of_lt (lt_length_of_drop here)
  have split := congrArg (List.drop start) (List.take_append_drop p buffer)
  rw [List.drop_append_of_le_length (by simp [points.le, bound]),
    points.eq, here] at split
  exact split.symm

theorem length (points : PointsAt buffer p start text) (bound : p ≤ buffer.length) :
    text.length = p - start := by
  rw [← points.eq, List.length_drop, List.length_take, Nat.min_eq_left bound]

theorem advance (points : PointsAt buffer p start text) (here : buffer.drop p = c :: rest) :
    PointsAt buffer (p + 1) start (text ++ [c]) where
  le := Nat.le_succ_of_le points.le
  eq := by
    have bound : p ≤ buffer.length := Nat.le_of_lt (lt_length_of_drop here)
    have at_p : buffer[p]? = some c := by rw [← List.head?_drop, here, List.head?_cons]
    rw [List.take_add_one, at_p, List.drop_append_of_le_length, points.eq]
    · rfl
    · rw [List.length_take, Nat.min_eq_left bound]
      exact points.le

theorem slice (points : PointsAt buffer p start text) :
    HttpRequestParser.slice buffer start p = .ok text := by
  unfold HttpRequestParser.slice
  rw [if_pos points.le, points.eq]

end PointsAt

/-- Every capture is what its register points at. -/
structure Reads (buffer : List UInt8) (p : Nat) (r : HttpParser) (k : Captures) : Prop where
  mark : ∀ text, k.mark = some text → PointsAt buffer p r.mark text
  fieldStart : ∀ text, k.fieldStart = some text → PointsAt buffer p r.fieldStart text
  field : ∀ name, k.field = some name →
    r.fieldLen = name.length ∧ ∃ rest, buffer.drop r.fieldStart = name ++ rest
  query : ∀ text, k.query = some text → PointsAt buffer p r.queryStart text

namespace Reads

variable {buffer : List UInt8} {p : Nat} {r : HttpParser} {k : Captures} {c : UInt8}
  {rest : List UInt8}

theorem none : Reads buffer p r .none where
  mark := nofun
  fieldStart := nofun
  field := nofun
  query := nofun

theorem registers (reads : Reads buffer p r k) (here : buffer.drop p = c :: rest) (a : Action) :
    Reads buffer p (HttpRequestParser.registers p a r) (k.registers a) := by
  have bound : p ≤ buffer.length := Nat.le_of_lt (lt_length_of_drop here)
  cases a with
  | mark => exact { reads with mark := fun text same => by cases same; exact .self }
  | startField =>
    exact { reads with
      fieldStart := fun text same => by cases same; exact .self
      field := nofun }
  | writeField =>
    exact { reads with
      field := fun name same =>
        have points := reads.fieldStart name same
        ⟨(points.length bound).symm, _, points.memory here⟩ }
  | startQuery => exact { reads with query := fun text same => by cases same; exact .self }
  | done =>
    by_cases sent : (r.xmlSent || r.jsonSent) = true
    · simp only [HttpRequestParser.registers, if_pos sent]
      exact { reads with }
    · simp only [HttpRequestParser.registers, if_neg sent]
      exact { reads with }
  | _ => exact { reads with }

theorem advance (reads : Reads buffer p r k) (here : buffer.drop p = c :: rest) :
    Reads buffer (p + 1) r (k.advance c) where
  mark text same := by
    obtain ⟨text, held, rfl⟩ := Option.map_eq_some_iff.mp same
    exact (reads.mark text held).advance here
  fieldStart text same := by
    obtain ⟨text, held, rfl⟩ := Option.map_eq_some_iff.mp same
    exact (reads.fieldStart text held).advance here
  field := reads.field
  query text same := by
    obtain ⟨text, held, rfl⟩ := Option.map_eq_some_iff.mp same
    exact (reads.query text held).advance here

theorem callback (reads : Reads buffer p r k) (here : buffer.drop p = c :: rest) {a : Action}
    {d d' : Parsed} (done : k.callback c a d = .ok d') :
    HttpRequestParser.callback buffer p a r d = .ok d' := by
  have bound : p ≤ buffer.length := Nat.le_of_lt (lt_length_of_drop here)
  cases a with
  | writeValue =>
    obtain ⟨name, hfield, done⟩ := bind_known done
    obtain ⟨value, hmark, rfl⟩ := map_known done
    obtain ⟨hlen, tail, memory⟩ := reads.field name hfield
    simp only [HttpRequestParser.callback, (reads.mark value hmark).slice, Except.map, hlen, memory,
      onRequestHttpField_append]
  | requestMethod =>
    obtain ⟨text, hmark, done⟩ := bind_known done
    split at done
    · rename_i settled
      cases done
      have memory : buffer.drop r.mark = (text ++ [c]) ++ rest := by
        rw [(reads.mark text hmark).memory here]; simp
      simp only [HttpRequestParser.callback, Parsed.onRequestMethod, memory,
        charsToHttpMethd_append rest settled]
    · cases done
  | queryString =>
    obtain ⟨text, hquery, rfl⟩ := map_known done
    simp only [HttpRequestParser.callback, (reads.query text hquery).slice, Except.map]
  | httpVersion =>
    obtain ⟨text, hmark, rfl⟩ := map_known done
    have points := reads.mark text hmark
    simp only [HttpRequestParser.callback, points.memory here, ← points.length bound,
      onRequestVersion_append]
  | fragment | requestPath =>
    obtain ⟨text, hmark, rfl⟩ := map_known done
    simp only [HttpRequestParser.callback, (reads.mark text hmark).slice, Except.map]
  | _ => cases done; rfl

end Reads

/-! ### One call -/

namespace HttpRequestParser

variable {buffer : List UInt8} {p len : Nat} {as : List Action} {m m' : HttpRequestParser}

theorem perform_invariant {P : HttpParser → Prop} (keep : ∀ a ∈ as, ∀ r, P r → P (registers p a r))
    (run : perform buffer p as m = .ok m') (start : P m.parser) : P m'.parser := by
  induction as generalizing m with
  | nil => cases run; exact start
  | cons a as ih =>
    unfold perform at run
    split at run
    · cases run
    · exact ih (fun b hb => keep b (List.mem_cons_of_mem a hb)) run
        (keep a List.mem_cons_self _ start)

theorem registers_uriRelaxed (p : Nat) (a : Action) (r : HttpParser) :
    (registers p a r).uriRelaxed = r.uriRelaxed := by
  unfold registers
  split <;> try rfl
  split <;> rfl

theorem registers_bodyStart {a : Action} (ongoing : a ≠ .done) (r : HttpParser) :
    (registers p a r).bodyStart = r.bodyStart := by
  cases a <;> first | rfl | exact absurd rfl ongoing

/-- The registers stay inside the buffer of the call. -/
structure Inside (len : Nat) (r : HttpParser) : Prop where
  mark : r.mark < len
  fieldStart : r.fieldStart < len
  fieldLen : r.fieldLen ≤ len
  bodyStart : r.bodyStart ≤ len

theorem Inside.registers {r : HttpParser} (inside : Inside len r) (bound : p < len) (a : Action) :
    Inside len (registers p a r) := by
  cases a with
  | mark => exact { inside with mark := bound }
  | startField => exact { inside with fieldStart := bound }
  | writeField => exact { inside with fieldLen := by simp only [HttpRequestParser.registers]; omega }
  | done =>
    by_cases sent : (r.xmlSent || r.jsonSent) = true
    · simp only [HttpRequestParser.registers, if_pos sent]
      exact { inside with bodyStart := Nat.le_of_lt inside.mark }
    · simp only [HttpRequestParser.registers, if_neg sent]
      exact { inside with bodyStart := bound }
  | _ => exact { inside with }

theorem Inside.perform (inside : Inside len m.parser) (bound : p < len)
    (run : m.perform buffer p as = .ok m') : Inside len m'.parser :=
  perform_invariant (fun a _ _ held => held.registers bound a) run inside

/-- The loop of a call on `len` bytes with `rest` still ahead. -/
structure Ongoing (len : Nat) (rest : List UInt8) (s : Locals) : Prop where
  position : s.p + rest.length = len
  inside : Inside len s.owner.parser
  bodyStart : s.owner.parser.bodyStart = 0

structure Left (len : Nat) (s : Locals) : Prop where
  position : s.p ≤ len
  inside : Inside len s.owner.parser
  moved : s.cs = 0 ∨ 0 < s.p

theorem step_ongoing {c : UInt8} {rest : List UInt8} {s : Locals} {move : Move Locals}
    (ongoing : Ongoing len (c :: rest) s) (run : step buffer c s = .ok move) :
    move.Holds (Ongoing len rest) (Left len) := by
  have position := ongoing.position
  rw [List.length_cons] at position
  cases follow_iff.mp run with
  | rejected => exact ⟨by simp only; omega, ongoing.inside, .inl rfl⟩
  | finished taken performed =>
    exact ⟨by simp only; omega, ongoing.inside.perform (by omega) performed,
      .inr (Nat.succ_pos _)⟩
  | advanced taken performed going =>
    refine ⟨by simp only; omega, ongoing.inside.perform (by omega) performed, ?_⟩
    refine perform_invariant (P := fun r => r.bodyStart = 0) (fun a ha r held => ?_) performed
      ongoing.bodyStart
    rw [registers_bodyStart (fun same => going (same ▸ ha)), held]

/-- The loop is left in a final state or in the error state, and it goes on in no such state. -/
theorem scan_settled {rest : List UInt8} {s : Locals} {move : Move Locals}
    (live : s.cs ≠ 0 ∧ s.cs < 348) (run : scan (step buffer) rest s = .ok move) :
    move.Holds (fun s' => s'.cs ≠ 0 ∧ s'.cs < 348) (fun s' => s'.cs = 0 ∨ 348 ≤ s'.cs) := by
  refine scan_holds (N := fun _ s' => s'.cs ≠ 0 ∧ s'.cs < 348) (fun c _ s move _ run => ?_) live run
  cases follow_iff.mp run with
  | rejected => exact .inl rfl
  | finished taken performed done => exact .inr ((edge_ordinary taken).1.mp done)
  | advanced taken performed going =>
    obtain ⟨final, live⟩ := edge_ordinary taken
    exact ⟨live, Nat.lt_of_not_le (fun le => going (final.mpr le))⟩

/-- What a call leaves of the loop: the assertions at its end hold. -/
theorem scan_left {rest : List UInt8} {s : Locals} {move : Move Locals}
    (ongoing : Ongoing len rest s) (started : 0 < len) (run : scan (step buffer) rest s = .ok move) :
    Left len move.state := by
  have held := scan_holds (fun _ _ _ _ => step_ongoing) ongoing run
  cases move with
  | next s' =>
    have position : s'.p = len := held.position
    exact ⟨Nat.le_of_eq position, held.inside, .inr (position ▸ started)⟩
  | stop s' => exact held

theorem ongoing_reset (started : 0 < len) (unused : m.parser.bodyStart = 0) {rest : List UInt8}
    (total : rest.length = len) : Ongoing len rest ⟨0, m.parser.cs, m.reset⟩ :=
  ⟨by simp only; omega, ⟨started, started, Nat.zero_le _, by simp [reset, unused]⟩,
    by simp [reset, unused]⟩

/-- A call that returns: it had nothing to read, or it went through the loop and passed every
assertion. -/
theorem httpParserExecute_ok {n : Nat} (run : m.httpParserExecute buffer len = .ok (n, m')) :
    (len = 0 ∧ n = 0 ∧ m' = m) ∨
      (0 < len ∧ len < 2 ^ 31 ∧
        ∃ move, scan (step buffer) (buffer.take len) ⟨0, m.parser.cs, m.reset⟩ = .ok move ∧
          n = move.state.p ∧ m' = m.leave move.state ∧ assertions m'.parser len = true) := by
  unfold httpParserExecute at run
  split at run
  · rename_i empty
    cases run
    exact .inl ⟨empty, rfl, rfl⟩
  · split at run
    · cases run
    · split at run
      · cases run
      · rename_i move hscan
        dsimp only at run
        split at run
        · rename_i asserted
          cases run
          exact .inr ⟨by omega, by omega, move, hscan, rfl, rfl, asserted⟩
        · cases run

theorem execute_ok {data : List UInt8} {n : Nat} (run : m.execute buffer len = .ok (n, data, m')) :
    m.httpParserExecute buffer len = .ok (n, m') ∧ data = overwrite buffer 0 ((buffer.take len).drop n) := by
  unfold execute at run
  split at run
  · cases run
  · rename_i executed
    cases run
    exact ⟨executed, rfl⟩

/-- A length that is no `int` fails the assertion at the start of a call. -/
theorem execute_large (large : 2 ^ 31 ≤ len) : m.httpParserExecute buffer len = .error .assertion := by
  rw [httpParserExecute, if_neg (by omega), if_pos large]

theorem small_of_execute {data : List UInt8} {n : Nat} (run : m.execute buffer len = .ok (n, data, m')) :
    len < 2 ^ 31 := by
  by_contra large
  have failed := @execute_large buffer len m (Nat.le_of_not_lt large)
  cases failed.symm.trans (execute_ok run).1

theorem httpParserExecute_eq {move : Move Locals} (started : 0 < len) (small : len < 2 ^ 31)
    (unused : m.parser.bodyStart = 0) (fits : len ≤ buffer.length)
    (run : scan (step buffer) (buffer.take len) ⟨0, m.parser.cs, m.reset⟩ = .ok move) :
    m.httpParserExecute buffer len = .ok (move.state.p, m.leave move.state) := by
  obtain ⟨position, inside, -⟩ :=
    scan_left (ongoing_reset started unused (by simp [fits])) started run
  have asserted : assertions (m.leave move.state).parser len = true := by
    simp [assertions, leave, position, inside.mark, inside.fieldStart, inside.fieldLen,
      inside.bodyStart]
  unfold httpParserExecute
  rw [if_neg (by omega), if_neg (by omega), run]
  simp only [asserted, if_true]
  rfl

end HttpRequestParser

namespace Tokens

open HttpRequestParser

variable {uriRelaxed : Bool} {buffer beyond rest chunk : List UInt8} {p : Nat} {c : UInt8}

theorem perform_tracks {as : List Action} {m : HttpRequestParser} {k k' : Captures} {d d' : Parsed}
    (parsed : m.toParsed = d) (reads : Reads buffer p m.parser k) (here : buffer.drop p = c :: rest)
    (run : perform c as k d = .ok (k', d')) :
    ∃ m', m.perform buffer p as = .ok m' ∧ m'.toParsed = d' ∧ Reads buffer p m'.parser k' := by
  induction as generalizing m k d with
  | nil => cases run; exact ⟨m, rfl, parsed, reads⟩
  | cons a as ih =>
    unfold perform at run
    split at run
    · cases run
    · rename_i d₁ hcallback
      have same := reads.callback here hcallback
      rw [← parsed] at same
      unfold HttpRequestParser.perform
      rw [same]
      exact ih rfl (reads.registers here a) run

/-- A call and the machine on tokens, in the same place of the same input. -/
structure InStep (uriRelaxed : Bool) (buffer beyond rest : List UInt8) (s : Locals) (t : Tokens) :
    Prop where
  cs : s.cs = t.cs
  position : s.p = t.used
  parsed : s.owner.toParsed = t.toParsed
  relaxed : s.owner.parser.uriRelaxed = uriRelaxed
  here : buffer.drop s.p = rest ++ beyond
  reads : Reads buffer s.p s.owner.parser t.captures

structure Alike (uriRelaxed : Bool) (s : Locals) (t : Tokens) : Prop where
  cs : s.cs = t.cs
  position : s.p = t.used
  parsed : s.owner.toParsed = t.toParsed
  relaxed : s.owner.parser.uriRelaxed = uriRelaxed

theorem InStep.relaxed_perform {s : Locals} {t : Tokens} {as : List Action}
    {owner : HttpRequestParser} (related : InStep uriRelaxed buffer beyond rest s t)
    (run : s.owner.perform buffer s.p as = .ok owner) : owner.parser.uriRelaxed = uriRelaxed :=
  perform_invariant (P := fun r => r.uriRelaxed = uriRelaxed)
    (fun a _ r held => (registers_uriRelaxed _ a r).trans held) run related.relaxed

theorem step_tracks {s : Locals} {t : Tokens} {move : Move Tokens}
    (related : InStep uriRelaxed buffer beyond (c :: rest) s t)
    (run : step uriRelaxed c t = .ok move) :
    ∃ move', HttpRequestParser.step buffer c s = .ok move' ∧
      move'.Rel (InStep uriRelaxed buffer beyond rest) (Alike uriRelaxed) move := by
  have same : edge s.owner.parser.uriRelaxed s.cs c = edge uriRelaxed t.cs c := by
    rw [related.relaxed, related.cs]
  have position : s.p + 1 = t.used + 1 := congrArg Nat.succ related.position
  cases follow_iff.mp run with
  | rejected dead =>
    exact ⟨_, follow_iff.mpr (.rejected (same.trans dead)),
      .stop ⟨rfl, related.position, related.parsed, related.relaxed⟩⟩
  | finished taken performed done =>
    obtain ⟨owner, howner, parsed, -⟩ :=
      perform_tracks related.parsed related.reads related.here performed
    exact ⟨_, follow_iff.mpr (.finished (same.trans taken) howner done),
      .stop ⟨rfl, position, parsed, related.relaxed_perform howner⟩⟩
  | advanced taken performed going =>
    obtain ⟨owner, howner, parsed, reads⟩ :=
      perform_tracks related.parsed related.reads related.here performed
    have here : buffer.drop (s.p + 1) = rest ++ beyond := by
      rw [← List.drop_drop, related.here]
      rfl
    exact ⟨_, follow_iff.mpr (.advanced (same.trans taken) howner going),
      .next ⟨rfl, position, parsed, related.relaxed_perform howner, here,
        reads.advance related.here⟩⟩

/-- Between two calls. -/
structure Idle (uriRelaxed : Bool) (m : HttpRequestParser) (t : Tokens) : Prop where
  cs : m.parser.cs = t.cs
  live : t.cs ≠ 0 ∧ t.cs < 348
  parsed : m.toParsed = t.toParsed
  relaxed : m.parser.uriRelaxed = uriRelaxed
  bodyStart : m.parser.bodyStart = 0

theorem Idle.cs_ne_zero {m : HttpRequestParser} {t : Tokens} (idle : Idle uriRelaxed m t) :
    m.parser.cs ≠ 0 :=
  idle.cs.trans_ne idle.live.1

theorem idle_new (junk : Uninit) : Idle junk.uriRelaxed (HttpRequestParser.new junk) new :=
  ⟨rfl, by decide, rfl, rfl, rfl⟩

/-- A call of `http_parser_execute` does what the machine on tokens does when it starts without a
capture. -/
theorem execute_tracks (beyond : List UInt8) {m : HttpRequestParser} {t : Tokens}
    {move : Move Tokens} (idle : Idle uriRelaxed m t) (nonempty : chunk ≠ [])
    (small : chunk.length < 2 ^ 31) (run : scan (step uriRelaxed) chunk t.forget = .ok move) :
    ∃ s, m.httpParserExecute (chunk ++ beyond) chunk.length = .ok (s.p, m.leave s) ∧
      Left chunk.length s ∧ Alike uriRelaxed s move.state ∧
      move.Holds (fun t' => s.p = chunk.length ∧ Idle uriRelaxed (m.leave s) t')
        (fun t' => t'.cs = 0 ∨ 348 ≤ t'.cs) := by
  have started : 0 < chunk.length := List.length_pos_of_ne_nil nonempty
  have whole : (chunk ++ beyond).take chunk.length = chunk := List.take_left
  have start : InStep uriRelaxed (chunk ++ beyond) beyond chunk ⟨0, m.parser.cs, m.reset⟩ t.forget :=
    ⟨idle.cs, rfl, idle.parsed, idle.relaxed, rfl, .none⟩
  obtain ⟨move', hscan, rel⟩ :=
    scan_simulates (R := InStep uriRelaxed (chunk ++ beyond) beyond) (J := Alike uriRelaxed)
      (fun _ _ _ _ _ => step_tracks) start run
  have ongoing : Ongoing chunk.length chunk ⟨0, m.parser.cs, m.reset⟩ :=
    ongoing_reset started idle.bodyStart rfl
  have left := scan_left ongoing started hscan
  have live : m.parser.cs ≠ 0 ∧ m.parser.cs < 348 := idle.cs ▸ idle.live
  have settled := scan_settled (s := ⟨0, m.parser.cs, m.reset⟩) live hscan
  refine ⟨move'.state, ?_, left, ?_, ?_⟩
  · exact httpParserExecute_eq started small idle.bodyStart (by simp) (by rw [whole]; exact hscan)
  · cases rel with
    | next related => exact ⟨related.cs, related.position, related.parsed, related.relaxed⟩
    | stop alike => exact alike
  · have held := scan_holds (fun _ _ _ _ => step_ongoing) ongoing hscan
    cases rel with
    | next related =>
      refine ⟨held.position, ?_, related.cs ▸ settled, related.parsed, related.relaxed, held.bodyStart⟩
      simp only [leave, Move.state, if_neg idle.cs_ne_zero, related.cs]
    | stop alike =>
      rw [Move.Holds, ← alike.cs]
      exact settled

end Tokens

end Cool.Http
