import Cool.Http.Slices

/-!
# What the constructor leaves uninitialised

`HttpRequestParser()` and `http_parser_init` leave `query_start` and `uri_relaxed` as they find them.
The machine writes the first before it reads it. The second decides whether the edges of `more_delims`
are there, so two parsers part at the first byte that only such an edge admits.
-/

namespace Cool.Http

open Foundation HttpRequestParser

/-- A call `execute(data, len)` on memory of at least `len` bytes. -/
structure Input where
  data : List UInt8
  len : Nat
  fits : len ≤ data.length
  sized : data.length < 2 ^ 64

/-- What can be seen after a call: its result, the buffer, and the parser. -/
structure Observed where
  offset : Nat
  data : List UInt8
  isFinished : Int
  hasError : Bool
  request : HttpRequest
  deriving DecidableEq, Repr

/-- The calls one after the other, up to one that does not return. -/
def HttpRequestParser.results (m : HttpRequestParser) : List Input → List (Except Fault Observed)
  | [] => []
  | input :: rest =>
    match m.execute input.data input.len with
    | .error f => [.error f]
    | .ok (offset, data, m') =>
      .ok ⟨offset, data, m'.isFinished, m'.hasError, m'.data⟩ :: m'.results rest

/-! ### The edges of `more_delims` -/

theorem rows_relaxed_last :
    ∀ row ∈ rows, row.2.Pairwise fun e e' => e.relaxed = true → e'.relaxed = true := by decide +kernel

theorem admits_of_not_relaxed {e : Edge} (plain : e.relaxed = false) (uriRelaxed : Bool) (c : UInt8) :
    e.admits uriRelaxed c = e.admits false c := by
  simp [Edge.admits, plain]

theorem admits_false {e : Edge} (loose : e.relaxed = true) (c : UInt8) : e.admits false c = false := by
  simp [Edge.admits, loose]

/-- In a row whose relaxed edges come last, they only take what no other edge takes. -/
theorem find_relaxed {l : List Edge} {c : UInt8} {e : Edge}
    (last : l.Pairwise fun e e' => e.relaxed = true → e'.relaxed = true)
    (found : l.find? (·.admits false c) = some e) : l.find? (·.admits true c) = some e := by
  induction l with
  | nil => cases found
  | cons h l ih =>
    obtain ⟨later, rest⟩ := List.pairwise_cons.mp last
    cases loose : h.relaxed with
    | true =>
      have admitted := List.find?_some found
      have member := List.mem_of_find?_eq_some found
      have relaxed : e.relaxed = true := by
        rcases List.mem_cons.mp member with rfl | behind
        · exact loose
        · exact later e behind loose
      rw [admits_false relaxed] at admitted
      cases admitted
    | false =>
      rw [List.find?_cons] at found ⊢
      rw [admits_of_not_relaxed loose true c]
      cases here : h.admits false c with
      | true => rw [here] at found; exact found
      | false => rw [here] at found; exact ih rest found

theorem edge_relaxed {cs : Nat} {c : UInt8} {e : Edge} (found : edge false cs c = some e) :
    edge true cs c = some e := by
  unfold edge at found ⊢
  split at found
  · cases found
  · rename_i row hrow
    exact find_relaxed (rows_relaxed_last row (List.mem_of_find?_eq_some hrow)) found

/-- The byte is admitted by a relaxed edge only. -/
def Loose (cs : Nat) (c : UInt8) : Prop := edge true cs c ≠ edge false cs c

instance (cs : Nat) (c : UInt8) : Decidable (Loose cs c) := inferInstanceAs (Decidable (_ ≠ _))

theorem Loose.edges {cs : Nat} {c : UInt8} (loose : Loose cs c) :
    edge false cs c = none ∧ ∃ e, edge true cs c = some e := by
  cases strict : edge false cs c with
  | some e => exact absurd ((edge_relaxed strict).trans strict.symm) loose
  | none =>
    cases relaxed : edge true cs c with
    | none => exact absurd (relaxed.trans strict.symm) loose
    | some e => exact ⟨rfl, e, rfl⟩

/-- The error state, the states of the header fields and the final states: no relaxed edge is left. -/
def late (cs : Nat) : Bool := [0, 13, 14, 15, 16, 17, 18, 348, 349].contains cs

theorem rows_late : ∀ row ∈ rows, ∀ e ∈ row.2, late row.1 = true → late e.target = true ∧ e.relaxed = false := by
  decide +kernel

theorem rows_final : ∀ row ∈ rows, ∀ e ∈ row.2, 348 ≤ e.target → late e.target = true := by decide +kernel

theorem late_of_final {uriRelaxed : Bool} {cs : Nat} {c : UInt8} {e : Edge}
    (taken : edge uriRelaxed cs c = some e) (final : 348 ≤ e.target) : late e.target = true :=
  edge_holds (P := fun _ e => 348 ≤ e.target → late e.target = true) rows_final taken final

theorem late_target {uriRelaxed : Bool} {cs : Nat} {c : UInt8} {e : Edge} (settled : late cs = true)
    (taken : edge uriRelaxed cs c = some e) : late e.target = true :=
  (edge_holds (P := fun cs e => late cs = true → late e.target = true ∧ e.relaxed = false) rows_late taken settled).1

theorem late_edge {cs : Nat} (settled : late cs = true) (c : UInt8) : ¬ Loose cs c := by
  intro loose
  obtain ⟨strict, e, relaxed⟩ := loose.edges
  have plain := (edge_holds (P := fun cs e => late cs = true → late e.target = true ∧ e.relaxed = false)
    rows_late relaxed settled).2
  unfold edge at strict relaxed
  split at strict
  · rename_i absent
    rw [absent] at relaxed
    cases relaxed
  · rename_i row found
    rw [found] at relaxed
    have admitted := List.find?_some relaxed
    rw [admits_of_not_relaxed plain] at admitted
    have rejected := List.find?_eq_none.mp strict e (List.mem_of_find?_eq_some relaxed)
    exact rejected admitted

/-! ### The calls that no relaxed edge decides -/

/-- Why the machine alone ends a walk early: at a byte that only a relaxed edge admits, or where the
call ends in an exception. -/
inductive Ending where
  | loose
  | wrapped
  deriving DecidableEq, Repr

namespace Walk

def strictStep (c : UInt8) (w : Walk) : Except Ending (Move Walk) :=
  if Loose w.cs c then .error .loose
  else
    match w.step false c with
    | .error _ => .error .wrapped
    | .ok move => .ok move

theorem strictStep_error {c : UInt8} {w : Walk} (tight : ¬ Loose w.cs c) (failed : w.step false c = .error ()) :
    strictStep c w = .error .wrapped := by
  rw [strictStep, if_neg tight, failed]

theorem strictStep_ok {c : UInt8} {w : Walk} {move : Move Walk} (tight : ¬ Loose w.cs c)
    (stepped : w.step false c = .ok move) : strictStep c w = .ok move := by
  rw [strictStep, if_neg tight, stepped]

/-- No call reads a byte that only a relaxed edge admits. Once the machine has stopped no such edge is
left, and a call whose length is no `int` reads nothing. -/
def strict (w : Walk) : List Input → Bool
  | [] => true
  | input :: inputs =>
    if 2 ^ 31 ≤ input.len then true
    else match scan strictStep (input.data.take input.len) { w with p := 0 } with
    | .error .loose => false
    | .error .wrapped => true
    | .ok (.stop _) => true
    | .ok (.next w') => w'.strict inputs

end Walk

/-! ### Two parsers side by side -/

namespace HttpRequestParser

variable {u u' : Bool} {buffer rest : List UInt8} {len p : Nat} {c : UInt8} {fl fl' : Flags} {a : Action}
  {as : List Action} {m m' : HttpRequestParser} {s s' : Locals} {w : Walk}

/-- The same parser but for `uri_relaxed`, and for `query_start` as long as no query has been started. -/
structure Twin (fl : Flags) (m m' : HttpRequestParser) : Prop where
  parsed : m'.toParsed = m.toParsed
  parser : m'.parser =
    { m.parser with queryStart := m'.parser.queryStart, uriRelaxed := m'.parser.uriRelaxed }
  query : fl.queried = true → m'.parser.queryStart = m.parser.queryStart

theorem Twin.callback (twin : Twin fl m m') (permits : fl.permits a = true) (d : Parsed) :
    callback buffer p a m'.parser d = callback buffer p a m.parser d := by
  rw [twin.parser]
  cases a with
  | queryString => rw [HttpRequestParser.callback, HttpRequestParser.callback, twin.query permits]
  | _ => rfl

theorem Twin.registers (twin : Twin fl m m') (p : Nat) (a : Action) (d : Parsed) :
    Twin (fl.after a) ⟨d, registers p a m.parser⟩ ⟨d, registers p a m'.parser⟩ where
  parsed := rfl
  parser := by
    rw [twin.parser]
    cases a with
    | done =>
      unfold HttpRequestParser.registers
      dsimp only
      split <;> rfl
    | _ => rfl
  query := by
    intro queried
    cases a with
    | startQuery => rfl
    | done =>
      unfold HttpRequestParser.registers
      dsimp only
      rw [twin.parser]
      split <;> exact twin.query queried
    | _ => exact twin.query queried

theorem perform_twin (buffer : List UInt8) (flow : Flags.follow as fl = some fl') (twin : Twin fl m m') :
    (∃ f, perform buffer p as m = .error f ∧ perform buffer p as m' = .error f) ∨
    ∃ n n', perform buffer p as m = .ok n ∧ perform buffer p as m' = .ok n' ∧ Twin fl' n n' := by
  induction as generalizing m m' fl with
  | nil =>
    obtain rfl := Option.some.inj flow
    exact .inr ⟨m, m', rfl, rfl, twin⟩
  | cons a as ih =>
    rw [Flags.follow] at flow
    split at flow
    · rename_i permits
      rw [perform, perform, twin.callback permits, twin.parsed]
      cases returned : HttpRequestParser.callback buffer p a m.parser m.toParsed with
      | error f => exact .inl ⟨f, rfl, rfl⟩
      | ok d => exact ih flow (twin.registers p a d)
    · cases flow

theorem Twin.mono (twin : Twin fl m m') (queried : fl'.queried = true → fl.queried = true) : Twin fl' m m' :=
  ⟨twin.parsed, twin.parser, fun started => twin.query (queried started)⟩

/-- Two calls in the same place of the same buffer. -/
structure Pair (u u' : Bool) (s s' : Locals) : Prop where
  cs : s'.cs = s.cs
  position : s'.p = s.p
  relaxed : s.owner.parser.uriRelaxed = u
  relaxed' : s'.owner.parser.uriRelaxed = u'
  twin : Twin (.of s.cs) s.owner s'.owner

theorem perform_relaxed (performed : perform buffer p as m = .ok m') :
    m'.parser.uriRelaxed = m.parser.uriRelaxed :=
  perform_invariant (P := fun r => r.uriRelaxed = m.parser.uriRelaxed)
    (fun a _ r held => (registers_uriRelaxed _ a r).trans held) performed rfl

theorem step_pair (buffer : List UInt8) (pair : Pair u u' s s') (same : edge u' s.cs c = edge u s.cs c) :
    (∃ f, step buffer c s = .error f ∧ step buffer c s' = .error f) ∨
    ∃ move move', step buffer c s = .ok move ∧ step buffer c s' = .ok move' ∧
      move.Rel (Pair u u') (Pair u u') move' := by
  obtain ⟨cs, position, relaxed, relaxed', twin⟩ := pair
  have edge_s : edge s.owner.parser.uriRelaxed s.cs c = edge u s.cs c := by rw [relaxed]
  have edge_s' : edge s'.owner.parser.uriRelaxed s'.cs c = edge u s.cs c := by rw [relaxed', cs, same]
  cases taken : edge u s.cs c with
  | none =>
    refine .inr ⟨_, _, follow_iff.mpr (.rejected (edge_s.trans taken)),
      follow_iff.mpr (.rejected (edge_s'.trans taken)), .stop ⟨rfl, position, relaxed, relaxed', ?_⟩⟩
    exact twin.mono (by simp [Flags.of])
  | some e =>
    obtain ⟨fl, flow, _, queried⟩ := Flags.edge_respects taken
    rcases perform_twin (p := s.p) buffer flow twin with ⟨f, failed, failed'⟩ | ⟨n, n', performed, performed', twin'⟩
    · rw [← position] at failed'
      refine .inl ⟨f, ?_, ?_⟩
      · exact follow_error.mpr ⟨e, edge_s.trans taken, failed⟩
      · exact follow_error.mpr ⟨e, edge_s'.trans taken, failed'⟩
    · rw [← position] at performed'
      have together : Pair u u' ⟨s.p + 1, e.target, n⟩ ⟨s'.p + 1, e.target, n'⟩ :=
        ⟨rfl, congrArg Nat.succ position, (perform_relaxed performed).trans relaxed,
          (perform_relaxed performed').trans relaxed', twin'.mono queried⟩
      by_cases done : .done ∈ e.actions
      · exact .inr ⟨_, _, follow_iff.mpr (.finished (edge_s.trans taken) performed done),
          follow_iff.mpr (.finished (edge_s'.trans taken) performed' done), .stop together⟩
      · exact .inr ⟨_, _, follow_iff.mpr (.advanced (edge_s.trans taken) performed done),
          follow_iff.mpr (.advanced (edge_s'.trans taken) performed' done), .next together⟩

/-! ### Machines that cannot part any more -/

theorem scan_stop_late {t : Locals} (run : scan (step buffer) rest s = .ok (.stop t)) : late t.cs = true := by
  refine scan_holds (N := fun _ _ => True) (J := fun t => late t.cs = true) (fun c _ s move _ run => ?_) trivial run
  cases follow_iff.mp run with
  | rejected => rfl
  | finished taken performed done => exact late_of_final taken ((edge_ordinary taken).1.mp done)
  | advanced => trivial

theorem step_late {move : Move Locals} (settled : late s.cs = true) (run : step buffer c s = .ok move) :
    late move.state.cs = true := by
  cases follow_iff.mp run with
  | rejected => rfl
  | finished taken => exact late_target settled taken
  | advanced taken => exact late_target settled taken

theorem scan_pair (buffer : List UInt8) (pair : Pair u u' s s') (never : u = u' ∨ late s.cs = true) :
    (∃ f, scan (step buffer) rest s = .error f ∧ scan (step buffer) rest s' = .error f) ∨
    ∃ move move', scan (step buffer) rest s = .ok move ∧ scan (step buffer) rest s' = .ok move' ∧
      Pair u u' move.state move'.state ∧ (u = u' ∨ late move.state.cs = true) := by
  induction rest generalizing s s' with
  | nil => exact .inr ⟨_, _, rfl, rfl, pair, never⟩
  | cons c rest ih =>
    have same : edge u' s.cs c = edge u s.cs c := by
      rcases never with rfl | settled
      · rfl
      · have equal := not_not.mp (late_edge settled c)
        cases u <;> cases u' <;> first | rfl | exact equal | exact equal.symm
    rw [scan, scan]
    rcases step_pair buffer pair same with ⟨f, failed, failed'⟩ | ⟨move, move', stepped, stepped', rel⟩
    · rw [failed, failed']
      exact .inl ⟨f, rfl, rfl⟩
    · have never' : u = u' ∨ late move.state.cs = true := never.imp_right fun settled => step_late settled stepped
      rw [stepped, stepped']
      cases rel with
      | next pair' => exact ih pair' never'
      | stop pair' => exact .inr ⟨_, _, rfl, rfl, pair', never'⟩

/-- Two parsers between two calls. -/
structure Peers (u u' : Bool) (m m' : HttpRequestParser) : Prop where
  relaxed : m.parser.uriRelaxed = u
  relaxed' : m'.parser.uriRelaxed = u'
  twin : Twin (.of m.parser.cs) m m'

theorem peers_new (junk junk' : Uninit) : Peers junk.uriRelaxed junk'.uriRelaxed (new junk) (new junk') where
  relaxed := rfl
  relaxed' := rfl
  twin := ⟨rfl, rfl, by simp [new, httpParserInit, Flags.of]⟩

theorem Peers.cs (peers : Peers u u' m m') : m'.parser.cs = m.parser.cs := by rw [peers.twin.parser]

theorem Peers.pair (peers : Peers u u' m m') :
    Pair u u' ⟨0, m.parser.cs, m.reset⟩ ⟨0, m'.parser.cs, m'.reset⟩ where
  cs := peers.cs
  position := rfl
  relaxed := peers.relaxed
  relaxed' := peers.relaxed'
  twin := by
    refine ⟨peers.twin.parsed, ?_, peers.twin.query⟩
    unfold reset
    dsimp only
    rw [peers.twin.parser]

theorem Peers.leave (peers : Peers u u' m m') (pair : Pair u u' s s') : Peers u u' (m.leave s) (m'.leave s') where
  relaxed := pair.relaxed
  relaxed' := pair.relaxed'
  twin := by
    refine ⟨pair.twin.parsed, ?_, fun queried => ?_⟩
    · unfold HttpRequestParser.leave
      dsimp only
      rw [pair.twin.parser, pair.cs, pair.position, peers.cs]
    · by_cases failed : m.parser.cs = 0
      · simp [HttpRequestParser.leave, failed, Flags.of] at queried
      · rw [HttpRequestParser.leave, if_neg failed] at queried
        exact pair.twin.query queried

theorem Peers.assertions (peers : Peers u u' m m') (len : Nat) :
    assertions m'.parser len = assertions m.parser len := by
  rw [peers.twin.parser]
  rfl

/-- What is seen after a call that consumed `n` bytes. -/
def observe (input : Input) (n : Nat) (m : HttpRequestParser) : Observed :=
  ⟨n, overwrite input.data 0 ((input.data.take input.len).drop n), m.isFinished, m.hasError, m.data⟩

theorem Peers.observe (peers : Peers u u' m m') (input : Input) (n : Nat) :
    observe input n m' = observe input n m := by
  unfold HttpRequestParser.observe isFinished hasError
  rw [peers.cs, peers.twin.parsed]

theorem results_error {input : Input} {inputs : List Input} {f : Fault}
    (failed : m.httpParserExecute input.data input.len = .error f) : m.results (input :: inputs) = [.error f] := by
  rw [results, execute, failed]

theorem results_ok {input : Input} {inputs : List Input} {n : Nat} {m₁ : HttpRequestParser}
    (ran : m.httpParserExecute input.data input.len = .ok (n, m₁)) :
    m.results (input :: inputs) = .ok (HttpRequestParser.observe input n m₁) :: m₁.results inputs := by
  rw [results, execute, ran]
  rfl

theorem results_large {input : Input} (inputs : List Input) (large : 2 ^ 31 ≤ input.len)
    (m : HttpRequestParser) : m.results (input :: inputs) = [.error .assertion] :=
  results_error (execute_large large)

theorem execute_pair {move move' : Move Locals} (peers : Peers u u' m m') (started : len ≠ 0)
    (small : len < 2 ^ 31)
    (run : scan (step buffer) (buffer.take len) ⟨0, m.parser.cs, m.reset⟩ = .ok move)
    (run' : scan (step buffer) (buffer.take len) ⟨0, m'.parser.cs, m'.reset⟩ = .ok move')
    (pair : Pair u u' move.state move'.state) :
    (∃ f, m.httpParserExecute buffer len = .error f ∧ m'.httpParserExecute buffer len = .error f) ∨
    ∃ n, m.httpParserExecute buffer len = .ok (n, m.leave move.state) ∧
      m'.httpParserExecute buffer len = .ok (n, m'.leave move'.state) := by
  have peers' := peers.leave pair
  unfold httpParserExecute
  rw [if_neg started, if_neg started, if_neg (by omega), if_neg (by omega), run, run']
  dsimp only
  rw [peers'.assertions]
  split
  · refine .inr ⟨_, rfl, ?_⟩
    rw [peers'.twin.parser]
  · exact .inl ⟨_, rfl, rfl⟩

theorem results_empty {input : Input} (inputs : List Input) (empty : input.len = 0) (m : HttpRequestParser) :
    m.results (input :: inputs) = .ok (HttpRequestParser.observe input 0 m) :: m.results inputs :=
  results_ok (by rw [httpParserExecute, if_pos empty])

theorem execute_error {f : Fault} (started : len ≠ 0) (small : len < 2 ^ 31)
    (failed : scan (step buffer) (buffer.take len) ⟨0, m.parser.cs, m.reset⟩ = .error f) :
    m.httpParserExecute buffer len = .error f := by
  rw [httpParserExecute, if_neg started, if_neg (by omega), failed]

theorem leave_late {t : Locals} (settled : late t.cs = true) : late (m.leave t).parser.cs = true := by
  rw [HttpRequestParser.leave]
  dsimp only
  split
  · rfl
  · exact settled

theorem results_together (inputs : List Input) (peers : Peers u u' m m')
    (never : u = u' ∨ late m.parser.cs = true) : m.results inputs = m'.results inputs := by
  induction inputs generalizing m m' with
  | nil => rfl
  | cons input inputs ih =>
    by_cases empty : input.len = 0
    · rw [results_empty inputs empty, results_empty inputs empty, peers.observe, ih peers never]
    by_cases large : 2 ^ 31 ≤ input.len
    · rw [results_large inputs large, results_large inputs large]
    have small := Nat.lt_of_not_le large
    rcases scan_pair input.data peers.pair never with ⟨f, failed, failed'⟩ | ⟨move, move', run, run', pair, never'⟩
    · rw [results_error (execute_error empty small failed), results_error (execute_error empty small failed')]
    · rcases execute_pair peers empty small run run' pair with ⟨f, failed, failed'⟩ | ⟨n, ran, ran'⟩
      · rw [results_error failed, results_error failed']
      · have settled : u = u' ∨ late (m.leave move.state).parser.cs = true := never'.imp_right leave_late
        rw [results_ok ran, results_ok ran', (peers.leave pair).observe, ih (peers.leave pair) settled]

/-! ### A strict and a relaxed parser -/

theorem scan_position {k : Nat} {move : Move Locals} (run : scan (step buffer) rest s = .ok move)
    (start : k ≤ s.p) : k ≤ move.state.p := by
  have held := scan_holds (N := fun _ t => k ≤ t.p) (J := fun t => k ≤ t.p) (fun c l s move le run => ?_) start run
  · cases move <;> exact held
  · cases follow_iff.mp run with
    | rejected => exact le
    | finished => exact Nat.le_succ_of_le le
    | advanced => exact Nat.le_succ_of_le le

/-- At a byte that only a relaxed edge admits, the strict parser stops and the relaxed one goes on. -/
theorem scan_loose (rest buffer : List UInt8) (pair : Pair false true s s') (loose : Loose s.cs c) :
    scan (step buffer) (c :: rest) s = .ok (.stop { s with cs := 0 }) ∧
      ∀ move', scan (step buffer) (c :: rest) s' = .ok move' → s.p < move'.state.p := by
  obtain ⟨strict, e, relaxed⟩ := loose.edges
  have dead : edge s.owner.parser.uriRelaxed s.cs c = none := by rw [pair.relaxed, strict]
  have taken : edge s'.owner.parser.uriRelaxed s'.cs c = some e := by rw [pair.relaxed', pair.cs, relaxed]
  have stops : step buffer c s = .ok (.stop { s with cs := 0 }) := follow_iff.mpr (.rejected dead)
  refine ⟨by rw [scan, stops], fun move' run => ?_⟩
  have position := pair.position
  rw [scan] at run
  split at run
  · cases run
  · rename_i t stepped
    have ahead : s.p < t.p := by
      cases follow_iff.mp stepped
      show s.p < s'.p + 1
      omega
    exact scan_position run ahead
  · rename_i t stepped
    cases run
    cases follow_iff.mp stepped with
    | rejected gone => cases taken.symm.trans gone
    | finished =>
      show s.p < s'.p + 1
      omega

/-- The strict and the relaxed parser over one buffer: they part at the first byte that only a relaxed
edge admits. -/
theorem scan_strict (buffer : List UInt8) (small : len < 2 ^ 64) (abreast : Abreast false len rest s w)
    (pair : Pair false true s s') :
    (scan Walk.strictStep rest w = .error .loose ∧ ∃ t, scan (step buffer) rest s = .ok (.stop t) ∧
      ∀ move', scan (step buffer) rest s' = .ok move' → t.p < move'.state.p) ∨
    (scan Walk.strictStep rest w = .error .wrapped ∧
      ∃ f, scan (step buffer) rest s = .error f ∧ scan (step buffer) rest s' = .error f) ∨
    ∃ moveW move move', scan Walk.strictStep rest w = .ok moveW ∧ scan (step buffer) rest s = .ok move ∧
      scan (step buffer) rest s' = .ok move' ∧ Pair false true move.state move'.state ∧
      move.Rel (Abreast false len []) (fun s w => s.cs = w.cs) moveW := by
  induction rest generalizing s s' w with
  | nil => exact .inr (.inr ⟨_, _, _, rfl, rfl, rfl, pair, .next abreast⟩)
  | cons c rest ih =>
    by_cases loose : Loose w.cs c
    · have strict : scan Walk.strictStep (c :: rest) w = .error .loose := by
        simp only [scan, Walk.strictStep, if_pos loose]
      obtain ⟨stopped, further⟩ := scan_loose rest buffer pair (abreast.cs ▸ loose)
      exact .inl ⟨strict, _, stopped, further⟩
    · have same : edge true s.cs c = edge false s.cs c := by
        rw [abreast.cs]
        exact not_not.mp loose
      rw [scan, scan, scan]
      rcases step_handed buffer small abreast with ⟨moveW, move, walks, stepped, rel, _⟩ | ⟨walks, stepped, _⟩
      · rcases step_pair buffer pair same with ⟨f, failed, _⟩ | ⟨move₁, move', stepped₁, stepped', rel'⟩
        · cases stepped.symm.trans failed
        obtain rfl := Except.ok.inj (stepped.symm.trans stepped₁)
        rw [Walk.strictStep_ok loose walks, stepped, stepped']
        cases rel with
        | next abreast' =>
          cases rel' with
          | next pair' => exact ih abreast' pair'
        | stop cs_eq =>
          cases rel' with
          | stop pair' => exact .inr (.inr ⟨_, _, _, rfl, rfl, rfl, pair', .stop cs_eq⟩)
      · rcases step_pair buffer pair same with ⟨f, failed, failed'⟩ | ⟨move₁, _, stepped₁, _⟩
        · rw [Walk.strictStep_error loose walks, failed, failed']
          exact .inr (.inl ⟨rfl, f, rfl, rfl⟩)
        · cases stepped.symm.trans stepped₁

theorem execute_position {done : Nat × HttpRequestParser} (started : len ≠ 0)
    (ran : m.httpParserExecute buffer len = .ok done) :
    ∃ move, scan (step buffer) (buffer.take len) ⟨0, m.parser.cs, m.reset⟩ = .ok move ∧
      done.1 = move.state.p := by
  rcases httpParserExecute_ok ran with ⟨empty, -⟩ | ⟨-, -, move, run, position, -⟩
  · exact absurd empty started
  · exact ⟨move, run, position⟩

/-- Two calls that stop at different bytes are told apart by what they return. -/
theorem results_parted {input : Input} {inputs : List Input} {t : Locals} {m₁ : HttpRequestParser}
    (started : input.len ≠ 0) (ran : m.httpParserExecute input.data input.len = .ok (t.p, m₁))
    (further : ∀ move', scan (step input.data) (input.data.take input.len) ⟨0, m'.parser.cs, m'.reset⟩ =
      .ok move' → t.p < move'.state.p) :
    m.results (input :: inputs) ≠ m'.results (input :: inputs) := by
  intro equal
  rw [results_ok ran] at equal
  cases ran' : m'.httpParserExecute input.data input.len with
  | error f =>
    rw [results_error ran'] at equal
    cases (List.cons.inj equal).1
  | ok done =>
    obtain ⟨move', run', position⟩ := execute_position started ran'
    have beyond := further move' run'
    rw [results_ok ran'] at equal
    have offsets : t.p = done.1 := congrArg Observed.offset (Except.ok.inj (List.cons.inj equal).1)
    omega

theorem results_strict (inputs : List Input) (between : Between false m w) (peers : Peers false true m m') :
    m.results inputs = m'.results inputs ↔ w.strict inputs = true := by
  induction inputs generalizing m m' w with
  | nil => exact ⟨fun _ => rfl, fun _ => rfl⟩
  | cons input inputs ih =>
    have total : (input.data.take input.len).length = input.len := by simp [input.fits]
    rw [Walk.strict]
    by_cases large : 2 ^ 31 ≤ input.len
    · rw [results_large inputs large, results_large inputs large, if_pos large]
      exact ⟨fun _ => rfl, fun _ => rfl⟩
    have small := Nat.lt_of_not_le large
    rw [if_neg large]
    by_cases empty : input.len = 0
    · rw [results_empty inputs empty, results_empty inputs empty, peers.observe, empty, List.take_zero, scan]
      dsimp only
      rw [List.cons_inj_right]
      exact ih ⟨between.cs, between.live, between.relaxed, between.bodyStart, between.queried, between.query⟩ peers
    have started : 0 < input.len := Nat.pos_of_ne_zero empty
    rcases scan_strict input.data (Nat.lt_of_le_of_lt input.fits input.sized) (between.abreast total) peers.pair with
      ⟨walked, t, run, further⟩ | ⟨walked, f, run, run'⟩ | ⟨moveW, move, move', walked, run, run', pair, rel⟩
    · rw [walked]
      have ran := httpParserExecute_eq started small between.bodyStart input.fits run
      exact ⟨fun equal => absurd equal (results_parted empty ran further), fun strict => by cases strict⟩
    · rw [walked, results_error (execute_error empty small run), results_error (execute_error empty small run')]
      exact ⟨fun _ => rfl, fun _ => rfl⟩
    · have ran := httpParserExecute_eq started small between.bodyStart input.fits run
      have peers' := peers.leave pair
      rcases execute_pair peers empty small run run' pair with ⟨f, failed, _⟩ | ⟨n, ran₁, ran'⟩
      · cases ran.symm.trans failed
      obtain ⟨rfl, _⟩ := Prod.mk.inj (Except.ok.inj (ran.symm.trans ran₁))
      rw [results_ok ran, results_ok ran', peers'.observe, List.cons_inj_right, walked]
      cases rel with
      | next abreast => exact ih (between.next started total run abreast) peers'
      | @stop t w' =>
        exact ⟨fun _ => rfl, fun _ => results_together inputs peers' (.inr (leave_late (scan_stop_late run)))⟩

end HttpRequestParser

/-- Two parsers over different memory give the same results exactly when they find the same value in
`uri_relaxed`, or when no call reads a byte that only `more_delims` admits. -/
theorem results_agree_iff (junk junk' : Uninit) (inputs : List Input) :
    (new junk).results inputs = (new junk').results inputs ↔
      junk.uriRelaxed = junk'.uriRelaxed ∨ Walk.start.strict inputs = true := by
  have peers := peers_new junk junk'
  have peers' := peers_new junk' junk
  have between := between_new junk
  have between' := between_new junk'
  cases found : junk.uriRelaxed with
  | false =>
    cases found' : junk'.uriRelaxed with
    | false =>
      rw [found, found'] at peers
      exact ⟨fun _ => .inl rfl, fun _ => results_together inputs peers (.inl rfl)⟩
    | true =>
      rw [found, found'] at peers
      rw [found] at between
      rw [results_strict inputs between peers]
      exact ⟨.inr, fun either => either.resolve_left Bool.false_ne_true⟩
  | true =>
    cases found' : junk'.uriRelaxed with
    | true =>
      rw [found, found'] at peers
      exact ⟨fun _ => .inl rfl, fun _ => results_together inputs peers (.inl rfl)⟩
    | false =>
      rw [found, found'] at peers'
      rw [found'] at between'
      rw [eq_comm, results_strict inputs between' peers']
      exact ⟨.inr, fun either => either.resolve_left Bool.false_ne_true.symm⟩

def braceInPath : Input where
  data := ascii "GET /\x7b HTTP/1.1\r\n\r\n"
  len := 19
  fits := by decide
  sized := by decide

/-- Where `uri_relaxed` is found zero the call stops with an error at the brace, otherwise it reads the
whole request. -/
theorem results_disagree :
    (new ⟨0, false⟩).results [braceInPath] ≠ (new ⟨0, true⟩).results [braceInPath] := by
  decide +kernel

end Cool.Http
