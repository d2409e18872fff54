import Cool.Http.ClientGrammar

/-!
# A response in pieces

`HttpResponseParser::execute` hands every buffer to `httpclient_parser_execute` from its start, while `nread` counts
the bytes of all calls and the registers keep offsets into earlier buffers. A call gets through when the bytes
consumed so far, those of earlier calls with them, fit into the buffer of this call, and no part that ends in this
call starts at a larger offset of an earlier one.
-/

namespace Cool.Http

open Foundation

namespace Client

/-- The number of bytes that the machine takes of the data. -/
def taken (cs : Nat) : List UInt8 → Nat
  | [] => 0
  | c :: rest =>
    match move cs c with
    | none => 0
    | some (target, actions) => if .done ∈ actions then 1 else 1 + taken target rest

/-- The actions on the way, each at its offset. -/
def doings (cs p : Nat) : List UInt8 → List (Nat × Action)
  | [] => []
  | c :: rest =>
    match move cs c with
    | none => []
    | some (target, actions) => actions.map (p, ·) ++ if .done ∈ actions then [] else doings target (p + 1) rest

/-! ### From a name to its value -/

/-- Between the end of a field's name and the end of its value. -/
def pendingStates : List Nat := [6, 7] ++ colonStates ++ valueStates

def quiet : Action → Bool
  | .mark | .writeContentLen => true
  | _ => false

/-- The actions write a value, or change no field and lead to a state where its value is still to come. -/
def holdsField (actions : List Action) (target : Nat) : Bool :=
  match actions.dropWhile quiet with
  | [] => pendingStates.contains target
  | a :: _ => a == .writeValue

theorem rows_hold : ∀ row ∈ rows, ∀ e ∈ row.2,
    (row.1 ∈ pendingStates → holdsField e.actions e.target = true) ∧
    (.writeField ∈ e.actions → e.actions.head? = some .writeField ∧ holdsField e.actions.tail e.target = true) := by
  decide +kernel

theorem move_holds {cs target : Nat} {c : UInt8} {actions : List Action} (moved : move cs c = some (target, actions)) :
    (cs ∈ pendingStates → holdsField actions target = true) ∧
    (.writeField ∈ actions → ∃ rest, actions = .writeField :: rest ∧ holdsField rest target = true) := by
  unfold move at moved
  split at moved
  · cases moved
  · rename_i row found
    obtain ⟨e, edge, same⟩ := Option.map_eq_some_iff.mp moved
    cases same
    have here : row.1 = cs := by
      simpa using List.find?_some found
    obtain ⟨inside, writes⟩ := rows_hold row (List.mem_of_find?_eq_some found) e (List.mem_of_find?_eq_some edge)
    rw [here] at inside
    refine ⟨inside, ?_⟩
    intro written
    obtain ⟨head, held⟩ := writes written
    obtain ⟨rest, split⟩ := List.head?_eq_some_iff.mp head
    refine ⟨rest, split, ?_⟩
    rwa [split] at held

end Client

namespace HttpResponseParser

open Client (taken doings pendingStates holdsField quiet move_holds)

/-- What an action needs of the registers: a part that ends at `p` starts before it, and the name of a field whose
value ends there lies in the buffer. -/
def Admits (size p : Nat) (a : Client.Action) (r : HttpclientParser) : Prop :=
  match a with
  | .writeField => r.fieldStart ≤ p
  | .reasonPhrase => r.mark ≤ p
  | .writeValue => r.fieldLen = 0 ∨ (r.fieldStart + r.fieldLen ≤ size ∧ r.mark ≤ p)
  | _ => True

/-- Every action has what it needs, of the registers that are kept from earlier calls and of those that the actions
before it have set. -/
def Ordered (size : Nat) : List (Nat × Client.Action) → HttpclientParser → Prop
  | [], _ => True
  | (p, a) :: rest, r => Admits size p a r ∧ Ordered size rest (registers p a r)

/-- The parsers that calls of `execute` lead to. -/
inductive Reached : HttpResponseParser → Prop
  | new : Reached .new
  | execute {m m' : HttpResponseParser} {buffer buffer' : List UInt8} {len offset : Nat} :
      Reached m → m.execute buffer len = .ok (offset, buffer', m') → Reached m'

/-- What is expected of a call: the offset lies in the data, and the `memmove` changes nothing behind it. -/
structure Contained (buffer : List UInt8) (len : Nat) (result : Nat × List UInt8 × HttpResponseParser) : Prop where
  offset : result.1 ≤ len
  length : result.2.1.length = buffer.length
  behind : result.2.1.drop len = buffer.drop len

def Safe (m : HttpResponseParser) (buffer : List UInt8) (len : Nat) : Prop :=
  ∃ result, m.execute buffer len = .ok result ∧ Contained buffer len result

/-- The registers point behind nothing that was consumed, `p` bytes of them in this call. The length of a field
does not wrap before a second call. -/
structure Behind (r : HttpclientParser) (p : Nat) : Prop where
  mark : r.mark < max (r.nread + p) 1
  fieldStart : r.fieldStart < max (r.nread + p) 1
  bodyStart : r.bodyStart ≤ r.nread + p
  fieldLen : r.nread = 0 → r.fieldLen ≤ p

variable {buffer l : List UInt8} {c : UInt8} {p len : Nat} {a : Client.Action} {as : List Client.Action}
  {r : HttpclientParser} {d : ParsedResponse} {m m' : HttpResponseParser} {s : Locals} {f : ClientFault}

/-! ### The registers -/

theorem Behind.succ (behind : Behind r p) : Behind r (p + 1) := by
  obtain ⟨mark, fieldStart, bodyStart, fieldLen⟩ := behind
  refine ⟨?_, ?_, ?_, fun first => ?_⟩
  · omega
  · omega
  · omega
  · have := fieldLen first
    omega

theorem distance_of_le {start : Nat} (below : start ≤ p) : distance start p = p - start := if_pos below

theorem registers_nread (p : Nat) (a : Client.Action) (r : HttpclientParser) : (registers p a r).nread = r.nread := by
  cases a <;> rfl

theorem registers_behind (behind : Behind r (p + 1)) : Behind (registers p a r) (p + 1) := by
  obtain ⟨mark, fieldStart, bodyStart, fieldLen⟩ := behind
  cases a with
  | mark =>
    refine ⟨?_, fieldStart, bodyStart, fieldLen⟩
    show p < max (r.nread + (p + 1)) 1
    omega
  | startField =>
    refine ⟨mark, ?_, bodyStart, fieldLen⟩
    show p < max (r.nread + (p + 1)) 1
    omega
  | writeField =>
    refine ⟨mark, fieldStart, bodyStart, fun first => ?_⟩
    -- In the first call the field starts in this buffer.
    have first : r.nread = 0 := first
    show distance r.fieldStart p ≤ p + 1
    rw [distance_of_le (by omega)]
    omega
  | done =>
    refine ⟨mark, fieldStart, ?_, fieldLen⟩
    show p + 1 ≤ r.nread + (p + 1)
    omega
  | _ => exact ⟨mark, fieldStart, bodyStart, fieldLen⟩

theorem perform_behind (behind : Behind m.parser (p + 1)) (performed : perform buffer p as m = .ok m') :
    Behind m'.parser (p + 1) ∧ m'.parser.nread = m.parser.nread := by
  induction as generalizing m with
  | nil =>
    cases performed
    exact ⟨behind, rfl⟩
  | cons a as ih =>
    rw [perform] at performed
    split at performed
    · cases performed
    · obtain ⟨after, count⟩ := ih (registers_behind behind) performed
      exact ⟨after, count.trans (registers_nread p a m.parser)⟩

/-! ### Faults of the first call -/

theorem text_fault {start length : Nat} (small : length < 2 ^ 63) (failed : text buffer start length = .error f) :
    f = .outside := by
  rw [text, if_neg (Nat.not_le.mpr small)] at failed
  split at failed <;> cases failed
  rfl

theorem pointer_fault {start : Nat} (failed : pointer buffer start = .error f) : f = .outside := by
  unfold pointer at failed
  split at failed <;> cases failed
  rfl

theorem map_fault {α β : Type} {x : Except ClientFault α} {g : α → β} (failed : x.map g = .error f) : x = .error f := by
  cases x with
  | error e => exact congrArg _ (Except.error.inj failed)
  | ok => cases failed

theorem callback_fault (behind : Behind r (p + 1)) (first : r.nread = 0) (small : p < 2 ^ 31)
    (failed : callback buffer p a r d = .error f) : f = .outside := by
  have mark := behind.mark
  have length := behind.fieldLen first
  have marked : distance r.mark p < 2 ^ 63 := by
    rw [distance_of_le (by omega)]
    omega
  cases a with
  | writeValue =>
    simp only [callback, ParsedResponse.onResponseHttpField] at failed
    split at failed
    · cases failed
    · split at failed
      · rename_i failure
        cases failed
        exact text_fault (by omega) failure
      · rename_i failure
        cases failed
        exact text_fault marked failure
      · cases failed
  | reasonPhrase => exact text_fault marked (map_fault failed)
  | statusCode => exact pointer_fault (map_fault failed)
  | httpVersion => exact pointer_fault (map_fault failed)
  | _ => cases failed

theorem perform_fault (behind : Behind m.parser (p + 1)) (first : m.parser.nread = 0) (small : p < 2 ^ 31)
    (failed : perform buffer p as m = .error f) : f = .outside := by
  induction as generalizing m with
  | nil => cases failed
  | cons a as ih =>
    rw [perform] at failed
    split at failed
    · rename_i failure
      cases failed
      exact callback_fault behind first small failure
    · exact ih (registers_behind behind) ((registers_nread p a m.parser).trans first) failed

/-! ### One call -/

/-- While `l` is left of `len` bytes, after calls that consumed `n`. -/
structure Running (n len : Nat) (l : List UInt8) (s : Locals) : Prop where
  behind : Behind s.owner.parser s.p
  count : s.owner.parser.nread = n
  position : s.p + l.length = len

structure Stopped (n len : Nat) (s : Locals) : Prop where
  behind : Behind s.owner.parser s.p
  count : s.owner.parser.nread = n
  position : s.p ≤ len

variable {n : Nat}

theorem step_running (move : Move Locals) (running : Running n len (c :: l) s) (stepped : step buffer c s = .ok move) :
    move.Holds (Running n len l) (Stopped n len) := by
  obtain ⟨behind, count, position⟩ := running
  rw [List.length_cons] at position
  cases follow_iff.mp stepped with
  | rejected => exact ⟨behind, count, by show s.p ≤ len; omega⟩
  | finished _ performed =>
    obtain ⟨after, same⟩ := perform_behind behind.succ performed
    exact ⟨after, same.trans count, by show s.p + 1 ≤ len; omega⟩
  | advanced _ performed =>
    obtain ⟨after, same⟩ := perform_behind behind.succ performed
    exact ⟨after, same.trans count, by show s.p + 1 + l.length = len; omega⟩

theorem step_fault (small : len < 2 ^ 31) (running : Running 0 len (c :: l) s)
    (stepped : step buffer c s = .error f) : f = .outside := by
  have position := running.position
  rw [List.length_cons] at position
  obtain ⟨e, _, failed⟩ := follow_error.mp stepped
  exact perform_fault running.behind.succ running.count (by omega) failed

def run (m : HttpResponseParser) (buffer : List UInt8) (len : Nat) : Except ClientFault (Move Locals) :=
  scan (step buffer) (buffer.take len) ⟨0, m.parser.cs, m⟩

theorem running_start (behind : Behind m.parser 0) (ended : buffer[len]? = some 0) :
    Running m.parser.nread len (buffer.take len) ⟨0, m.parser.cs, m⟩ := by
  have within : len < buffer.length := (List.getElem?_eq_some_iff.mp ended).1
  refine ⟨behind, rfl, ?_⟩
  show 0 + (buffer.take len).length = len
  rw [List.length_take]
  omega

theorem run_stopped {move : Move Locals} (behind : Behind m.parser 0) (ended : buffer[len]? = some 0)
    (ran : m.run buffer len = .ok move) : Stopped m.parser.nread len move.state := by
  have holds := scan_holds (fun _ _ _ => step_running) (running_start behind ended) ran
  cases move with
  | next s => exact ⟨holds.behind, holds.count, Nat.le_of_eq holds.position⟩
  | stop s => exact holds

theorem run_fault (behind : Behind m.parser 0) (first : m.parser.nread = 0) (ended : buffer[len]? = some 0)
    (small : len < 2 ^ 31) (ran : m.run buffer len = .error f) : f = .outside := by
  have start := running_start behind ended
  rw [first] at start
  exact scan_faults (fun _ _ _ => step_running) (fun _ _ _ _ => step_fault small) start ran

theorem Behind.leave (stopped : Stopped n len s) : Behind (leave s).parser 0 := by
  obtain ⟨⟨mark, fieldStart, bodyStart, fieldLen⟩, count, _⟩ := stopped
  refine ⟨mark, fieldStart, bodyStart, fun first => ?_⟩
  have none : s.owner.parser.nread + s.p = 0 := first
  have length := fieldLen (by omega)
  show s.owner.parser.fieldLen ≤ 0
  omega

theorem execute_error (ended : buffer[len]? = some 0) (small : len < 2 ^ 31) (ran : m.run buffer len = .error f) :
    m.execute buffer len = .error f := by
  rw [execute, httpclientParserExecute, if_neg (not_not.mpr ended), if_neg (Nat.not_le.mpr small)]
  rw [run] at ran
  rw [ran]

theorem execute_ok {move : Move Locals} (ended : buffer[len]? = some 0) (small : len < 2 ^ 31)
    (ran : m.run buffer len = .ok move) :
    m.execute buffer len =
      if assertions (leave move.state).parser len then
        if checks (leave move.state).parser len then
          .ok ((leave move.state).parser.nread,
            overwrite buffer 0 ((buffer.take len).drop (leave move.state).parser.nread), leave move.state)
        else .error .memmove
      else .error .assertion := by
  rw [execute, httpclientParserExecute, if_neg (not_not.mpr ended), if_neg (Nat.not_le.mpr small)]
  rw [run] at ran
  rw [ran]
  dsimp only
  by_cases asserted : assertions (leave move.state).parser len
  · rw [if_pos asserted, if_pos asserted]
    by_cases checked : checks (leave move.state).parser len
    · rw [if_pos checked, if_pos checked]
    · rw [if_neg checked, if_neg checked]
  · rw [if_neg asserted, if_neg asserted]

theorem execute_small {result : Nat × List UInt8 × HttpResponseParser} (done : m.execute buffer len = .ok result) :
    buffer[len]? = some 0 ∧ len < 2 ^ 31 := by
  rw [execute, httpclientParserExecute] at done
  by_cases ended : buffer[len]? = some 0
  · by_cases small : 2 ^ 31 ≤ len
    · rw [if_neg (not_not.mpr ended), if_pos small] at done
      cases done
    · exact ⟨ended, Nat.not_le.mp small⟩
  · rw [if_pos ended] at done
    cases done

/-- A call that returns has run, and what was consumed fits. -/
theorem execute_inv {result : Nat × List UInt8 × HttpResponseParser} (done : m.execute buffer len = .ok result) :
    ∃ move, m.run buffer len = .ok move ∧ result.1 = (leave move.state).parser.nread ∧
      result.2.1 = overwrite buffer 0 ((buffer.take len).drop (leave move.state).parser.nread) ∧
      result.2.2 = leave move.state ∧ assertions (leave move.state).parser len = true ∧
      checks (leave move.state).parser len = true := by
  obtain ⟨ended, small⟩ := execute_small done
  cases ran : m.run buffer len with
  | error f =>
    rw [execute_error ended small ran] at done
    cases done
  | ok move =>
    rw [execute_ok ended small ran] at done
    split at done
    · rename_i asserted
      split at done
      · rename_i checked
        cases done
        exact ⟨move, rfl, rfl, rfl, rfl, asserted, checked⟩
      · cases done
    · cases done

theorem contained_overwrite {offset : Nat} (ended : buffer[len]? = some 0) (within : offset ≤ len)
    (m' : HttpResponseParser) :
    Contained buffer len (offset, overwrite buffer 0 ((buffer.take len).drop offset), m') := by
  have long : len < buffer.length := (List.getElem?_eq_some_iff.mp ended).1
  have moved : ((buffer.take len).drop offset).length = len - offset := by
    rw [List.length_drop, List.length_take]
    omega
  refine ⟨within, length_overwrite _ _ _, ?_⟩
  show (overwrite buffer 0 _).drop len = buffer.drop len
  have rest : 0 + (len - offset) + (len - (len - offset)) = len := by omega
  rw [overwrite_eq (by omega), List.take_zero, List.nil_append, List.drop_append, List.drop_eq_nil_of_le (by omega),
    List.nil_append, List.drop_drop, moved, rest]

theorem assertions_iff : assertions r len = true ↔ r.nread ≤ len ∧ r.bodyStart ≤ len := by
  simp only [assertions, Bool.and_eq_true, decide_eq_true_eq]

theorem checks_iff : checks r len = true ↔ (r.mark < len ∧ r.fieldLen ≤ len) ∧ r.fieldStart < len := by
  simp only [checks, Bool.and_eq_true, decide_eq_true_eq]

theorem leave_passes (stopped : Stopped n len s) (nonempty : 0 < len) :
    (assertions (leave s).parser len = true ∧ checks (leave s).parser len = true) ↔
      n + s.p ≤ len ∧ s.owner.parser.fieldLen ≤ len := by
  obtain ⟨⟨mark, fieldStart, bodyStart, _⟩, count, _⟩ := stopped
  rw [assertions_iff, checks_iff]
  simp only [leave]
  omega

theorem safe_iff_run (behind : Behind m.parser 0) (ended : buffer[len]? = some 0) :
    m.Safe buffer len ↔ (0 < len ∧ len < 2 ^ 31) ∧ ∃ move, m.run buffer len = .ok move ∧
      m.parser.nread + move.state.p ≤ len ∧ move.state.owner.parser.fieldLen ≤ len := by
  constructor
  · intro ⟨result, done, _⟩
    obtain ⟨_, small⟩ := execute_small done
    obtain ⟨move, ran, _, _, _, asserted, checked⟩ := execute_inv done
    have nonempty : 0 < len := Nat.zero_lt_of_lt (checks_iff.mp checked).1.1
    exact ⟨⟨nonempty, small⟩, move, ran, (leave_passes (run_stopped behind ended ran) nonempty).mp ⟨asserted, checked⟩⟩
  · intro ⟨⟨nonempty, small⟩, move, ran, fits⟩
    have stopped := run_stopped behind ended ran
    obtain ⟨asserted, checked⟩ := (leave_passes stopped nonempty).mpr fits
    have done := execute_ok ended small ran
    rw [if_pos asserted, if_pos checked] at done
    exact ⟨_, done, contained_overwrite ended (assertions_iff.mp asserted).1 _⟩

/-! ### What the callbacks need -/

theorem text_ok_iff {start length : Nat} :
    (∃ t, text buffer start length = .ok t) ↔ length < 2 ^ 63 ∧ start + length ≤ buffer.length := by
  unfold text
  by_cases long : 2 ^ 63 ≤ length
  · rw [if_pos long]
    constructor
    · intro ⟨t, impossible⟩
      cases impossible
    · intro ⟨short, _⟩
      exact absurd long (Nat.not_le.mpr short)
  · rw [if_neg long]
    by_cases behind : buffer.length < start + length
    · rw [if_pos behind]
      constructor
      · intro ⟨t, impossible⟩
        cases impossible
      · intro ⟨_, inside⟩
        exact absurd inside (Nat.not_le.mpr behind)
    · rw [if_neg behind]
      exact ⟨fun _ => ⟨Nat.not_le.mp long, Nat.not_lt.mp behind⟩, fun _ => ⟨_, rfl⟩⟩

theorem distance_long {start : Nat} (near : start < 2 ^ 63) (before : p < start) : 2 ^ 63 ≤ distance start p := by
  rw [distance, if_neg (Nat.not_le.mpr before)]
  omega

theorem marked_ok_iff {start : Nat} (near : start < 2 ^ 63) (small : p < 2 ^ 63) (inside : p ≤ buffer.length) :
    (∃ t, text buffer start (distance start p) = .ok t) ↔ start ≤ p := by
  rw [text_ok_iff]
  constructor
  · intro ⟨short, _⟩
    by_contra before
    have long := distance_long near (Nat.not_le.mp before)
    omega
  · intro below
    rw [distance_of_le below]
    omega

theorem onResponseHttpField_ok_iff {flen : Nat} {field value : Except ClientFault (List UInt8)} :
    (∃ d', d.onResponseHttpField flen field value = .ok d') ↔
      flen = 0 ∨ ((∃ t, field = .ok t) ∧ ∃ t, value = .ok t) := by
  unfold ParsedResponse.onResponseHttpField
  by_cases none : flen = 0
  · rw [if_pos none]
    exact ⟨fun _ => .inl none, fun _ => ⟨_, rfl⟩⟩
  · rw [if_neg none]
    cases field <;> cases value <;> simp [none]

theorem map_ok_iff {α β : Type} {x : Except ClientFault α} {g : α → β} : (∃ b, x.map g = .ok b) ↔ ∃ a, x = .ok a := by
  cases x with
  | error e => exact ⟨fun ⟨_, impossible⟩ => (by cases impossible), fun ⟨_, impossible⟩ => (by cases impossible)⟩
  | ok a => exact ⟨fun _ => ⟨a, rfl⟩, fun _ => ⟨g a, rfl⟩⟩

theorem callback_of_admits (marked : r.mark < buffer.length) (near : r.mark < 2 ^ 63) (small : p < 2 ^ 63)
    (inside : p ≤ buffer.length) (short : r.fieldLen < 2 ^ 63) (admits : Admits buffer.length p a r) :
    ∃ d', callback buffer p a r d = .ok d' := by
  have pointed : pointer buffer r.mark = .ok (buffer.drop r.mark) := if_pos marked
  cases a with
  | writeValue =>
    refine onResponseHttpField_ok_iff.mpr (admits.imp_right ?_)
    intro ⟨name, value⟩
    exact ⟨text_ok_iff.mpr ⟨short, name⟩, (marked_ok_iff near small inside).mpr value⟩
  | reasonPhrase => exact map_ok_iff.mpr ((marked_ok_iff near small inside).mpr admits)
  | statusCode => exact map_ok_iff.mpr ⟨_, pointed⟩
  | httpVersion => exact map_ok_iff.mpr ⟨_, pointed⟩
  | _ => exact ⟨d, rfl⟩

theorem admits_of_callback {d' : ParsedResponse} (near : r.mark < 2 ^ 63) (small : p < 2 ^ 63)
    (inside : p ≤ buffer.length) (field : a = .writeField → r.fieldStart ≤ p)
    (called : callback buffer p a r d = .ok d') : Admits buffer.length p a r := by
  cases a with
  | writeValue =>
    refine (onResponseHttpField_ok_iff.mp ⟨d', called⟩).imp_right ?_
    intro ⟨name, value⟩
    exact ⟨(text_ok_iff.mp name).2, (marked_ok_iff near small inside).mp value⟩
  | reasonPhrase => exact (marked_ok_iff near small inside).mp (map_ok_iff.mp ⟨d', called⟩)
  | writeField => exact field rfl
  | _ => trivial

theorem registers_fieldLen (length : r.fieldLen ≤ n + (p + 1)) (admits : Admits buffer.length p a r) :
    (registers p a r).fieldLen ≤ n + (p + 1) := by
  cases a with
  | writeField =>
    show distance r.fieldStart p ≤ n + (p + 1)
    rw [distance_of_le admits]
    omega
  | _ => exact length

theorem perform_of_ordered {rest : List (Nat × Client.Action)} (behind : Behind m.parser (p + 1))
    (count : m.parser.nread = n) (fits : n + (p + 1) < buffer.length) (small : n + (p + 1) < 2 ^ 63)
    (length : m.parser.fieldLen ≤ n + (p + 1)) (ordered : Ordered buffer.length (as.map (p, ·) ++ rest) m.parser) :
    ∃ m', perform buffer p as m = .ok m' ∧ m'.parser.fieldLen ≤ n + (p + 1) ∧
      Ordered buffer.length rest m'.parser := by
  induction as generalizing m with
  | nil => exact ⟨m, rfl, length, ordered⟩
  | cons a as ih =>
    obtain ⟨admits, ordered⟩ : _ ∧ Ordered buffer.length (as.map (p, ·) ++ rest) (registers p a m.parser) := ordered
    have mark := behind.mark
    obtain ⟨d, called⟩ : ∃ d, callback buffer p a m.parser m.toParsedResponse = .ok d :=
      callback_of_admits (by omega) (by omega) (by omega) (by omega) (by omega) admits
    obtain ⟨m', performed, after⟩ := ih (m := ⟨d, registers p a m.parser⟩) (registers_behind behind)
      ((registers_nread p a m.parser).trans count) (registers_fieldLen length admits) ordered
    refine ⟨m', ?_, after⟩
    rw [perform, called]
    exact performed

theorem ordered_of_perform {rest : List (Nat × Client.Action)} (behind : Behind m.parser (p + 1))
    (count : m.parser.nread = n) (small : n + (p + 1) < 2 ^ 63) (inside : p ≤ buffer.length)
    (field : .writeField ∈ as → m.parser.fieldStart ≤ p) (performed : perform buffer p as m = .ok m')
    (ordered : Ordered buffer.length rest m'.parser) : Ordered buffer.length (as.map (p, ·) ++ rest) m.parser := by
  induction as generalizing m with
  | nil =>
    cases performed
    exact ordered
  | cons a as ih =>
    have mark := behind.mark
    rw [perform] at performed
    split at performed
    · cases performed
    · rename_i called
      refine ⟨admits_of_callback (by omega) (by omega) inside ?_ called, ?_⟩
      · intro first
        exact field (first ▸ List.mem_cons_self)
      · refine ih (registers_behind behind) ((registers_nread p a m.parser).trans count) ?_ performed
        intro later
        have start := field (List.mem_cons_of_mem a later)
        cases a <;> first | exact start | exact Nat.le_refl p

/-! ### A length that wrapped -/

theorem perform_held {target : Nat} (long : 2 ^ 63 ≤ m.parser.fieldLen) (held : holdsField as target = true)
    (performed : perform buffer p as m = .ok m') :
    target ∈ pendingStates ∧ 2 ^ 63 ≤ m'.parser.fieldLen ∧ .done ∉ as := by
  induction as generalizing m with
  | nil =>
    cases performed
    exact ⟨List.contains_iff_mem.mp held, long, List.not_mem_nil⟩
  | cons a as ih =>
    rw [perform] at performed
    split at performed
    · cases performed
    · rename_i d called
      by_cases still : quiet a = true
      · have kept : (registers p a m.parser).fieldLen = m.parser.fieldLen ∧ a ≠ .done := by
          cases a with
          | mark | writeContentLen => exact ⟨rfl, by decide⟩
          | _ => exact absurd still (by decide)
        have held : holdsField as target = true := by
          rwa [holdsField, List.dropWhile_cons_of_pos still] at held
        obtain ⟨pending, after, going⟩ := ih (kept.1.symm ▸ long) held performed
        refine ⟨pending, after, ?_⟩
        intro member
        rcases List.mem_cons.mp member with here | later
        · exact kept.2 here.symm
        · exact going later
      · -- A value is written: its name has a length that no string has.
        rw [holdsField, List.dropWhile_cons_of_neg still] at held
        obtain rfl : a = .writeValue := beq_iff_eq.mp held
        rcases onResponseHttpField_ok_iff.mp ⟨d, called⟩ with none | ⟨name, _⟩
        · omega
        · have short := (text_ok_iff.mp name).1
          omega

/-- The length has wrapped, and the value of the field is still to come. -/
structure Held (s : Locals) : Prop where
  pending : s.cs ∈ pendingStates
  long : 2 ^ 63 ≤ s.owner.parser.fieldLen

theorem step_held (move : Move Locals) (held : Held s) (stepped : step buffer c s = .ok move) :
    move.Holds Held fun s => 2 ^ 63 ≤ s.owner.parser.fieldLen := by
  obtain ⟨pending, long⟩ := held
  cases follow_iff.mp stepped with
  | rejected => exact long
  | finished moved performed done =>
    obtain ⟨_, _, going⟩ := perform_held long ((move_holds moved).1 pending) performed
    exact absurd done going
  | advanced moved performed =>
    obtain ⟨next, after, _⟩ := perform_held long ((move_holds moved).1 pending) performed
    exact ⟨next, after⟩

theorem scan_held {cs : Nat} {move : Move Locals} (pending : cs ∈ pendingStates) (long : 2 ^ 63 ≤ m.parser.fieldLen)
    (ran : scan (step buffer) l ⟨p, cs, m⟩ = .ok move) : 2 ^ 63 ≤ move.state.owner.parser.fieldLen := by
  have start : Held ⟨p, cs, m⟩ := ⟨pending, long⟩
  have holds := scan_holds (N := fun _ => Held) (fun _ _ _ => step_held) start ran
  cases move with
  | next s => exact holds.long
  | stop s => exact holds

/-! ### The data of a call -/

theorem step_moves {cs target : Nat} (moved : Client.move cs c = some (target, as)) {move : Move Locals}
    (ran : scan (step buffer) (c :: l) ⟨p, cs, m⟩ = .ok move) :
    ∃ m', perform buffer p as m = .ok m' ∧
      if .done ∈ as then move = .stop ⟨p + 1, target, m'⟩ else scan (step buffer) l ⟨p + 1, target, m'⟩ = .ok move := by
  cases performed : perform buffer p as m with
  | error f =>
    have stepped : step buffer c ⟨p, cs, m⟩ = .error f := follow_error.mpr ⟨_, moved, performed⟩
    rw [scan, stepped] at ran
    cases ran
  | ok m' =>
    refine ⟨m', rfl, ?_⟩
    by_cases done : .done ∈ as
    · rw [if_pos done]
      rw [Client.scan_done moved done performed] at ran
      exact (Except.ok.inj ran).symm
    · rw [if_neg done]
      rwa [Client.scan_cons moved done performed] at ran

theorem scan_stops {cs : Nat} (moved : Client.move cs c = none) :
    scan (step buffer) (c :: l) ⟨p, cs, m⟩ = .ok (.stop ⟨p, if cs = 0 then 2 else 0, m⟩) := by
  have stepped : step buffer c ⟨p, cs, m⟩ = .ok (.stop ⟨p, if cs = 0 then 2 else 0, m⟩) := follow_iff.mpr (.rejected moved)
  rw [scan, stepped]

theorem scan_taken {cs : Nat} {move : Move Locals} (ran : scan (step buffer) l ⟨p, cs, m⟩ = .ok move) :
    move.state.p = p + taken cs l := by
  induction l generalizing p cs m with
  | nil =>
    cases ran
    rfl
  | cons c l ih =>
    cases moved : Client.move cs c with
    | none =>
      rw [scan_stops moved] at ran
      cases ran
      simp only [taken, moved]
      rfl
    | some edge =>
      obtain ⟨target, actions⟩ := edge
      obtain ⟨m', _, after⟩ := step_moves moved ran
      simp only [taken, moved]
      split at after
      · rename_i done
        rw [after, if_pos done]
        rfl
      · rename_i going
        rw [ih after, if_neg going]
        omega

theorem scan_of_ordered {cs : Nat} (behind : Behind m.parser p) (count : m.parser.nread = n)
    (fits : n + (p + taken cs l) < buffer.length) (small : n + (p + taken cs l) < 2 ^ 63)
    (length : m.parser.fieldLen ≤ n + p) (ordered : Ordered buffer.length (doings cs p l) m.parser) :
    ∃ move, scan (step buffer) l ⟨p, cs, m⟩ = .ok move ∧ move.state.owner.parser.fieldLen ≤ n + move.state.p := by
  induction l generalizing p cs m with
  | nil => exact ⟨_, rfl, length⟩
  | cons c l ih =>
    cases moved : Client.move cs c with
    | none => exact ⟨_, scan_stops moved, length⟩
    | some edge =>
      obtain ⟨target, actions⟩ := edge
      simp only [taken, moved] at fits small
      simp only [doings, moved] at ordered
      have one : 1 ≤ if .done ∈ actions then 1 else 1 + taken target l := by
        split <;> omega
      obtain ⟨m', performed, after, ordered⟩ := perform_of_ordered behind.succ count (by omega) (by omega) (by omega)
        ordered
      obtain ⟨behind', count'⟩ := perform_behind behind.succ performed
      by_cases done : .done ∈ actions
      · exact ⟨_, Client.scan_done moved done performed, after⟩
      · rw [if_neg done] at fits small ordered
        rw [Client.scan_cons moved done performed]
        exact ih behind' (count'.trans count) (by omega) (by omega) after ordered

theorem ordered_of_scan {cs : Nat} {move : Move Locals} (behind : Behind m.parser p) (count : m.parser.nread = n)
    (small : n + (p + l.length) < 2 ^ 63) (inside : p + l.length ≤ buffer.length)
    (ran : scan (step buffer) l ⟨p, cs, m⟩ = .ok move) (short : move.state.owner.parser.fieldLen < 2 ^ 63) :
    Ordered buffer.length (doings cs p l) m.parser := by
  induction l generalizing p cs m with
  | nil => trivial
  | cons c l ih =>
    cases moved : Client.move cs c with
    | none =>
      simp only [doings, moved]
      trivial
    | some edge =>
      obtain ⟨target, actions⟩ := edge
      rw [List.length_cons] at small inside
      obtain ⟨m', performed, after⟩ := step_moves moved ran
      obtain ⟨behind', count'⟩ := perform_behind behind.succ performed
      have start := behind.fieldStart
      have field : .writeField ∈ actions → m.parser.fieldStart ≤ p := by
        intro written
        by_contra before
        obtain ⟨rest, rfl, held⟩ := (move_holds moved).2 written
        have long : 2 ^ 63 ≤ (registers p .writeField m.parser).fieldLen :=
          distance_long (by omega) (Nat.not_le.mp before)
        obtain ⟨pending, long, going⟩ := perform_held (m := ⟨m.toParsedResponse, registers p .writeField m.parser⟩) long
          held performed
        rw [if_neg (by simpa using going)] at after
        have final := scan_held pending long after
        omega
      simp only [doings, moved]
      refine ordered_of_perform behind.succ count (by omega) (by omega) field performed ?_
      split at after
      · rename_i done
        rw [if_pos done]
        trivial
      · rename_i going
        rw [if_neg going]
        exact ih behind' (count'.trans count) (by omega) (by omega) after

/-! ### Any calls -/

/-- What is left behind by a call: the registers point into what was consumed, and that has fitted into a buffer. -/
structure Kept (r : HttpclientParser) : Prop where
  behind : Behind r 0
  count : r.nread < 2 ^ 31
  fieldLen : r.fieldLen ≤ r.nread

theorem run_ordered_iff (kept : Kept m.parser) (ended : buffer[len]? = some 0) (small : len < 2 ^ 31) :
    (∃ move, m.run buffer len = .ok move ∧ m.parser.nread + move.state.p ≤ len ∧
      move.state.owner.parser.fieldLen ≤ len) ↔
    m.parser.nread + taken m.parser.cs (buffer.take len) ≤ len ∧
      Ordered buffer.length (doings m.parser.cs 0 (buffer.take len)) m.parser := by
  have within : len < buffer.length := (List.getElem?_eq_some_iff.mp ended).1
  have length : (buffer.take len).length = len := List.length_take_of_le (Nat.le_of_lt within)
  have count := kept.count
  constructor
  · intro ⟨move, ran, fits, short⟩
    have position := scan_taken ran
    refine ⟨by omega, ?_⟩
    exact ordered_of_scan kept.behind rfl (by omega) (by omega) ran (by omega)
  · intro ⟨fits, ordered⟩
    obtain ⟨move, ran, short⟩ := scan_of_ordered kept.behind rfl (by omega) (by omega) kept.fieldLen ordered
    have position := scan_taken ran
    exact ⟨move, ran, by omega, by omega⟩

theorem Reached.kept (reached : Reached m) : Kept m.parser := by
  induction reached with
  | new => exact ⟨⟨by decide, by decide, by decide, fun _ => Nat.le_refl 0⟩, by decide, Nat.le_refl 0⟩
  | @execute m m' buffer buffer' len offset _ done kept =>
    obtain ⟨move, ran, _, _, same, asserted, checked⟩ := execute_inv done
    obtain ⟨ended, small⟩ := execute_small done
    obtain rfl : m' = leave move.state := same
    have stopped := run_stopped kept.behind ended ran
    have consumed := (assertions_iff.mp asserted).1
    refine ⟨Behind.leave stopped, by omega, ?_⟩
    -- The call was in order, so no length of a field has wrapped in it.
    have within : len < buffer.length := (List.getElem?_eq_some_iff.mp ended).1
    have passed := (leave_passes stopped (Nat.zero_lt_of_lt (checks_iff.mp checked).1.1)).mp ⟨asserted, checked⟩
    obtain ⟨fits, ordered⟩ := (run_ordered_iff kept ended small).mp ⟨move, ran, passed⟩
    obtain ⟨move', ran', short⟩ := scan_of_ordered kept.behind rfl (by omega) (by omega) kept.fieldLen ordered
    obtain rfl : move = move' := Except.ok.inj (ran.symm.trans ran')
    have count := stopped.count
    show move.state.owner.parser.fieldLen ≤ move.state.owner.parser.nread + move.state.p
    omega

/-- After any calls, a call is safe exactly when it has bytes to read, what was consumed since the parser was made
and what the machine takes of this buffer are not more than its data, and the actions on the way have what they
need of the registers. The first call can only fail by reading outside of the buffer, and a later one whose data
the machine takes as a whole is not safe. -/
theorem execute_safe_iff (reached : Reached m) (ended : buffer[len]? = some 0) :
    (m.Safe buffer len ↔ (0 < len ∧ len < 2 ^ 31) ∧ m.parser.nread + taken m.parser.cs (buffer.take len) ≤ len ∧
      Ordered buffer.length (doings m.parser.cs 0 (buffer.take len)) m.parser) ∧
    (m.parser.nread = 0 → 0 < len → len < 2 ^ 31 → m.Safe buffer len ∨ m.execute buffer len = .error .outside) ∧
    (0 < m.parser.nread → taken m.parser.cs (buffer.take len) = len → ¬ m.Safe buffer len) := by
  have kept := reached.kept
  have behind := kept.behind
  have safe_iff : m.Safe buffer len ↔ (0 < len ∧ len < 2 ^ 31) ∧
      m.parser.nread + taken m.parser.cs (buffer.take len) ≤ len ∧
      Ordered buffer.length (doings m.parser.cs 0 (buffer.take len)) m.parser := by
    rw [safe_iff_run behind ended]
    exact and_congr_right fun ⟨_, small⟩ => run_ordered_iff kept ended small
  refine ⟨safe_iff, ?_, ?_⟩
  · intro first nonempty small
    cases ran : m.run buffer len with
    | error f =>
      obtain rfl := run_fault behind first ended small ran
      exact .inr (execute_error ended small ran)
    | ok move =>
      have stopped := run_stopped behind ended ran
      have position := stopped.position
      have length := stopped.behind.fieldLen (stopped.count.trans first)
      exact .inl ((safe_iff_run behind ended).mpr ⟨⟨nonempty, small⟩, move, ran, by omega, by omega⟩)
  · intro later whole safe
    obtain ⟨_, fits, _⟩ := safe_iff.mp safe
    omega

theorem execute_safe_iff_whole :
    HttpResponseParser.new.Safe (ascii "HTTP/1.1 200 OK\r\n\r\n" ++ [0]) 19 := by
  have ended : (ascii "HTTP/1.1 200 OK\r\n\r\n" ++ [0])[19]? = some 0 := by decide
  obtain ⟨_, first, _⟩ := execute_safe_iff .new ended
  exact (first rfl (by decide) (by decide)).resolve_right (by decide +kernel)

/-- Empty data makes the result -1, of which the `memmove` makes an offset. The second piece of a response fails an
assertion, or makes the result -1 when a field goes on in it. -/
theorem execute_pieces :
    HttpResponseParser.new.execute [0] 0 = .error .memmove ∧
      (HttpResponseParser.new.execute (ascii "HTTP/1.1 200 OK\r\n" ++ [0]) 17).map
        (fun first => (first.1, first.2.2.execute (ascii "\r\n" ++ [0]) 2)) = .ok (17, .error .assertion) ∧
      (HttpResponseParser.new.execute (ascii "5;abc" ++ [0]) 5).map
        (fun first => (first.1, first.2.2.execute (ascii "=\x01 0123456" ++ [0]) 10)) = .ok (5, .error .memmove) := by
  decide +kernel

end HttpResponseParser

end Cool.Http
