import Cool.Foundation.Octets
import Cool.Http.Tokens

/-!
# Stretches of a request

The byte classes of `http11_parser.rl` as the grammar writes them, and the machine on tokens over a
stretch of the input that stays in one part of the grammar.
-/

namespace Cool.Http

open Foundation

def isAlpha (c : UInt8) : Bool := (65 ≤ c && c ≤ 90) || (97 ≤ c && c ≤ 122)

def isDigit (c : UInt8) : Bool := 48 ≤ c && c ≤ 57

def isXdigit (c : UInt8) : Bool := isDigit c || (65 ≤ c && c ≤ 70) || (97 ≤ c && c ≤ 102)

def isUnreserved (c : UInt8) : Bool := isAlpha c || isDigit c || (ascii "-._~").contains c

/-- `sub_delims`, with `more_delims` where `uri_relaxed` is set. -/
def isSubDelims (uriRelaxed : Bool) (c : UInt8) : Bool :=
  (ascii "!$&'()*+,;=").contains c || (uriRelaxed && (ascii "\x7b\x7d^").contains c)

/-- `pchar` but for `pct_encoded`. -/
def isPchar (uriRelaxed : Bool) (c : UInt8) : Bool :=
  isUnreserved c || isSubDelims uriRelaxed c || (ascii ":@").contains c

def isPathChar (uriRelaxed : Bool) (c : UInt8) : Bool := isPchar uriRelaxed c || c == 47

/-- `pchar | "/" | "?"` without `more_delims`. -/
def isQueryChar (c : UInt8) : Bool := isPchar false c || (ascii "/?").contains c

/-- `( class | pct_encoded )*`. -/
def units (cls : UInt8 → Bool) : List UInt8 → Bool
  | [] => true
  | 37 :: a :: b :: rest => isXdigit a && isXdigit b && units cls rest
  | c :: rest => cls c && units cls rest

/-- `path_absolute = ( "/" ( segment_nz ( "/" segment )* )? )`: after the first slash there is nothing,
or slashes between segments of which the first is not empty. -/
def pathAbsolute (uriRelaxed : Bool) : List UInt8 → Bool
  | [47] => true
  | 47 :: c :: rest => c != 47 && units (isPathChar uriRelaxed) (c :: rest)
  | _ => false

/-- `token = ascii -- ( HTTP_CTL | HTTP_separator )`, where `HTTP_CTL = (0 - 31) | 127` is a difference:
the only control characters it takes out are NUL and DEL. -/
def isToken (c : UInt8) : Bool :=
  c < 128 && c != 0 && c != 127 && !(ascii "()<>@,;:\\\"/[]?=\x7b\x7d \t").contains c

def isControl (c : UInt8) : Bool := c < 32 || c == 127

/-! ### Edges -/

/-- Where a byte leads and what it does on the way. -/
def move (uriRelaxed : Bool) (cs : Nat) (c : UInt8) : Option (Nat × List Action) :=
  (edge uriRelaxed cs c).map fun e => (e.target, e.actions)

/-! The edges that a printed request takes, part by part. -/

set_option synthInstance.maxSize 512 in
theorem path_moves (u : Bool) :
    (∀ c, isPathChar u c = true → move u 26 c = some (26, []) ∧ (c ≠ 47 → move u 33 c = some (26, []))) ∧
      (∀ c, isXdigit c = true → move u 27 c = some (28, []) ∧ move u 28 c = some (26, [])) ∧
      move u 3 47 = some (33, [.mark]) ∧
      ∀ q ∈ [26, 33], move u q 37 = some (27, []) ∧ move u q 32 = some (4, [.requestPath, .requestUri]) ∧
        move u q 35 = some (20, [.requestPath, .requestUri]) ∧ move u q 63 = some (29, [.requestPath]) := by
  cases u <;> decide +kernel

set_option synthInstance.maxSize 512 in
theorem query_moves (u : Bool) :
    (∀ c, isQueryChar c = true → move u 29 c = some (30, [.startQuery]) ∧ move u 30 c = some (30, [])) ∧
      (∀ c, isXdigit c = true → move u 31 c = some (32, []) ∧ move u 32 c = some (30, [])) ∧
      move u 29 37 = some (31, [.startQuery]) ∧ move u 30 37 = some (31, []) ∧
      move u 30 32 = some (4, [.queryString, .requestUri]) ∧
      move u 30 35 = some (20, [.queryString, .requestUri]) := by
  cases u <;> decide +kernel

set_option synthInstance.maxSize 512 in
theorem fragment_moves (u : Bool) :
    (∀ c, isQueryChar c = true → move u 20 c = some (21, [.mark]) ∧ move u 21 c = some (21, [])) ∧
      (∀ c, isXdigit c = true → move u 22 c = some (23, []) ∧ move u 23 c = some (21, [])) ∧
      move u 20 37 = some (22, [.mark]) ∧ move u 21 37 = some (22, []) ∧ move u 21 32 = some (4, [.fragment]) := by
  cases u <;> decide +kernel

set_option synthInstance.maxSize 512 in
theorem header_moves (u : Bool) :
    (∀ c, isToken c = true → move u 14 c = some (14, []) ∧ (c ≠ 10 → move u 18 c = some (14, []) ∧
      (c ≠ 13 → move u 13 c = some (14, [.startField])))) ∧
      (∀ c, isControl c = false → move u 16 c = some (16, []) ∧ (c ≠ 32 → move u 15 c = some (16, [.mark]))) ∧
      move u 13 13 = some (18, [.startField]) ∧
      (∀ q ∈ [14, 18], move u q 58 = some (15, [.writeField])) ∧ move u 15 32 = some (15, [.mark]) ∧
      move u 15 13 = some (17, [.mark, .writeValue]) ∧ move u 16 13 = some (17, [.writeValue]) ∧
      move u 17 10 = some (13, []) ∧ move u 18 10 = some (348, [.done]) ∧
      move u 13 10 = some (348, [.startField, .done]) := by
  cases u <;> decide +kernel

namespace Captures

/-- The captures after more bytes. -/
def extend (l : List UInt8) (k : Captures) : Captures where
  mark := k.mark.map (· ++ l)
  fieldStart := k.fieldStart.map (· ++ l)
  field := k.field
  query := k.query.map (· ++ l)

theorem extend_nil (k : Captures) : k.extend [] = k := by
  simp [extend]

theorem extend_snoc (l : List UInt8) (c : UInt8) (k : Captures) : (k.extend l).advance c = k.extend (l ++ [c]) := by
  simp [extend, advance, Function.comp_def]

theorem extend_cons (c : UInt8) (l : List UInt8) (k : Captures) : (k.advance c).extend l = k.extend (c :: l) := by
  simp [extend, advance, Function.comp_def]

end Captures

namespace Tokens

variable {uriRelaxed : Bool} {c : UInt8} {cs cs' n : Nat} {as : List Action} {k k' : Captures}
  {d d' : Parsed} {l r : List UInt8}

theorem step_of_move (moved : move uriRelaxed cs c = some (cs', as)) (going : .done ∉ as)
    (performed : perform c as k d = .ok (k', d')) :
    step uriRelaxed c ⟨d, cs, n, k⟩ = .ok (.next ⟨d', cs', n + 1, k'.advance c⟩) := by
  obtain ⟨e, taken, same⟩ := Option.map_eq_some_iff.mp moved
  obtain ⟨rfl, rfl⟩ := Prod.mk.inj same
  have stepped : step uriRelaxed c ⟨d, cs, n, k⟩ = _ := follow_iff.mpr (.advanced taken performed going)
  exact stepped

theorem scan_cons (moved : move uriRelaxed cs c = some (cs', as)) (going : .done ∉ as)
    (performed : perform c as k d = .ok (k', d')) :
    scan (step uriRelaxed) (c :: l) ⟨d, cs, n, k⟩ =
      scan (step uriRelaxed) l ⟨d', cs', n + 1, k'.advance c⟩ := by
  rw [scan, step_of_move moved going performed]

theorem scan_done (moved : move uriRelaxed cs c = some (cs', as)) (done : .done ∈ as)
    (performed : perform c as k d = .ok (k', d')) :
    scan (step uriRelaxed) (c :: l) ⟨d, cs, n, k⟩ = .ok (.stop ⟨d', cs', n + 1, k'.advance c⟩) := by
  obtain ⟨e, taken, same⟩ := Option.map_eq_some_iff.mp moved
  obtain ⟨rfl, rfl⟩ := Prod.mk.inj same
  have stepped : step uriRelaxed c ⟨d, cs, n, k⟩ = _ := follow_iff.mpr (.finished taken performed done)
  rw [scan, stepped]

theorem scan_cons_plain (moved : move uriRelaxed cs c = some (cs', [])) :
    scan (step uriRelaxed) (c :: l) ⟨d, cs, n, k⟩ = scan (step uriRelaxed) l ⟨d, cs', n + 1, k.advance c⟩ :=
  scan_cons moved List.not_mem_nil rfl

/-- Along edges without actions only the state moves. -/
theorem scan_states (state : Nat → Nat)
    (moves : ∀ r c rest, l = r ++ c :: rest → move uriRelaxed (state r.length) c = some (state (r.length + 1), [])) :
    scan (step uriRelaxed) l ⟨d, state 0, n, k⟩ = .ok (.next ⟨d, state l.length, n + l.length, k.extend l⟩) := by
  have along : scan (step uriRelaxed) l ⟨d, state 0, n, k.extend []⟩ =
      .ok (.next ⟨d, state l.length, n + l.length, k.extend l⟩) := by
    refine scan_along (fun r => (⟨d, state r.length, n + r.length, k.extend r⟩ : Tokens)) ?_
    intro r c rest split
    rw [step_of_move (moves r c rest split) List.not_mem_nil rfl, Captures.extend_snoc, List.length_append]
    rfl
  rwa [Captures.extend_nil] at along

theorem scan_class {cls : UInt8 → Bool} (stays : ∀ c, cls c = true → move uriRelaxed cs c = some (cs, []))
    (inside : ∀ c ∈ l, cls c = true) :
    scan (step uriRelaxed) l ⟨d, cs, n, k⟩ = .ok (.next ⟨d, cs, n + l.length, k.extend l⟩) := by
  refine scan_states (fun _ => cs) fun r c rest split => stays c (inside c ?_)
  rw [split]
  exact List.mem_append_right r List.mem_cons_self

end Tokens

/-- The states of `( class | pct_encoded )*`: `q` is inside, `q₁` and `q₂` are after a percent sign and
after one digit. -/
structure UnitStates (uriRelaxed : Bool) (cls : UInt8 → Bool) (q q₁ q₂ : Nat) : Prop where
  char : ∀ c, cls c = true → move uriRelaxed q c = some (q, [])
  percent : move uriRelaxed q 37 = some (q₁, [])
  first : ∀ c, isXdigit c = true → move uriRelaxed q₁ c = some (q₂, [])
  second : ∀ c, isXdigit c = true → move uriRelaxed q₂ c = some (q, [])

theorem UnitStates.scan {uriRelaxed : Bool} {cls : UInt8 → Bool} {q q₁ q₂ n : Nat} {d : Parsed} {k : Captures}
    {l : List UInt8} (states : UnitStates uriRelaxed cls q q₁ q₂) (inside : units cls l = true) :
    scan (Tokens.step uriRelaxed) l ⟨d, q, n, k⟩ = .ok (.next ⟨d, q, n + l.length, k.extend l⟩) := by
  fun_induction units cls l generalizing n k with
  | case1 => rw [Captures.extend_nil]; rfl
  | case2 a b rest ih =>
    simp only [Bool.and_eq_true] at inside
    rw [Tokens.scan_cons_plain states.percent, Tokens.scan_cons_plain (states.first a inside.1.1),
      Tokens.scan_cons_plain (states.second b inside.1.2), ih inside.2]
    simp only [Captures.extend_cons, List.length_cons, Nat.add_left_comm, Nat.add_comm]
  | case3 c rest _ ih =>
    simp only [Bool.and_eq_true] at inside
    rw [Tokens.scan_cons_plain (states.char c inside.1), ih inside.2]
    simp only [Captures.extend_cons, List.length_cons, Nat.add_left_comm, Nat.add_comm]

theorem pathStates (u : Bool) : UnitStates u (isPathChar u) 26 27 28 := by
  obtain ⟨char, digits, -, ends⟩ := path_moves u
  exact ⟨fun c inside => (char c inside).1, (ends 26 (by decide)).1, fun c inside => (digits c inside).1,
    fun c inside => (digits c inside).2⟩

theorem queryStates (u : Bool) : UnitStates u isQueryChar 30 31 32 := by
  obtain ⟨char, digits, -, percent, -⟩ := query_moves u
  exact ⟨fun c inside => (char c inside).2, percent, fun c inside => (digits c inside).1,
    fun c inside => (digits c inside).2⟩

theorem fragmentStates (u : Bool) : UnitStates u isQueryChar 21 22 23 := by
  obtain ⟨char, digits, -, percent, -⟩ := fragment_moves u
  exact ⟨fun c inside => (char c inside).2, percent, fun c inside => (digits c inside).1,
    fun c inside => (digits c inside).2⟩

end Cool.Http
