import Cool.Http.Framing
import Cool.Http.Grammar
import Cool.Http.Headers

/-!
# A request printed and read

`HttpRequest::dump` against `HttpRequestParser`: the machine goes through the printed request part by
part, and each part hands back what it was printed from.
-/

namespace Cool.Http

open Foundation Tokens

/-- The machine goes from one state to another over `l`, whatever it has captured before. -/
def Passes (uriRelaxed : Bool) (l : List UInt8) (d : Parsed) (cs : Nat) (d' : Parsed) (cs' : Nat) : Prop :=
  ∀ n k, ∃ k', scan (step uriRelaxed) l ⟨d, cs, n, k⟩ = .ok (.next ⟨d', cs', n + l.length, k'⟩)

section Passes

variable {u : Bool} {l r : List UInt8} {d d' d'' : Parsed} {cs cs' cs'' q q₁ q₂ : Nat} {as : List Action}
  {c : UInt8} {cls : UInt8 → Bool}

theorem Passes.append (first : Passes u l d cs d' cs') (second : Passes u r d' cs' d'' cs'') :
    Passes u (l ++ r) d cs d'' cs'' := by
  intro n k
  obtain ⟨k', ran⟩ := first n k
  obtain ⟨k'', ran'⟩ := second (n + l.length) k'
  refine ⟨k'', ?_⟩
  rw [scan_append_of_next ran, ran', List.length_append, Nat.add_assoc]

/-- A part whose first byte starts a capture. -/
theorem UnitStates.scan_from (q₀ : Nat) {n : Nat} {k k' : Captures} (states : UnitStates u cls q q₁ q₂)
    (inside : units cls l = true) (nonempty : l ≠ []) (going : .done ∉ as)
    (start : ∀ c, cls c = true → l.head? = some c → move u q₀ c = some (q, as))
    (startPercent : move u q₀ 37 = some (q₁, as)) (performed : ∀ c, perform c as k d = .ok (k', d)) :
    Foundation.scan (step u) l ⟨d, q₀, n, k⟩ = .ok (.next ⟨d, q, n + l.length, k'.extend l⟩) := by
  fun_cases units cls l with
  | case1 => exact absurd rfl nonempty
  | case2 a b rest =>
    simp only [units, Bool.and_eq_true] at inside
    rw [scan_cons startPercent going (performed _), scan_cons_plain (states.first a inside.1.1),
      scan_cons_plain (states.second b inside.1.2), states.scan inside.2]
    simp only [Captures.extend_cons, List.length_cons, Nat.add_left_comm, Nat.add_comm]
  | case3 c rest other =>
    rw [units.eq_3 _ _ _ other] at inside
    simp only [Bool.and_eq_true] at inside
    rw [scan_cons (start c inside.1 rfl) going (performed c), states.scan inside.2]
    simp only [Captures.extend_cons, List.length_cons, Nat.add_left_comm, Nat.add_comm]

end Passes

/-! ### The request line -/

theorem passes_part {u : Bool} {l : List UInt8} {d d' : Parsed} {cs cs' : Nat} {t : UInt8} (as : List Action)
    (going : .done ∉ as)
    (captured : ∀ n k, ∃ q k' k'', scan (step u) l ⟨d, cs, n, k⟩ = .ok (.next ⟨d, q, n + l.length, k'⟩) ∧
      move u q t = some (cs', as) ∧ perform t as k' d = .ok (k'', d')) :
    Passes u (l ++ [t]) d cs d' cs' := by
  intro n k
  obtain ⟨q, k', k'', ran, moved, performed⟩ := captured n k
  refine ⟨k''.advance t, ?_⟩
  rw [scan_append_of_next ran, scan_cons moved going performed, List.length_append]
  rfl

/-- The state after `i + 1` characters of a method. -/
def methodState : Nat → Nat
  | 0 => 2
  | i + 1 => 175 + i

def isMethodChar (c : UInt8) : Bool := isDigit c || (65 ≤ c && c ≤ 90)

/-- The rows of the method, their move at the space, and what their edges admit. -/
theorem method_moves :
    (∀ i < 19, rows.find? (·.1 == methodState i) =
      some (methodState i, [Edge.act sp 3 [.requestMethod], Edge.go methodChar (methodState (i + 1))])) ∧
    (∀ u, ∀ i < 20, move u (methodState i) 32 = some (3, [.requestMethod])) ∧
    ∀ u c, isMethodChar c = true →
      (Edge.act sp 3 [.requestMethod]).admits u c = false ∧ (Edge.go methodChar 0).admits u c = true := by
  decide +kernel

theorem move_method {u : Bool} {c : UInt8} {i : Nat} (few : i < 19) (char : isMethodChar c = true) :
    move u (methodState i) c = some (methodState (i + 1), []) := by
  obtain ⟨space, letter⟩ := method_moves.2.2 u c char
  have taken : (Edge.go methodChar (methodState (i + 1))).admits u c = true := letter
  simp only [move, edge, method_moves.1 i few, List.find?_cons, space, taken, Option.map_some]
  rfl

theorem scan_method {u : Bool} {l : List UInt8} {d : Parsed} {i n : Nat} {k : Captures} (few : i + l.length < 20)
    (chars : ∀ c ∈ l, isMethodChar c = true) :
    scan (step u) l ⟨d, methodState i, n, k⟩ =
      .ok (.next ⟨d, methodState (i + l.length), n + l.length, k.extend l⟩) := by
  refine scan_states (fun j => methodState (i + j)) fun r c rest split => move_method ?_ (chars c ?_)
  · rw [split, List.length_append, List.length_cons] at few
    omega
  · rw [split]
    exact List.mem_append_right r List.mem_cons_self

/-- The names are short, and all but one are tokens that are found again. -/
theorem methods_named : ∀ entry ∈ httpMethodMap, (0 < entry.2.length ∧ entry.2.length ≤ 20) ∧
    (entry.1 ≠ .msearch → entry.2.all isMethodChar = true ∧
      settled (entry.2 ++ [32]) = true ∧ charsToHttpMethd (entry.2 ++ [32]) = entry.1) := by
  decide +kernel

/-- A method of the map is printed as the map has it. -/
theorem httpMethodToChars_mem {m : HttpMethod} (valid : m ≠ .invalidMethod) :
    (m, httpMethodToChars m) ∈ httpMethodMap := by
  have listed : m ∈ httpMethodMap.map Prod.fst := by
    cases m <;> first | exact absurd rfl valid | decide
  unfold httpMethodToChars
  split
  · rename_i missing
    obtain ⟨row, member, same⟩ := List.mem_map.mp listed
    exact absurd same (by simpa using List.find?_eq_none.mp missing row member)
  · rename_i row found
    have same : row.1 = m := by simpa using List.find?_some found
    rw [← same]
    exact List.mem_of_find?_eq_some found

theorem perform_method {c : UInt8} {k : Captures} {text : List UInt8} {m : HttpMethod} (d : Parsed)
    (marked : k.mark = some text) (known : settled (text ++ [c]) = true)
    (found : charsToHttpMethd (text ++ [c]) = m) (valid : m ≠ .invalidMethod) :
    perform c [.requestMethod] k d = .ok (k, { d with data := { d.data with method := m } }) := by
  have called : d.onRequestMethod (text ++ [c]) = { d with data := { d.data with method := m } } := by
    unfold Parsed.onRequestMethod
    rw [found]
    split
    · exact absurd rfl valid
    · rfl
  simp only [perform, Captures.callback, marked, Http.known, Except.bind, if_pos known, called,
    Captures.registers]

theorem passes_method {u : Bool} {m : HttpMethod} (d : Parsed) (usual : m ≠ .msearch)
    (valid : m ≠ .invalidMethod) :
    Passes u (httpMethodToChars m ++ [32]) d 1 { d with data := { d.data with method := m } } 3 := by
  have member := httpMethodToChars_mem valid
  obtain ⟨⟨nonempty, short⟩, named⟩ := methods_named _ member
  obtain ⟨letters, settled, found⟩ := named usual
  have chars := List.all_eq_true.mp letters
  dsimp only at nonempty short chars settled found
  have start : ∀ c, isMethodChar c = true → move u 1 c = some (2, [.mark]) := by cases u <;> decide +kernel
  refine passes_part [.requestMethod] (by decide) fun n k => ?_
  cases text : httpMethodToChars m with
  | nil => rw [text] at nonempty; cases nonempty
  | cons c l =>
    rw [text] at short chars settled found
    rw [List.length_cons] at short
    have rest := scan_method (u := u) (l := l) (d := d) (i := 0) (n := n + 1)
      (k := { k with mark := some [] }.advance c) (by omega)
      (fun c member => chars c (List.mem_cons_of_mem _ member))
    have whole := (scan_cons (l := l) (n := n) (start c (chars c List.mem_cons_self)) (by decide) rfl).trans rest
    rw [Nat.zero_add, Nat.add_right_comm, Nat.add_assoc] at whole
    exact ⟨_, _, _, whole, method_moves.2.1 u _ (by omega), perform_method d rfl settled found valid⟩

section RequestLine

variable {u : Bool} {l : List UInt8}

/-- A path is read from the start of the target into one of two states that end it alike. -/
theorem scan_path (d : Parsed) (path : pathAbsolute u l = true) (n : Nat) (k : Captures) :
    ∃ q k', scan (step u) l ⟨d, 3, n, k⟩ = .ok (.next ⟨d, q, n + l.length, k'⟩) ∧
      q ∈ [26, 33] ∧ k'.mark = some l := by
  obtain ⟨char, -, slash, ends⟩ := path_moves u
  unfold pathAbsolute at path
  split at path
  · exact ⟨33, _, scan_cons slash (by decide) rfl, by decide, rfl⟩
  · rename_i c rest
    simp only [Bool.and_eq_true, bne_iff_ne] at path
    have part := (pathStates u).scan_from 33 (n := n + 1) (d := d) (l := c :: rest)
      (k := { k with mark := some [] }.advance 47) path.2 (List.cons_ne_nil _ _) List.not_mem_nil
      (fun b inside head => (char b inside).2 (by cases head; exact path.1)) (ends 33 (by decide)).1 (fun _ => rfl)
    have whole := (scan_cons (n := n) (l := c :: rest) slash (by decide) rfl).trans part
    rw [Nat.add_right_comm, Nat.add_assoc] at whole
    exact ⟨26, _, whole, by decide, rfl⟩
  · cases path

theorem passes_path (d : Parsed) (path : pathAbsolute u l = true) (t : UInt8) (cs : Nat) (as : List Action)
    (going : .done ∉ as) (ends : ∀ q ∈ [26, 33], move u q t = some (cs, .requestPath :: as))
    (rest : ∀ k d, perform t as k d = .ok (k, d)) : Passes u (l ++ [t]) d 3 (d.onRequestPath l) cs := by
  refine passes_part (.requestPath :: as) (by simpa using going) fun n k => ?_
  obtain ⟨q, k', ran, states, marked⟩ := scan_path d path n k
  refine ⟨q, k', k', ran, ends q states, ?_⟩
  simp only [perform, Captures.callback, marked, known, Except.map, Captures.registers, rest]

theorem passes_query (d : Parsed) (query : units isQueryChar l = true) (nonempty : l ≠ []) (t : UInt8) (cs : Nat)
    (ends : move u 30 t = some (cs, [.queryString, .requestUri])) :
    Passes u (l ++ [t]) d 29 (d.onRequestQuery l) cs := by
  refine passes_part [.queryString, .requestUri] (by decide) fun n k => ?_
  obtain ⟨start, -, percent, -⟩ := query_moves u
  exact ⟨30, _, _, (queryStates u).scan_from 29 query nonempty (by decide) (fun c inside _ => (start c inside).1)
    percent (fun _ => rfl), ends, rfl⟩

theorem passes_fragment (d : Parsed) (fragment : units isQueryChar l = true) (nonempty : l ≠ []) :
    Passes u (l ++ [32]) d 20 (d.onRequestFragment l) 4 := by
  refine passes_part [.fragment] (by decide) fun n k => ?_
  obtain ⟨start, -, percent, -, ends⟩ := fragment_moves u
  exact ⟨21, _, _, (fragmentStates u).scan_from 20 fragment nonempty (by decide)
    (fun c inside _ => (start c inside).1) percent (fun _ => rfl), ends, rfl⟩

/-- The target of a request, from the space before it to the space behind it. -/
theorem passes_target (r : HttpRequest) (d : Parsed) (path : pathAbsolute u r.path = true)
    (query : units isQueryChar r.query = true) (fragment : units isQueryChar r.fragment = true)
    (unset : d.data.query = [] ∧ d.data.fragment = []) :
    Passes u (r.path ++ printPart (ascii "?") r.query ++ printPart (ascii "#") r.fragment ++ [32]) d 3
      { d with data := { d.data with path := r.path, query := r.query, fragment := r.fragment } } 4 := by
  obtain ⟨noQuery, noFragment⟩ := unset
  obtain ⟨-, -, -, ends⟩ := path_moves u
  obtain ⟨-, -, -, -, querySpace, queryHash⟩ := query_moves u
  have space := passes_path d path 32 4 [.requestUri] (by decide) (fun q states => (ends q states).2.1) (fun _ _ => rfl)
  have hash := passes_path d path 35 20 [.requestUri] (by decide) (fun q states => (ends q states).2.2.1)
    (fun _ _ => rfl)
  have question := passes_path d path 63 29 [] (by decide) (fun q states => (ends q states).2.2.2) (fun _ _ => rfl)
  by_cases queryNil : r.query = []
  · by_cases fragmentNil : r.fragment = []
    · simpa [printPart, queryNil, fragmentNil, Parsed.onRequestPath, noQuery, noFragment] using space
    · have passed := hash.append (passes_fragment _ fragment fragmentNil)
      simpa [printPart, queryNil, fragmentNil, Parsed.onRequestPath, Parsed.onRequestFragment, noQuery, ascii]
        using passed
  · by_cases fragmentNil : r.fragment = []
    · have passed := question.append (passes_query _ query queryNil 32 4 querySpace)
      simpa [printPart, queryNil, fragmentNil, Parsed.onRequestPath, Parsed.onRequestQuery, noFragment, ascii]
        using passed
    · have passed := (question.append (passes_query _ query queryNil 35 20 queryHash)).append
        (passes_fragment _ fragment fragmentNil)
      simpa [printPart, queryNil, fragmentNil, Parsed.onRequestPath, Parsed.onRequestQuery,
        Parsed.onRequestFragment, ascii] using passed

theorem passes_version (d : Parsed) {version : UInt8} (known : version = 0x10 ∨ version = 0x11) :
    Passes u (printVersion version ++ crlf) d 4 { d with data := { d.data with version := version } } 13 := by
  intro n k
  rcases known with rfl | rfl
  · have text : printVersion 0x10 ++ crlf = ascii "HTTP/1.0\r\n" := by decide +kernel
    rw [text]
    cases u <;> exact ⟨_, rfl⟩
  · have text : printVersion 0x11 ++ crlf = ascii "HTTP/1.1\r\n" := by decide +kernel
    rw [text]
    cases u <;> exact ⟨_, rfl⟩

end RequestLine

/-! ### The headers -/

/-- A name that starts with a line end ends the header. -/
def endsHeader : List UInt8 → Bool
  | 10 :: _ => true
  | 13 :: 10 :: _ => true
  | _ => false

section Headers

variable {u : Bool} {name value l : List UInt8} {d : Parsed} {n : Nat} {k : Captures}

/-- A name is read from the start of a line into one of two states that end it alike. -/
theorem scan_name (d : Parsed) (nonempty : name ≠ []) (tokens : ∀ c ∈ name, isToken c = true)
    (inside : endsHeader name = false) (n : Nat) (k : Captures) :
    ∃ q k', scan (step u) name ⟨d, 13, n, k⟩ = .ok (.next ⟨d, q, n + name.length, k'⟩) ∧
      q ∈ [14, 18] ∧ k'.fieldStart = some name := by
  obtain ⟨inName, -, returned, -⟩ := header_moves u
  have more : ∀ c, isToken c = true → move u 14 c = some (14, []) := fun c token => (inName c token).1
  cases name with
  | nil => exact absurd rfl nonempty
  | cons c rest =>
    have token := tokens c List.mem_cons_self
    have later : ∀ c ∈ rest, isToken c = true := fun c member => tokens c (List.mem_cons_of_mem _ member)
    have notLf : c ≠ 10 := by rintro rfl; cases inside
    by_cases cr : c = 13
    · subst cr
      cases rest with
      | nil => exact ⟨18, _, scan_cons returned (by decide) rfl, by decide, rfl⟩
      | cons b rest =>
        have notLf : b ≠ 10 := by rintro rfl; cases inside
        have tail := scan_class (d := d) (n := n + 1 + 1)
          (k := ({ k with fieldStart := some [], field := none }.advance 13).advance b) more
          (fun c member => later c (List.mem_cons_of_mem _ member))
        have whole := ((scan_cons (l := b :: rest) (n := n) (d := d) (k := k) returned (by decide) rfl).trans
          (scan_cons_plain ((inName b (later b List.mem_cons_self)).2 notLf).1)).trans tail
        have used : n + 1 + 1 + rest.length = n + (rest.length + 1 + 1) := by omega
        rw [used] at whole
        exact ⟨14, _, whole, by decide, rfl⟩
    · have tail := scan_class (d := d) (n := n + 1) (k := { k with fieldStart := some [], field := none }.advance c)
        more later
      have whole := (scan_cons (l := rest) (n := n) (d := d) (k := k) (((inName c token).2 notLf).2 cr) (by decide) rfl).trans
        tail
      rw [Nat.add_right_comm, Nat.add_assoc] at whole
      exact ⟨14, _, whole, by decide, rfl⟩

theorem scan_colon {q : Nat} {pad : List UInt8} (states : q ∈ [14, 18]) (started : k.fieldStart = some name)
    (padded : pad = [] ∨ pad = [32]) :
    ∃ k', scan (step u) (58 :: pad) ⟨d, q, n, k⟩ = .ok (.next ⟨d, 15, n + (pad.length + 1), k'⟩) ∧
      k'.field = some name := by
  obtain ⟨-, -, -, ends, space, -⟩ := header_moves u
  have colon := ends q states
  rcases padded with rfl | rfl
  · exact ⟨_, scan_cons colon (by decide) rfl, started⟩
  · have whole := (scan_cons (l := [32]) (n := n) (d := d) (k := k) colon (by decide) rfl).trans
      (scan_cons (l := []) space (by decide) rfl)
    exact ⟨_, whole, started⟩

theorem scan_value_nil (d : Parsed) (named : k.field = some name) :
    ∃ k', scan (step u) crlf ⟨d, 15, n, k⟩ =
      .ok (.next ⟨d.onRequestHttpField name name.length [], 13, n + 2, k'⟩) := by
  obtain ⟨-, -, -, -, -, ends, -, feed, -⟩ := header_moves u
  have performed : perform 13 [.mark, .writeValue] k d =
      .ok ({ k with mark := some [] }, d.onRequestHttpField name name.length []) := by
    simp only [perform, Captures.callback, Captures.registers, named, known, Except.bind, Except.map]
  have line := (scan_cons (l := [10]) (n := n) ends (by decide) performed).trans (scan_cons_plain (l := []) feed)
  exact ⟨_, line⟩

theorem scan_value (d : Parsed) (named : k.field = some name) (nonempty : value ≠ [])
    (plain : ∀ c ∈ value, isControl c = false) (start : value.head? ≠ some 32) :
    ∃ k', scan (step u) (value ++ crlf) ⟨d, 15, n, k⟩ =
      .ok (.next ⟨d.onRequestHttpField name name.length value, 13, n + value.length + 2, k'⟩) := by
  obtain ⟨-, inValue, -, -, -, -, ends, feed, -⟩ := header_moves u
  have more : ∀ c, (!isControl c) = true → move u 16 c = some (16, []) :=
    fun c visible => (inValue c (by simpa using visible)).1
  cases value with
  | nil => exact absurd rfl nonempty
  | cons c rest =>
    have notSpace : c ≠ 32 := by rintro rfl; exact start rfl
    have tail := scan_class (d := d) (n := n + 1) (k := { k with mark := some [] }.advance c) more
      (fun c member => by rw [plain c (List.mem_cons_of_mem _ member)]; rfl)
    have text := (scan_cons (l := rest) (n := n) (d := d) (k := k)
      ((inValue c (plain c List.mem_cons_self)).2 notSpace) (by decide) rfl).trans tail
    have performed : perform 13 [.writeValue] (({ k with mark := some [] }.advance c).extend rest) d =
        .ok (({ k with mark := some [] }.advance c).extend rest,
          d.onRequestHttpField name name.length (c :: rest)) := by
      simp only [perform, Captures.callback, Captures.registers, Captures.extend, Captures.advance, named,
        known, Except.bind, Except.map, Option.map_some, List.nil_append, List.cons_append]
    rw [Nat.add_right_comm, Nat.add_assoc] at text
    have line := (scan_cons (l := [10]) (n := n + (c :: rest).length) ends (by decide) performed).trans
      (scan_cons_plain (l := []) feed)
    exact ⟨_, (scan_append_of_next (r := crlf) text).trans line⟩

theorem passes_header (d : Parsed) {pad : List UInt8} (nonempty : name ≠ []) (tokens : ∀ c ∈ name, isToken c = true)
    (inside : endsHeader name = false) (padded : pad = [] ∨ pad = [32])
    (plain : ∀ c ∈ value, isControl c = false) (start : value.head? ≠ some 32) :
    Passes u (name ++ 58 :: pad ++ value ++ crlf) d 13 { d with data := d.data.setHeader name value } 13 := by
  intro n k
  obtain ⟨q, k₁, named, states, started⟩ := scan_name (u := u) d nonempty tokens inside n k
  obtain ⟨k₂, coloned, field⟩ := scan_colon (u := u) (d := d) (n := n + name.length) states started padded
  have taken : d.onRequestHttpField name name.length value = { d with data := d.data.setHeader name value } := by
    rw [Parsed.onRequestHttpField, if_neg (by simpa using nonempty), List.take_length]
  have valued : ∃ k₃, scan (step u) (value ++ crlf) ⟨d, 15, n + name.length + (pad.length + 1), k₂⟩ =
      .ok (.next ⟨{ d with data := d.data.setHeader name value }, 13,
        n + name.length + (pad.length + 1) + value.length + 2, k₃⟩) := by
    rw [← taken]
    by_cases empty : value = []
    · rw [empty]
      exact scan_value_nil d field
    · exact scan_value d field empty plain start
  obtain ⟨k₃, valued⟩ := valued
  refine ⟨k₃, ?_⟩
  rw [List.append_assoc (name ++ 58 :: pad), List.append_assoc, scan_append_of_next named,
    scan_append_of_next coloned, valued]
  simp only [List.length_append, List.length_cons, Nat.add_assoc]
  rfl

/-- What a printed header needs to be read as it was. -/
structure Readable (h : List UInt8 × List UInt8) : Prop where
  nonempty : h.1 ≠ []
  tokens : ∀ c ∈ h.1, isToken c = true
  plain : ∀ c ∈ h.2, isControl c = false
  start : h.2.head? ≠ some 32

theorem Readable.passes {h : List UInt8 × List UInt8} (readable : Readable h) (d : Parsed)
    (inside : endsHeader h.1 = false) :
    Passes u (printHeader (ascii ":") h) d 13 { d with data := d.data.setHeader h.1 h.2 } 13 :=
  passes_header d readable.nonempty readable.tokens inside (.inl rfl) readable.plain readable.start

theorem passes_headers (d : Parsed) {hs : MapType} (readable : ∀ h ∈ hs, Readable h)
    (inside : ∀ h ∈ hs, endsHeader h.1 = false) :
    Passes u (hs.flatMap (printHeader (ascii ":"))) d 13
      { d with data := { d.data with headers := OrderedMap.setAll strcasecmpLt d.data.headers hs } } 13 := by
  induction hs generalizing d with
  | nil => exact fun n k => ⟨k, rfl⟩
  | cons h hs ih =>
    have first := (readable h List.mem_cons_self).passes (u := u) d (inside h List.mem_cons_self)
    have rest := ih { d with data := d.data.setHeader h.1 h.2 }
      (fun h member => readable h (List.mem_cons_of_mem _ member))
      (fun h member => inside h (List.mem_cons_of_mem _ member))
    have both := first.append rest
    rw [HttpRequest.setHeader, MapType.set] at both
    exact both

theorem endsHeader_append (r : List UInt8) (ends : endsHeader l = true) : endsHeader (l ++ r) = true := by
  unfold endsHeader at ends
  split at ends
  · rfl
  · rfl
  · cases ends

/-- A line that starts with a line end is the last. -/
theorem scan_last (d : Parsed) (last : endsHeader l = true) (n : Nat) (k : Captures) :
    ∃ used k', scan (step u) l ⟨d, 13, n, k⟩ = .ok (.stop ⟨d, 348, used, k'⟩) ∧ used ≤ n + 2 := by
  obtain ⟨-, -, returned, -, -, -, -, -, feed, direct⟩ := header_moves u
  unfold endsHeader at last
  split at last
  · exact ⟨_, _, scan_done direct (by decide) rfl, by omega⟩
  · rename_i rest
    have whole := (scan_cons (l := 10 :: rest) (n := n) (d := d) (k := k) returned (by decide) rfl).trans
      (scan_done feed (by decide) rfl)
    exact ⟨_, _, whole, Nat.le_refl _⟩
  · cases last

theorem scan_end (d : Parsed) (n : Nat) (k : Captures) :
    ∃ k', scan (step u) crlf ⟨d, 13, n, k⟩ = .ok (.stop ⟨d, 348, n + 2, k'⟩) := by
  obtain ⟨-, -, returned, -, -, -, -, -, feed, -⟩ := header_moves u
  have whole := (scan_cons (l := [10]) (n := n) (d := d) (k := k) returned (by decide) rfl).trans
    (scan_done (l := []) feed (by decide) rfl)
  exact ⟨_, whole⟩

/-- A header whose name starts with a line end stops the machine inside the headers. -/
theorem scan_headers_early (d : Parsed) {hs : MapType} (tail : List UInt8) (readable : ∀ h ∈ hs, Readable h)
    (early : ∃ h ∈ hs, endsHeader h.1 = true) (n : Nat) (k : Captures) :
    ∃ t, scan (step u) (hs.flatMap (printHeader (ascii ":")) ++ tail) ⟨d, 13, n, k⟩ = .ok (.stop t) ∧
      t.used ≤ n + (hs.flatMap (printHeader (ascii ":"))).length := by
  induction hs generalizing d n k with
  | nil =>
    obtain ⟨h, member, -⟩ := early
    cases member
  | cons h hs ih =>
    have first := readable h List.mem_cons_self
    rw [List.flatMap_cons, List.append_assoc, List.length_append]
    by_cases ends : endsHeader h.1 = true
    · have last : endsHeader (printHeader (ascii ":") h ++ (hs.flatMap (printHeader (ascii ":")) ++ tail)) = true := by
        simp only [printHeader, List.append_assoc]
        exact endsHeader_append _ ends
      obtain ⟨used, k', ran, bound⟩ := scan_last (u := u) d last n k
      refine ⟨_, ran, ?_⟩
      have long : 2 ≤ (printHeader (ascii ":") h).length := by
        simp only [printHeader, List.length_append, crlf, List.length_cons]
        omega
      exact Nat.le_trans bound (by omega)
    · obtain ⟨k', ran⟩ := first.passes (u := u) d (by simpa using ends) n k
      obtain ⟨g, member, bad⟩ := early
      rcases List.mem_cons.mp member with rfl | later
      · exact absurd bad ends
      · obtain ⟨t, stopped, bound⟩ := ih { d with data := d.data.setHeader h.1 h.2 }
          (fun h member => readable h (List.mem_cons_of_mem _ member)) ⟨g, later, bad⟩
          (n + (printHeader (ascii ":") h).length) k'
        refine ⟨t, (scan_append_of_next ran).trans stopped, ?_⟩
        omega

end Headers

/-! ### The whole request -/

/-- A request as the round trip is about. The headers are a map, and the two that `dump` writes by
itself are not among them. -/
structure PlainRequest (uriRelaxed : Bool) extends HttpRequest where
  versioned : version = 0x10 ∨ version = 0x11
  absolute : pathAbsolute uriRelaxed path = true
  queried : units isQueryChar query = true
  fragmented : units isQueryChar fragment = true
  ordered : OrderedMap.Ordered folded headers
  others : ∀ h ∈ headers, added h.1 = false
  readable : ∀ h ∈ headers, Readable h

/-- What a call on the printed request has to leave. -/
structure Recovers [Boost] (r : HttpRequest) (n : Nat) (data : List UInt8) (m : HttpRequestParser) : Prop where
  finished : m.isFinished = 1
  sound : m.hasError = false
  method : m.data.method = r.method
  version : m.data.version = r.version
  path : m.data.path = r.path
  query : m.data.query = r.query
  fragment : m.data.fragment = r.fragment
  headers : m.data.headers.filter (fun h => !added h.1) = r.headers
  contentLength : m.contentLength = r.body.length
  unconsumed : r.dump.drop n = r.body
  moved : data.take (r.dump.length - n) = r.body

/-- Printed, and read back in one call of a fresh parser. -/
def RoundTrips [Boost] (junk : Uninit) (r : HttpRequest) : Prop :=
  ∃ n data m, (HttpRequestParser.new junk).execute r.dump r.dump.length = .ok (n, data, m) ∧ Recovers r n data m

namespace HttpRequest

def entries (r : HttpRequest) : MapType :=
  (ascii "Connection", announced r.close) :: (r.headers ++ contentEntries r.body)

/-- What the parser makes of the request line. -/
def started (r : HttpRequest) : HttpRequest :=
  { HttpRequest.new with
    method := r.method, version := r.version, path := r.path, query := r.query, fragment := r.fragment }

/-- What it makes of the whole. -/
def parsed (r : HttpRequest) : HttpRequest :=
  { r.started with headers := OrderedMap.setAll strcasecmpLt [] r.entries }

def requestLine (r : HttpRequest) : List UInt8 :=
  httpMethodToChars r.method ++ [32] ++
    (r.path ++ printPart (ascii "?") r.query ++ printPart (ascii "#") r.fragment ++ [32]) ++
    (printVersion r.version ++ crlf)

def lines (r : HttpRequest) : List UInt8 :=
  printConnection r.close ++ (r.headers.flatMap (printHeader (ascii ":")) ++ printContent r.body)

end HttpRequest

namespace PlainRequest

variable {u : Bool} (r : PlainRequest u)

theorem dump_eq : r.dump = r.requestLine ++ (r.lines ++ (crlf ++ r.body)) := by
  simp only [HttpRequest.dump, HttpRequest.requestLine, HttpRequest.lines, printBody_eq,
    printHeaders_eq (ascii ":") r.others, List.append_assoc]
  rfl

theorem passes_requestLine (usual : r.method ≠ .msearch) (valid : r.method ≠ .invalidMethod) :
    Passes u r.requestLine ⟨0, HttpRequest.new⟩ 1 ⟨0, r.started⟩ 13 :=
  ((passes_method ⟨0, HttpRequest.new⟩ usual valid).append
    (passes_target r.toHttpRequest _ r.absolute r.queried r.fragmented ⟨rfl, rfl⟩)).append
    (passes_version _ r.versioned)

theorem passes_connection (d : Parsed) (close : Bool) :
    Passes u (printConnection close) d 13
      { d with data := d.data.setHeader (ascii "Connection") (announced close) } 13 := by
  have name : ascii "Connection" ≠ [] ∧ (∀ c ∈ ascii "Connection", isToken c = true) ∧
      endsHeader (ascii "Connection") = false := by decide +kernel
  have value : (∀ c ∈ announced close, isControl c = false) ∧ (announced close).head? ≠ some 32 := by
    cases close <;> decide +kernel
  exact passes_header d name.1 name.2.1 name.2.2 (.inr rfl) value.1 value.2

theorem passes_content (d : Parsed) (body : List UInt8) :
    Passes u (printContent body) d 13
      { d with data := { d.data with
        headers := OrderedMap.setAll strcasecmpLt d.data.headers (contentEntries body) } } 13 := by
  unfold printContent contentEntries
  split
  · exact fun n k => ⟨k, rfl⟩
  · have name : ascii "Content-Length" ≠ [] ∧ (∀ c ∈ ascii "Content-Length", isToken c = true) ∧
        endsHeader (ascii "Content-Length") = false := by decide +kernel
    have digit : ∀ c : UInt8, 48 ≤ c ∧ c ≤ 57 → isControl c = false ∧ c ≠ 32 := by decide +kernel
    have plain : ∀ c ∈ printNat body.length, isControl c = false :=
      fun c member => (digit c (printNat_bounds member)).1
    have start : (printNat body.length).head? ≠ some 32 :=
      fun space => (digit 32 (printNat_bounds (List.mem_of_mem_head? space))).2 rfl
    have line := passes_header (u := u) d name.1 name.2.1 name.2.2 (.inr rfl) plain start
    rw [HttpRequest.setHeader, MapType.set] at line
    exact line

theorem passes_lines (inside : ∀ h ∈ r.headers, endsHeader h.1 = false) :
    Passes u r.lines ⟨0, r.started⟩ 13 ⟨0, r.parsed⟩ 13 := by
  have passed := (passes_connection (u := u) ⟨0, r.started⟩ r.close).append
    ((passes_headers _ r.readable inside).append (passes_content _ r.body))
  have same : OrderedMap.setAll strcasecmpLt (OrderedMap.setAll strcasecmpLt
      (r.started.setHeader (ascii "Connection") (announced r.close)).headers r.headers) (contentEntries r.body) =
      r.parsed.headers := by
    rw [← OrderedMap.setAll_append]
    rfl
  dsimp only at passed
  rw [same] at passed
  exact passed

theorem entries_eq : Entries r.headers r.close r.body r.entries where
  ordered := r.ordered
  others := r.others
  perm := by
    unfold HttpRequest.entries addedEntries
    exact List.perm_middle.symm
  kept := by
    have dropped : (contentEntries r.body).filter (fun h => !added h.1) = [] := by
      refine filter_extra fun e member => ?_
      have extra : e ∈ addedEntries r.close r.body := List.mem_cons_of_mem _ member
      exact added_of_mem extra
    rw [HttpRequest.entries, List.filter_cons, List.filter_append, filter_others r.others, dropped, List.append_nil]
    rfl

/-- The whole printed request: the machine stops behind the empty line. -/
theorem scan_dump (usual : r.method ≠ .msearch) (valid : r.method ≠ .invalidMethod)
    (inside : ∀ h ∈ r.headers, endsHeader h.1 = false) :
    ∃ t, scan (step u) r.dump Tokens.new = .ok (.stop t) ∧ t.toParsed = ⟨0, r.parsed⟩ ∧ t.cs = 348 ∧
      r.dump.drop t.used = r.body ∧ t.used + r.body.length = r.dump.length := by
  have passed := (r.passes_requestLine usual valid).append (r.passes_lines inside)
  obtain ⟨k, ran⟩ := passed 0 .none
  obtain ⟨k', ended⟩ := scan_end (u := u) ⟨0, r.parsed⟩
    (0 + (r.requestLine ++ r.lines).length) k
  have used : 0 + (r.requestLine ++ r.lines).length + 2 =
      (r.requestLine ++ r.lines ++ crlf).length := by
    simp only [Nat.zero_add, List.length_append, crlf, List.length_cons, List.length_nil]
  have text : r.dump = r.requestLine ++ r.lines ++ crlf ++ r.body := by
    rw [r.dump_eq]
    simp only [List.append_assoc]
  rw [used] at ended
  have whole : scan (step u) r.dump Tokens.new =
      .ok (.stop ⟨⟨0, r.parsed⟩, 348, (r.requestLine ++ r.lines ++ crlf).length, k'⟩) := by
    rw [text, List.append_assoc _ crlf]
    exact (scan_append_of_next ran).trans (scan_append_of_stop ended)
  refine ⟨_, whole, rfl, rfl, ?_, ?_⟩
  · rw [text]
    exact List.drop_left
  · rw [text]
    exact List.length_append.symm

theorem contentLength_parsed [Boost] (small : r.body.length < 2 ^ 64) :
    r.parsed.getHeaderAs (ascii "content-length") 0 = r.body.length := by
  have found : r.parsed.headers.find (ascii "content-length") =
      if r.body = [] then none else some (printNat r.body.length) := r.entries_eq.find_content
  unfold HttpRequest.getHeaderAs
  by_cases empty : r.body = []
  · rw [found, if_pos empty, empty]
    rfl
  · simp only [found, if_neg empty, Boost.lexicalCast_printNat small, Option.getD_some]

/-- One call on the printed request: where the machine on tokens stops, the call returns. -/
theorem execute_dump {junk : Uninit} {r : HttpRequest} {t : Tokens}
    (stopped : scan (step junk.uriRelaxed) r.dump Tokens.new = .ok (.stop t)) (small : r.dump.length < 2 ^ 31) :
    ∃ s, (HttpRequestParser.new junk).execute r.dump r.dump.length =
        .ok (s.p, overwrite r.dump 0 (r.dump.drop s.p), (HttpRequestParser.new junk).leave s) ∧
      Alike junk.uriRelaxed s t := by
  have nonempty : r.dump ≠ [] := by
    intro empty
    rw [empty] at stopped
    cases stopped
  obtain ⟨s, executed, -, alike, -⟩ := execute_tracks [] (idle_new junk) nonempty small stopped
  rw [List.append_nil] at executed
  refine ⟨s, ?_, alike⟩
  rw [HttpRequestParser.execute, executed, List.take_length]

theorem roundTrips [Boost] {junk : Uninit} (r : PlainRequest junk.uriRelaxed) (usual : r.method ≠ .msearch)
    (valid : r.method ≠ .invalidMethod) (inside : ∀ h ∈ r.headers, endsHeader h.1 = false)
    (small : r.dump.length < 2 ^ 31) : RoundTrips junk r.toHttpRequest := by
  obtain ⟨t, stopped, parsed, final, rest, total⟩ := r.scan_dump usual valid inside
  obtain ⟨s, executed, alike⟩ := execute_dump stopped small
  have live : (HttpRequestParser.new junk).parser.cs ≠ 0 := Nat.one_ne_zero
  have data : ((HttpRequestParser.new junk).leave s).data = r.parsed :=
    (congrArg Parsed.data alike.parsed).trans (congrArg Parsed.data parsed)
  have left : r.dump.drop s.p = r.body := by rw [alike.position, rest]
  refine ⟨_, _, _, executed, ?_, ?_, ?_, ?_, ?_, ?_, ?_, ?_, ?_, left, ?_⟩
  · rw [HttpSession.isFinished_leave alike live, final]
    rfl
  · rw [HttpSession.hasError_leave alike live, final, congrArg Parsed.error parsed]
    rfl
  · rw [data]; rfl
  · rw [data]; rfl
  · rw [data]; rfl
  · rw [data]; rfl
  · rw [data]; rfl
  · rw [data]
    exact r.entries_eq.filter_setAll
  · rw [HttpRequestParser.contentLength, data]
    exact r.contentLength_parsed (by omega)
  · have size : r.dump.length - s.p = r.body.length := by rw [alike.position]; omega
    rw [left, size, overwrite_eq (by omega), List.take_zero, List.nil_append, List.take_left]

/-- A name that starts with a line end leaves more than the body unconsumed. -/
theorem not_roundTrips_of_ends [Boost] {junk : Uninit} (r : PlainRequest junk.uriRelaxed) (usual : r.method ≠ .msearch)
    (valid : r.method ≠ .invalidMethod) (small : r.dump.length < 2 ^ 31)
    (early : ∃ h ∈ r.headers, endsHeader h.1 = true) : ¬ RoundTrips junk r.toHttpRequest := by
  rintro ⟨n, data, m, executed, recovers⟩
  obtain ⟨k, ran⟩ := ((r.passes_requestLine usual valid).append
    (passes_connection ⟨0, r.started⟩ r.close)) 0 .none
  obtain ⟨t, stopped, bound⟩ := scan_headers_early _ (printContent r.body ++ (crlf ++ r.body)) r.readable early
    (0 + (r.requestLine ++ printConnection r.close).length) k
  have text : r.dump = r.requestLine ++ printConnection r.close ++
      (r.headers.flatMap (printHeader (ascii ":")) ++ (printContent r.body ++ (crlf ++ r.body))) := by
    rw [r.dump_eq, HttpRequest.lines]
    simp only [List.append_assoc]
  have whole : scan (step junk.uriRelaxed) r.dump Tokens.new = .ok (.stop t) := by
    rw [text]
    exact (scan_append_of_next ran).trans stopped
  obtain ⟨s, executed', alike⟩ := execute_dump whole small
  obtain ⟨rfl, -⟩ := Prod.mk.inj (Except.ok.inj (executed'.symm.trans executed))
  have rest := congrArg List.length recovers.unconsumed
  have total := congrArg List.length text
  have position := alike.position
  simp only [List.length_append, List.length_drop, crlf, List.length_cons, List.length_nil] at rest total bound
  omega

/-- `M - SEARCH` is read as the method `M` with the target `-`, behind which there is no version. -/
theorem not_roundTrips_of_msearch [Boost] (junk : Uninit) (r : HttpRequest) (unusual : r.method = .msearch) :
    ¬ RoundTrips junk r := by
  rintro ⟨n, data, m, executed, recovers⟩
  have name : httpMethodToChars .msearch = ascii "M - S" ++ ascii "EARCH" := by decide +kernel
  have printed : httpMethodToChars r.method <+: r.dump := by
    unfold HttpRequest.dump
    simp only [List.append_assoc, List.prefix_append]
  obtain ⟨rest, text⟩ := printed
  rw [unusual, name, List.append_assoc] at text
  rcases HttpRequestParser.httpParserExecute_ok (HttpRequestParser.execute_ok executed).1 with ⟨empty, -⟩ | ⟨-, -, move, ran, -, rfl, -⟩
  · rw [← text] at empty
    simp [ascii] at empty
  · rw [List.take_length, ← text] at ran
    obtain ⟨owner, stopped⟩ : ∃ owner, scan (HttpRequestParser.step (ascii "M - S" ++ (ascii "EARCH" ++ rest)))
        (ascii "M - S" ++ (ascii "EARCH" ++ rest)) ⟨0, 1, (HttpRequestParser.new junk).reset⟩ =
          .ok (.stop ⟨4, 0, owner⟩) := ⟨_, rfl⟩
    obtain rfl := Except.ok.inj (stopped.symm.trans ran)
    cases recovers.finished

/-- No call leaves `INVALID_METHOD`. -/
theorem not_roundTrips_of_invalid [Boost] (junk : Uninit) (r : HttpRequest) (invalid : r.method = .invalidMethod) :
    ¬ RoundTrips junk r := by
  rintro ⟨n, data, m, executed, recovers⟩
  have kept : m.data.method ≠ .invalidMethod :=
    HttpRequestParser.httpParserExecute_parsed (P := fun d => d.data.method ≠ .invalidMethod)
      (fun _ _ called held => called.valid held) (HttpRequestParser.execute_ok executed).1
      (show HttpMethod.get ≠ .invalidMethod by decide)
  exact kept (recovers.method.trans invalid)

end PlainRequest

/-- A request comes back from `dump` and a fresh parser exactly when its method is printed as one word
that the parser knows, no header starts with a line end, and the length of the text is an `int`. -/
theorem roundTrips_iff [Boost] (junk : Uninit) (r : PlainRequest junk.uriRelaxed) :
    RoundTrips junk r.toHttpRequest ↔
      r.method ≠ .msearch ∧ r.method ≠ .invalidMethod ∧ (∀ h ∈ r.headers, endsHeader h.1 = false) ∧
        r.dump.length < 2 ^ 31 := by
  constructor
  · intro trips
    have usual : r.method ≠ .msearch := fun unusual => PlainRequest.not_roundTrips_of_msearch junk _ unusual trips
    have valid : r.method ≠ .invalidMethod := fun invalid => PlainRequest.not_roundTrips_of_invalid junk _ invalid trips
    have small : r.dump.length < 2 ^ 31 := by
      obtain ⟨n, data, m, executed, -⟩ := trips
      exact HttpRequestParser.small_of_execute executed
    refine ⟨usual, valid, fun h member => ?_, small⟩
    by_contra ends
    exact r.not_roundTrips_of_ends usual valid small ⟨h, member, by simpa using ends⟩ trips
  · rintro ⟨usual, valid, inside, small⟩
    exact r.roundTrips usual valid inside small

def msearchRoot : PlainRequest false where
  toHttpRequest := { HttpRequest.new with method := .msearch }
  versioned := .inr rfl
  absolute := rfl
  queried := rfl
  fragmented := rfl
  ordered := ordered_nil
  others := by rintro h ⟨⟩
  readable := by rintro h ⟨⟩

/-- The parser stops with an error at the third word of the request line. -/
theorem msearchRoot_fails :
    ¬ RoundTrips ⟨0, false⟩ msearchRoot.toHttpRequest ∧
      ((HttpRequestParser.new ⟨0, false⟩).execute msearchRoot.dump msearchRoot.dump.length).toOption.map
        (fun out => (out.1, out.2.2.hasError)) = some (4, true) :=
  ⟨PlainRequest.not_roundTrips_of_msearch _ _ rfl, by decide +kernel⟩

end Cool.Http
