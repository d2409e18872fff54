import Cool.Http.ClientGrammar
import Cool.Http.Headers

/-!
# A response printed and read

`HttpResponse::dump` against `HttpResponseParser`: the machine goes through the printed response line by
line, and the callbacks see in the buffer what was printed.
-/

namespace Cool.Http.Client

open Foundation HttpResponseParser

variable {b l r : List UInt8} {d d' d'' : ParsedResponse} {S S' S'' : List Nat}

/-! ### Texts in the buffer -/

theorem standing_append {p : Nat} (stands : l ++ r <+: b.drop p) :
    l <+: b.drop p ∧ r <+: b.drop (p + l.length) := by
  obtain ⟨rest, text⟩ := stands
  rw [List.append_assoc] at text
  refine ⟨⟨r ++ rest, text⟩, rest, ?_⟩
  rw [← List.drop_drop, ← text, List.drop_left]

theorem standing_le {p : Nat} (stands : l <+: b.drop p) (nonempty : l ≠ []) : p + l.length ≤ b.length := by
  have short := stands.length_le
  have long := List.length_pos_iff.mpr nonempty
  rw [List.length_drop] at short
  omega

theorem distance_le {start p : Nat} (inside : start ≤ p) : distance start p ≤ p := by
  rw [distance, if_pos inside]
  exact Nat.sub_le p start

theorem distance_add (p n : Nat) : distance p (p + n) = n := by
  rw [distance, if_pos (Nat.le_add_right p n), Nat.add_sub_cancel_left]

/-- What a callback gets of a text that stands in the buffer, with more behind it. -/
theorem text_standing {p : Nat} (stands : l ++ r <+: b.drop p) (more : r ≠ []) (small : l.length < 2 ^ 63) :
    text b p l.length = .ok l := by
  obtain ⟨rest, found⟩ := (standing_append stands).1
  have room := standing_le stands (by simp [more])
  rw [List.length_append] at room
  rw [text, if_neg (by omega), if_neg (by omega), ← found, List.take_left]

theorem pointer_standing {p : Nat} (stands : l <+: b.drop p) (nonempty : l ≠ []) :
    ∃ rest, pointer b p = .ok (l ++ rest) := by
  have room := standing_le stands nonempty
  have long := List.length_pos_iff.mpr nonempty
  obtain ⟨rest, found⟩ := stands
  refine ⟨rest, ?_⟩
  rw [pointer, if_pos (by omega), found]

/-- The machine goes over `l`, which stands in the buffer, from the states `S` to the states `S'`,
whatever its registers are. -/
def Passes (b l : List UInt8) (d : ParsedResponse) (S : List Nat) (d' : ParsedResponse) (S' : List Nat) :
    Prop :=
  ∀ p q g, q ∈ S → l <+: b.drop p → l.length < 2 ^ 63 → ∃ q' g', q' ∈ S' ∧
    scan (step b) l ⟨p, q, d, g⟩ = .ok (.next ⟨p + l.length, q', d', g'⟩)

theorem Passes.nil (known : S ⊆ S') : Passes b [] d S d S' :=
  fun _ q g start _ _ => ⟨q, g, known start, rfl⟩

theorem Passes.append (first : Passes b l d S d' S') (second : Passes b r d' S' d'' S'') :
    Passes b (l ++ r) d S d'' S'' := by
  intro p q g start stands small
  rw [List.length_append] at small
  obtain ⟨before, behind⟩ := standing_append stands
  obtain ⟨q₁, g₁, middle, ran⟩ := first p q g start before (by omega)
  obtain ⟨q₂, g₂, final, ran'⟩ := second (p + l.length) q₁ g₁ middle behind (by omega)
  refine ⟨q₂, g₂, final, ?_⟩
  rw [scan_append_of_next ran, ran', List.length_append, Nat.add_assoc]

/-! ### Header lines -/

section Line

variable {name value : List UInt8} {p q : Nat} {g : HttpclientParser}

theorem perform_name {as : List Action}
    (choice : as ∈ [[.startField], [.writeConnectionClose, .startField], [.mark, .startField]]) :
    .done ∉ as ∧ ∃ g', perform b p as ⟨d, g⟩ = .ok ⟨d, g'⟩ ∧ g'.fieldStart = p := by
  simp only [List.mem_cons, List.not_mem_nil, or_false] at choice
  rcases choice with rfl | rfl | rfl <;> exact ⟨by decide, _, rfl, rfl⟩

theorem scan_name (d : ParsedResponse) (nonempty : name ≠ []) (tokens : ∀ c ∈ name, isToken c = true)
    (start : q ∈ lineStates) :
    ∃ q' g', scan (step b) name ⟨p, q, d, g⟩ = .ok (.next ⟨p + name.length, q', d, g'⟩) ∧
      q' ∈ nameStates ∧ g'.fieldStart = p := by
  obtain ⟨inName, -⟩ := name_moves
  cases name with
  | nil => exact absurd rfl nonempty
  | cons c rest =>
    obtain ⟨q₁, entered, as, choice, moved⟩ :=
      leads_iff.mp ((inName c (tokens c List.mem_cons_self)).1 q start)
    obtain ⟨going, g', called, marked⟩ := perform_name (b := b) (p := p) (d := d) (g := g) choice
    obtain ⟨q₂, inside, ran⟩ := scan_class (b := b) (l := rest) (p := p + 1) (m := ⟨d, g'⟩)
      (fun c token => (inName c token).2) (fun c member => tokens c (List.mem_cons_of_mem _ member)) entered
    refine ⟨q₂, g', ?_, inside, marked⟩
    rw [scan_cons moved going called, ran, List.length_cons, Nat.add_right_comm, Nat.add_assoc]

theorem scan_colon (start : q ∈ nameStates) :
    ∃ q' g', scan (step b) (ascii ": ") ⟨p, q, d, g⟩ = .ok (.next ⟨p + 2, q', d, g'⟩) ∧
      q' ∈ colonStates ∧ g'.fieldStart = g.fieldStart ∧ g'.fieldLen = distance g.fieldStart p := by
  obtain ⟨q₁, coloned, colon⟩ := moves_one (name_moves.2 q start)
  obtain ⟨q₂, spaced, space⟩ := moves_one ((value_moves.2.2.1 q₁ coloned).1)
  have whole := (scan_cons (b := b) (l := [32]) (p := p) (m := ⟨d, g⟩) colon (by decide) rfl).trans
    (scan_cons (l := []) space (by decide) rfl)
  exact ⟨q₂, _, whole, spaced, rfl, rfl⟩

theorem scan_feed {T : List Nat} {A : List (List Action)} (led : leads q 10 T A = true)
    (quiet : A ⊆ [[], [.transChunked]]) :
    ∃ q' ∈ T, scan (step b) [10] ⟨p, q, d, g⟩ = .ok (.next ⟨p + 1, q', d, g⟩) := by
  obtain ⟨q', target, as, choice, moved⟩ := leads_iff.mp led
  have one := quiet choice
  simp only [List.mem_cons, List.not_mem_nil, or_false] at one
  rcases one with rfl | rfl <;> exact ⟨q', target, scan_cons moved (by decide) rfl⟩

/-- A name that has been read, and where it stands. -/
structure Named (b name : List UInt8) (g : HttpclientParser) : Prop where
  nonempty : name ≠ []
  length : g.fieldLen = name.length
  spelled : text b g.fieldStart g.fieldLen = .ok name

theorem Named.onResponseHttpField (named : Named b name g) (d : ParsedResponse) (value : List UInt8) :
    d.onResponseHttpField g.fieldLen (text b g.fieldStart g.fieldLen) (.ok value) =
      .ok { d with data := d.data.setHeader name value } := by
  have some_ : g.fieldLen ≠ 0 := by simpa [named.length] using named.nonempty
  simp only [ParsedResponse.onResponseHttpField, if_neg some_, named.spelled]

theorem perform_value {as : List Action} (choice : as ∈ [[.writeValue], [.writeContentLen, .writeValue]])
    (named : Named b name g) (cut : text b g.mark (distance g.mark p) = .ok value) :
    .done ∉ as ∧ perform b p as ⟨d, g⟩ = .ok ⟨{ d with data := d.data.setHeader name value }, g⟩ := by
  simp only [List.mem_cons, List.not_mem_nil, or_false] at choice
  rcases choice with rfl | rfl <;>
    exact ⟨by decide, by simp only [perform, callback, registers, cut, named.onResponseHttpField]⟩

theorem scan_value_nil (named : Named b name g) (states : q ∈ colonStates) (stands : crlf <+: b.drop p) :
    ∃ q' g', scan (step b) crlf ⟨p, q, d, g⟩ =
        .ok (.next ⟨p + 2, q', { d with data := d.data.setHeader name [] }, g'⟩) ∧ q' ∈ lineStates := by
  obtain ⟨-, -, behind, -, feed, -⟩ := value_moves
  obtain ⟨q₁, ended, returned⟩ := moves_one (behind q states).2
  have cut : text b p (distance p p) = .ok [] := by
    rw [show distance p p = 0 from distance_add p 0]
    exact text_standing (l := []) (r := crlf) stands (by decide) (Nat.two_pow_pos 63)
  have called := named.onResponseHttpField d []
  have performed : perform b p [.mark, .writeValue] ⟨d, g⟩ =
      .ok ⟨{ d with data := d.data.setHeader name [] }, { g with mark := p }⟩ := by
    simp only [perform, callback, registers, cut, called]
  obtain ⟨q₂, line, fed⟩ := scan_feed (b := b) (p := p + 1) (g := { g with mark := p })
    (d := { d with data := d.data.setHeader name [] }) (feed q₁ ended) (by decide)
  exact ⟨q₂, _, (scan_cons (l := [10]) returned (by decide) performed).trans fed, line⟩

theorem scan_value (named : Named b name g) (nonempty : value ≠ []) (plain : ∀ c ∈ value, isLineEnd c = false)
    (start : ∀ c, value.head? = some c → isSpace c = false) (states : q ∈ colonStates)
    (stands : value ++ crlf <+: b.drop p) (small : value.length < 2 ^ 63) :
    ∃ q' g', scan (step b) (value ++ crlf) ⟨p, q, d, g⟩ =
        .ok (.next ⟨p + value.length + 2, q', { d with data := d.data.setHeader name value }, g'⟩) ∧
      q' ∈ lastStates := by
  obtain ⟨begins, inValue, -, ends, -, feed⟩ := value_moves
  obtain ⟨q₁, inside, ran⟩ := scan_marked (b := b) (p := p) (d := d) (g := g) nonempty
    (fun c head => begins c (start c head) q states) inValue plain
  obtain ⟨q₂, returned, as, choice, moved⟩ := leads_iff.mp (ends q₁ inside)
  have cut : text b p (distance p (p + value.length)) = .ok value := by
    rw [distance_add]
    exact text_standing stands (by decide) small
  have marked : Named b name { g with mark := p } := ⟨named.nonempty, named.length, named.spelled⟩
  obtain ⟨going, performed⟩ := perform_value (d := d) choice marked cut
  obtain ⟨q₃, line, fed⟩ := scan_feed (b := b) (p := p + value.length + 1) (g := { g with mark := p })
    (d := { d with data := d.data.setHeader name value }) (feed q₂ returned) (by decide)
  have whole := (scan_append_of_next (r := crlf) ran).trans ((scan_cons (l := [10]) moved going performed).trans fed)
  exact ⟨q₃, _, whole, line⟩

/-- What a printed header needs to be read as it was. -/
structure Readable (h : List UInt8 × List UInt8) : Prop where
  nonempty : h.1 ≠ []
  tokens : ∀ c ∈ h.1, isToken c = true
  plain : ∀ c ∈ h.2, isLineEnd c = false
  start : ∀ c, h.2.head? = some c → isSpace c = false

/-- A header line. -/
theorem Readable.passes {h : List UInt8 × List UInt8} (readable : Readable h) (d : ParsedResponse)
    {T : List Nat} (behind : (h.2 = [] → lineStates ⊆ T) ∧ lastStates ⊆ T) :
    Passes b (printHeader (ascii ": ") h) d lineStates { d with data := d.data.setHeader h.1 h.2 } T := by
  intro p q g start stands small
  simp only [printHeader, List.append_assoc] at stands small ⊢
  obtain ⟨-, afterName⟩ := standing_append stands
  obtain ⟨-, afterColon⟩ := standing_append afterName
  simp only [List.length_append] at small
  obtain ⟨q₁, g₁, scanned, inName, started⟩ := scan_name (b := b) (p := p) (g := g) d
    readable.nonempty readable.tokens start
  obtain ⟨q₂, g₂, coloned, colon, kept, length⟩ := scan_colon (b := b) (p := p + h.1.length) (d := d) (g := g₁) inName
  rw [started, distance_add] at length
  have named : Named b h.1 g₂ := by
    refine ⟨readable.nonempty, length, ?_⟩
    rw [kept, started, length]
    exact text_standing stands (by simp [ascii]) (by omega)
  have valued : ∃ q₃ g₃, q₃ ∈ T ∧ scan (step b) (h.2 ++ crlf) ⟨p + h.1.length + 2, q₂, d, g₂⟩ =
      .ok (.next ⟨p + h.1.length + 2 + h.2.length + 2, q₃, { d with data := d.data.setHeader h.1 h.2 }, g₃⟩) := by
    by_cases empty : h.2 = []
    · rw [empty] at afterColon ⊢
      obtain ⟨q₃, g₃, ran, line⟩ := scan_value_nil (d := d) named colon afterColon
      exact ⟨q₃, g₃, behind.1 empty line, ran⟩
    · obtain ⟨q₃, g₃, ran, last⟩ := scan_value (d := d) named empty readable.plain readable.start colon afterColon
        (by omega)
      exact ⟨q₃, g₃, behind.2 last, ran⟩
  obtain ⟨q₃, g₃, line, valued⟩ := valued
  refine ⟨q₃, g₃, line, ?_⟩
  rw [scan_append_of_next scanned, scan_append_of_next coloned, valued]
  simp only [List.length_append, Nat.add_assoc]
  rfl

theorem passes_headers (d : ParsedResponse) {hs : MapType} (readable : ∀ h ∈ hs, Readable h) :
    Passes b (hs.flatMap (printHeader (ascii ": "))) d lineStates
      { d with data := { d.data with headers := OrderedMap.setAll strcasecmpLt d.data.headers hs } } lineStates := by
  induction hs generalizing d with
  | nil => exact .nil fun _ member => member
  | cons h hs ih =>
    have first := (readable h List.mem_cons_self).passes (b := b) d (T := lineStates)
      ⟨fun _ _ member => member, by decide⟩
    have both := first.append (ih _ fun h member => readable h (List.mem_cons_of_mem _ member))
    rw [HttpResponse.setHeader, MapType.set] at both
    exact both

theorem passes_connection (d : ParsedResponse) (close : Bool) :
    Passes b (printConnection close) d lineStates
      { d with data := d.data.setHeader (ascii "Connection") (announced close) } lastStates := by
  have readable : Readable (ascii "Connection", announced close) := by
    constructor <;> cases close <;> decide +kernel
  have present : announced close ≠ [] := by cases close <;> decide
  have line := readable.passes (b := b) d (T := lastStates)
    ⟨fun empty => absurd empty present, fun _ member => member⟩
  exact line

theorem readable_content (body : List UInt8) : Readable (ascii "Content-Length", printNat body.length) := by
  have name : ∀ c ∈ ascii "Content-Length", isToken c = true := by decide +kernel
  have digit : ∀ c : UInt8, 48 ≤ c ∧ c ≤ 57 → isLineEnd c = false ∧ isSpace c = false := by decide +kernel
  exact ⟨List.cons_ne_nil _ _, name, fun c member => (digit c (printNat_bounds member)).1,
    fun c head => (digit c (printNat_bounds (List.mem_of_mem_head? head))).2⟩

theorem passes_content (d : ParsedResponse) (body : List UInt8) :
    Passes b (printContent body) d lastStates
      { d with data := { d.data with
        headers := OrderedMap.setAll strcasecmpLt d.data.headers (contentEntries body) } } lastStates := by
  unfold printContent contentEntries
  split
  · exact .nil fun _ member => member
  · have line := (readable_content body).passes (b := b) d (T := lastStates)
      ⟨fun empty => absurd empty (printNat_ne_nil _), fun _ member => member⟩
    rw [HttpResponse.setHeader, MapType.set] at line
    exact fun p q g start => line p q g ((by decide : lastStates ⊆ lineStates) start)

end Line

/-! ### The status line -/

theorem printVersion_eq {version : UInt8} (known : version = 0x10 ∨ version = 0x11) :
    (version = 0x10 ∧ printVersion version = ascii "HTTP/1.0") ∨
      version = 0x11 ∧ printVersion version = ascii "HTTP/1.1" := by
  rcases known with rfl | rfl <;> decide +kernel

theorem scan_version {version : UInt8} {p : Nat} {g : HttpclientParser} (known : version = 0x10 ∨ version = 0x11) :
    scan (step b) (printVersion version) ⟨p, 1, d, g⟩ = .ok (.next ⟨p + 8, 15, d, { g with mark := p }⟩) := by
  rcases printVersion_eq known with ⟨-, text⟩ | ⟨-, text⟩ <;> rw [text] <;> rfl

theorem onResponseVersion_eq {version : UInt8} (known : version = 0x10 ∨ version = 0x11) (d : ParsedResponse)
    (rest : List UInt8) :
    d.onResponseVersion (printVersion version ++ rest) 8 = { d with data := { d.data with version := version } } ∧
      (printVersion version).length = 8 := by
  rcases printVersion_eq known with ⟨rfl, text⟩ | ⟨rfl, text⟩ <;> rw [text] <;> exact ⟨rfl, rfl⟩

theorem passes_version (d : ParsedResponse) {version : UInt8} (known : version = 0x10 ∨ version = 0x11) :
    Passes b (printVersion version ++ [32]) d [1] { d with data := { d.data with version := version } } [16] := by
  intro p q g start stands _
  obtain rfl := List.mem_singleton.mp start
  obtain ⟨rest, found⟩ := pointer_standing stands (by simp)
  obtain ⟨read, length⟩ := onResponseVersion_eq known d ([32] ++ rest)
  rw [List.append_assoc] at found
  have space : move 15 32 = some (16, [.httpVersion]) := by decide +kernel
  have called : perform b (p + 8) [.httpVersion] ⟨d, { g with mark := p }⟩ =
      .ok ⟨{ d with data := { d.data with version := version } }, { g with mark := p }⟩ := by
    simp only [perform, callback, registers, distance_add, found, Except.map, read]
  refine ⟨16, { g with mark := p }, List.mem_singleton_self _, ?_⟩
  rw [scan_append_of_next (scan_version known), scan_cons space (by decide) called, List.length_append, length]
  rfl

theorem atoi_printNat {n : Nat} (small : n < 2 ^ 32) (rest : List UInt8) : atoi (printNat n ++ 32 :: rest) = n := by
  obtain ⟨ds, printed, -, digits, rfl⟩ := printNat_eq n
  have all : ∀ c ∈ digitBytes ds, (decide (48 ≤ c) && decide (c ≤ 57)) = true := by
    intro c member
    rw [← printed] at member
    rw [Bool.and_eq_true, decide_eq_true_eq, decide_eq_true_eq]
    exact printNat_bounds member
  have values : (digitBytes ds).map (fun c => c.toNat - 48) = ds := by
    rw [digitBytes, List.map_map]
    refine (List.map_congr_left fun d member => ?_).trans (List.map_id ds)
    rw [Function.comp_apply, toNat_digit (digits d member), Nat.add_sub_cancel_left, id]
  have stops : (32 :: rest).takeWhile (fun c => decide (48 ≤ c) && decide (c ≤ 57)) = [] :=
    List.takeWhile_cons_of_neg (by decide)
  have fits : min (number ds 0) (2 ^ 63 - 1) = number ds 0 := Nat.min_eq_left (by omega)
  rw [atoi, printed, List.takeWhile_append_of_pos all, stops, List.append_nil, values]
  show min (number ds 0) (2 ^ 63 - 1) % 2 ^ 32 = number ds 0
  rw [fits, Nat.mod_eq_of_lt small]

theorem passes_status (d : ParsedResponse) {code : Nat} (small : code < 2 ^ 32) :
    Passes b (printNat code ++ [32]) d [16] { d with data := { d.data with status := .ofCode code } } [18] := by
  obtain ⟨digit, -, space, -⟩ := status_moves
  intro p q g start stands _
  obtain rfl := List.mem_singleton.mp start
  obtain ⟨rest, found⟩ := pointer_standing stands (by simp)
  rw [List.append_assoc, List.singleton_append] at found
  obtain ⟨q, only, ran⟩ := scan_marked (b := b) (d := d) (p := p) (g := g) (printNat_ne_nil code)
    (fun c head => (digit c (printNat_bounds (List.mem_of_mem_head? head))).1) (fun c bounds => (digit c bounds).2)
    (fun c member => printNat_bounds member)
  obtain rfl := List.mem_singleton.mp only
  have called : perform b (p + (printNat code).length) [.statusCode] ⟨d, { g with mark := p }⟩ =
      .ok ⟨{ d with data := { d.data with status := .ofCode code } }, { g with mark := p }⟩ := by
    simp only [perform, callback, registers, found, Except.map, ParsedResponse.onResponseStatus, atoi_printNat small]
  refine ⟨18, { g with mark := p }, List.mem_singleton_self _, ?_⟩
  rw [scan_append_of_next ran, scan_cons space (by decide) called, List.length_append]
  rfl

theorem passes_reason (d : ParsedResponse) {reason : List UInt8} (nonempty : reason ≠ [])
    (plain : ∀ c ∈ reason, isLineEnd c = false) :
    Passes b (reason ++ crlf) d [18] (d.onResponseReason reason) lineStates := by
  obtain ⟨-, visible, -, returned, feed, -⟩ := status_moves
  intro p q g start stands small
  obtain rfl := List.mem_singleton.mp start
  rw [List.length_append] at small
  obtain ⟨q, only, ran⟩ := scan_marked (b := b) (d := d) (p := p) (g := g) nonempty
    (fun c head => (visible c (plain c (List.mem_of_mem_head? head))).1) (fun c other => (visible c other).2) plain
  obtain rfl := List.mem_singleton.mp only
  have cut : text b p (distance p (p + reason.length)) = .ok reason := by
    rw [distance_add]
    exact text_standing stands (by decide) (by omega)
  have called : perform b (p + reason.length) [.reasonPhrase] ⟨d, { g with mark := p }⟩ =
      .ok ⟨d.onResponseReason reason, { g with mark := p }⟩ := by
    simp only [perform, callback, registers, cut, Except.map]
  have line := (scan_cons (l := [10]) returned (by decide) called).trans (scan_cons (l := []) feed (by decide) rfl)
  refine ⟨20, { g with mark := p }, by decide, ?_⟩
  rw [List.length_append]
  exact (scan_append_of_next ran).trans line

/-! ### The registers -/

/-- The registers at a place of the buffer. -/
structure Inside (p : Nat) (g : HttpclientParser) : Prop where
  fresh : g.nread = 0
  mark : g.mark ≤ p
  fieldStart : g.fieldStart ≤ p
  fieldLen : g.fieldLen ≤ p
  bodyStart : g.bodyStart ≤ p + 1

theorem Inside.registers {p : Nat} {g : HttpclientParser} (inside : Inside p g) (a : Action) :
    Inside p (registers p a g) := by
  have length := distance_le inside.fieldStart
  obtain ⟨fresh, mark, fieldStart, fieldLen, bodyStart⟩ := inside
  cases a <;> constructor <;> simp only [HttpResponseParser.registers] <;> omega

theorem Inside.perform {p : Nat} {as : List Action} {m m' : HttpResponseParser} (inside : Inside p m.parser)
    (performed : perform b p as m = .ok m') : Inside p m'.parser := by
  induction as generalizing m with
  | nil => cases performed; exact inside
  | cons a as ih =>
    unfold HttpResponseParser.perform at performed
    split at performed
    · cases performed
    · exact ih (m := ⟨_, HttpResponseParser.registers p a m.parser⟩) (inside.registers a) performed

/-- What every byte keeps: the registers point into what has been read. -/
theorem step_inside {c : UInt8} {s : Locals} {o : Move Locals} (inside : Inside s.p s.owner.parser)
    (stepped : step b c s = .ok o) :
    o.Holds (fun s' => s'.p = s.p + 1 ∧ Inside s.p s'.owner.parser)
      (fun s' => s'.p ≤ s.p + 1 ∧ Inside s.p s'.owner.parser) := by
  cases follow_iff.mp stepped with
  | rejected => exact ⟨Nat.le_succ _, inside⟩
  | finished _ performed => exact ⟨Nat.le_refl _, inside.perform performed⟩
  | advanced _ performed => exact ⟨rfl, inside.perform performed⟩

/-- Where the machine leaves the loop, the checks behind it pass. -/
theorem checks_of_stop {s s' : Locals} {n : Nat} (inside : Inside s.p s.owner.parser) (size : s.p + l.length = n)
    (stopped : scan (step b) l s = .ok (.stop s')) :
    (leave s').parser.nread = s'.p ∧ assertions (leave s').parser n = true ∧
      checks (leave s').parser n = true := by
  have held := scan_holds (N := fun l s => s.p + l.length = n ∧ Inside s.p s.owner.parser)
    (J := fun s' => s'.p ≤ n ∧ ∃ p < n, Inside p s'.owner.parser) (fun c l s o before stepped => ?_)
    ⟨size, inside⟩ stopped
  · obtain ⟨within, p, below, fresh, mark, fieldStart, fieldLen, bodyStart⟩ := held
    simp only [leave, assertions, checks, fresh, Bool.and_eq_true, decide_eq_true_eq]
    omega
  · obtain ⟨size, inside⟩ := before
    rw [List.length_cons] at size
    have kept := step_inside inside stepped
    cases o with
    | next s' =>
      obtain ⟨moved, fresh, mark, fieldStart, fieldLen, bodyStart⟩ := kept
      refine ⟨by omega, ?_⟩
      constructor <;> omega
    | stop s' => exact ⟨Nat.le_trans kept.1 (by omega), s.p, by omega, kept.2⟩

/-! ### The whole response -/

end Cool.Http.Client

namespace Cool.Http.HttpResponse

open Foundation

def entries (r : HttpResponse) : MapType := r.headers ++ addedEntries r.close r.body

/-- What the parser makes of the status line. -/
def started (r : HttpResponse) : HttpResponse :=
  { HttpResponse.new 0x11 true with version := r.version, status := r.status, reason := r.effectiveReason }

/-- What it makes of the whole. -/
def parsed (r : HttpResponse) : HttpResponse :=
  { r.started with headers := OrderedMap.setAll strcasecmpLt [] r.entries }

def statusLine (r : HttpResponse) : List UInt8 :=
  printVersion r.version ++ [32] ++ (printNat r.status.code ++ [32]) ++ (r.effectiveReason ++ crlf)

def lines (r : HttpResponse) : List UInt8 :=
  r.headers.flatMap (printHeader (ascii ": ")) ++ (printConnection r.close ++ printContent r.body)

end Cool.Http.HttpResponse

namespace Cool.Http.Client

open Foundation HttpResponseParser

variable {b : List UInt8}

/-- A response as the round trip is about. -/
structure PlainResponse extends HttpResponse where
  versioned : version = 0x10 ∨ version = 0x11
  listed : status ∈ httpStatusMap.map Prod.fst
  reasoned : ∀ c ∈ reason, isLineEnd c = false
  ordered : OrderedMap.Ordered folded headers
  others : ∀ h ∈ headers, added h.1 = false
  readable : ∀ h ∈ headers, Readable h

/-- What a call on the printed response has to leave. -/
structure Recovers [Boost] (r : HttpResponse) (n : Nat) (data : List UInt8) (m : HttpResponseParser) : Prop where
  finished : m.isFinished = 1
  sound : m.hasError = false
  version : m.data.version = r.version
  status : m.data.status = r.status
  reason : m.data.reason = r.effectiveReason
  headers : m.data.headers.filter (fun h => !added h.1) = r.headers
  contentLength : m.contentLength = r.body.length
  unconsumed : r.dump.drop n = r.body
  moved : data.take (r.dump.length - n) = r.body

/-- Printed, and read back in one call of a fresh parser; the text ends with a NUL as `std::string` has it. -/
def ResponseTrips [Boost] (beyond : List UInt8) (r : HttpResponse) : Prop :=
  ∃ n data m, HttpResponseParser.new.execute (r.dump ++ 0 :: beyond) r.dump.length = .ok (n, data, m) ∧
    Recovers r n data m

namespace PlainResponse

variable (r : PlainResponse)

theorem dump_eq : r.dump = r.statusLine ++ (r.lines ++ (crlf ++ r.body)) := by
  simp only [HttpResponse.dump, HttpResponse.statusLine, HttpResponse.lines, printBody_eq,
    printHeaders_eq (ascii ": ") r.others, List.append_assoc]
  rfl

theorem statuses : ∀ row ∈ httpStatusMap, row.1.code < 2 ^ 32 ∧ HttpStatus.ofCode row.1.code = row.1 ∧
    httpStatusToChars row.1 ≠ [] ∧ (httpStatusToChars row.1).all (fun c => !isLineEnd c) = true := by
  decide +kernel

theorem effectiveReason_plain : r.effectiveReason ≠ [] ∧ ∀ c ∈ r.effectiveReason, isLineEnd c = false := by
  obtain ⟨row, member, same⟩ := List.mem_map.mp r.listed
  obtain ⟨-, -, nonempty, plain⟩ := statuses row member
  rw [same] at nonempty plain
  unfold HttpResponse.effectiveReason
  split
  · refine ⟨nonempty, fun c inside => ?_⟩
    simpa using List.all_eq_true.mp plain c inside
  · rename_i own
    exact ⟨own, r.reasoned⟩

theorem passes_statusLine : Passes b r.statusLine ⟨0, HttpResponse.new 0x11 true⟩ [1]
    ⟨0, r.started⟩ lineStates := by
  obtain ⟨row, member, same⟩ := List.mem_map.mp r.listed
  obtain ⟨small, read, -, -⟩ := statuses row member
  rw [same] at small read
  obtain ⟨nonempty, plain⟩ := r.effectiveReason_plain
  have passed := ((passes_version (b := b) ⟨0, HttpResponse.new 0x11 true⟩ r.versioned).append
    (passes_status _ small)).append (passes_reason _ nonempty plain)
  rw [read] at passed
  exact passed

theorem passes_lines : Passes b r.lines ⟨0, r.started⟩ lineStates
    ⟨0, r.parsed⟩ lastStates := by
  have passed := (passes_headers (b := b) ⟨0, r.started⟩ r.readable).append
    ((passes_connection _ r.close).append (passes_content _ r.body))
  dsimp only [HttpResponse.setHeader] at passed
  rw [MapType.set] at passed
  have same : OrderedMap.setAll strcasecmpLt (OrderedMap.set strcasecmpLt
      (OrderedMap.setAll strcasecmpLt r.started.headers r.headers) (ascii "Connection")
        (announced r.close)) (contentEntries r.body) = r.parsed.headers := by
    unfold HttpResponse.parsed HttpResponse.entries addedEntries
    rw [OrderedMap.setAll_append]
    rfl
  rw [same] at passed
  exact passed

theorem entries_eq : Entries r.headers r.close r.body r.entries where
  ordered := r.ordered
  others := r.others
  perm := .refl _
  kept := by
    rw [HttpResponse.entries, List.filter_append, filter_others r.others, filter_extra fun _ => added_of_mem,
      List.append_nil]

theorem scan_end (d : ParsedResponse) {p q : Nat} {g : HttpclientParser} (start : q ∈ lastStates)
    (tail : List UInt8) :
    ∃ g', scan (step b) (crlf ++ tail) ⟨p, q, d, g⟩ = .ok (.stop ⟨p + 2, 120, d, g'⟩) := by
  obtain ⟨-, -, -, -, -, returned, done⟩ := status_moves
  obtain ⟨q', only, as, choice, moved⟩ := leads_iff.mp (returned q start)
  obtain rfl := List.mem_singleton.mp only
  simp only [List.mem_cons, List.not_mem_nil, or_false] at choice
  rcases choice with rfl | rfl
  · have whole := (scan_cons (b := b) (l := 10 :: tail) (p := p) (m := ⟨d, g⟩) moved (by decide) rfl).trans
      (scan_done (l := tail) done (by decide) rfl)
    exact ⟨_, whole⟩
  · have whole := (scan_cons (b := b) (l := 10 :: tail) (p := p) (m := ⟨d, g⟩) moved (by decide) rfl).trans
      (scan_done (l := tail) done (by decide) rfl)
    exact ⟨_, whole⟩

/-- The whole printed response: the machine stops behind the empty line. -/
theorem scan_dump (behind : List UInt8) (small : r.dump.length < 2 ^ 31) :
    ∃ s, scan (step (r.dump ++ behind)) r.dump ⟨0, 1, .new⟩ = .ok (.stop s) ∧ s.cs = 120 ∧
      s.owner.toParsedResponse = ⟨0, r.parsed⟩ ∧ r.dump.drop s.p = r.body ∧
      s.p + r.body.length = r.dump.length := by
  have text : r.dump = r.statusLine ++ r.lines ++ crlf ++ r.body := by
    rw [r.dump_eq]
    simp only [List.append_assoc]
  have stands : r.statusLine ++ r.lines <+: (r.dump ++ behind).drop 0 := by
    rw [List.drop_zero, text]
    simp only [List.append_assoc]
    simp only [← List.append_assoc r.statusLine, List.prefix_append]
  have short : (r.statusLine ++ r.lines).length < 2 ^ 63 := by
    rw [text] at small
    simp only [List.length_append] at small ⊢
    omega
  obtain ⟨q, g, last, ran⟩ := (r.passes_statusLine.append r.passes_lines) 0 1 httpclientParserInit
    (List.mem_singleton_self 1) stands short
  obtain ⟨g', ended⟩ := scan_end (b := r.dump ++ behind) ⟨0, r.parsed⟩
    (p := 0 + (r.statusLine ++ r.lines).length) (g := g) last r.body
  have used : 0 + (r.statusLine ++ r.lines).length + 2 =
      (r.statusLine ++ r.lines ++ crlf).length := by
    simp only [Nat.zero_add, List.length_append, crlf, List.length_cons, List.length_nil]
  rw [used] at ended
  have whole : scan (step (r.dump ++ behind))
      (r.statusLine ++ r.lines ++ (crlf ++ r.body)) ⟨0, 1, .new⟩ = _ :=
    (scan_append_of_next ran).trans ended
  rw [← List.append_assoc, ← text] at whole
  refine ⟨_, whole, rfl, rfl, ?_, ?_⟩
  · rw [text]
    exact List.drop_left
  · rw [text]
    exact List.length_append.symm

theorem contentLength_parsed [Boost] (small : r.body.length < 2 ^ 64) :
    r.parsed.getHeaderAs (ascii "content-length") 0 = r.body.length := by
  have found : r.parsed.headers.find (ascii "content-length") =
      if r.body = [] then none else some (printNat r.body.length) := r.entries_eq.find_content
  unfold HttpResponse.getHeaderAs
  by_cases empty : r.body = []
  · rw [found, if_pos empty, empty]
    rfl
  · simp only [found, if_neg empty, Boost.lexicalCast_printNat small, Option.getD_some]

theorem responseTrips [Boost] (beyond : List UInt8) (small : r.dump.length < 2 ^ 31) :
    ResponseTrips beyond r.toHttpResponse := by
  obtain ⟨s, stopped, final, same, rest, total⟩ := r.scan_dump (0 :: beyond) small
  obtain ⟨nread, asserted, checked⟩ := checks_of_stop (n := r.dump.length) ⟨rfl, Nat.le_refl _, Nat.le_refl _,
    Nat.le_refl _, Nat.zero_le _⟩ (Nat.zero_add _) stopped
  have terminated : (r.dump ++ 0 :: beyond)[r.dump.length]? = some 0 := by simp
  have executed : HttpResponseParser.new.execute (r.dump ++ 0 :: beyond) r.dump.length =
      .ok (s.p, overwrite (r.dump ++ 0 :: beyond) 0 r.body, leave s) := by
    unfold execute httpclientParserExecute
    rw [if_neg (not_not.mpr terminated), if_neg (Nat.not_le.mpr small), List.take_left]
    simp only [new, httpclientParserInit] at stopped ⊢
    simp only [stopped, Move.state, if_pos asserted, if_pos checked, nread, rest]
  have data : (leave s).data = r.parsed := congrArg ParsedResponse.data same
  refine ⟨_, _, _, executed, ?_, ?_, ?_, ?_, ?_, ?_, ?_, rest, ?_⟩
  · simp [isFinished, leave, final]
  · simp [hasError, leave, final, same]
  · rw [data]; rfl
  · rw [data]; rfl
  · rw [data]; rfl
  · rw [data]
    exact r.entries_eq.filter_setAll
  · rw [contentLength, data]
    exact r.contentLength_parsed (by omega)
  · have size : r.dump.length - s.p = r.body.length := by omega
    rw [size, overwrite_eq (by simp; omega), List.take_zero, List.nil_append, List.take_left]

end PlainResponse

/-- `(int)len` is negative, or smaller than the distance. -/
theorem execute_large (m : HttpResponseParser) (data : List UInt8) {len : Nat} (large : 2 ^ 31 ≤ len) :
    m.execute data len = .error .assertion := by
  have failed : m.httpclientParserExecute data len = .error .assertion := by
    unfold httpclientParserExecute
    simp only [large, if_true, ite_self]
  rw [execute, failed]

/-- A response comes back from `dump` and a fresh parser exactly when the length of the text is an `int`. -/
theorem responseTrips_iff [Boost] (beyond : List UInt8) (r : PlainResponse) :
    ResponseTrips beyond r.toHttpResponse ↔ r.dump.length < 2 ^ 31 := by
  constructor
  · rintro ⟨n, data, m, executed, -⟩
    by_contra large
    rw [execute_large _ _ (Nat.not_lt.mp large)] at executed
    cases executed
  · exact r.responseTrips beyond

/-- A response with a body of `n` bytes. -/
def filled (n : Nat) : PlainResponse where
  toHttpResponse := { HttpResponse.new 0x11 true with body := List.replicate n 0 }
  versioned := .inr rfl
  listed := (by decide : HttpStatus.ok ∈ httpStatusMap.map Prod.fst)
  reasoned := by rintro c ⟨⟩
  ordered := ordered_nil
  others := by rintro h ⟨⟩
  readable := by rintro h ⟨⟩

theorem length_filled (n : Nat) : n ≤ (filled n).dump.length := by
  have size : (filled n).body.length = n := List.length_replicate
  rw [(filled n).dump_eq]
  simp only [List.length_append, size]
  omega

/-- A body of two gigabytes is sent, and the parser that gets it aborts. -/
theorem filled_aborts :
    ¬ ResponseTrips [] (filled (2 ^ 31)).toHttpResponse ∧
      HttpResponseParser.new.execute ((filled (2 ^ 31)).dump ++ [0]) (filled (2 ^ 31)).dump.length =
        .error .assertion := by
  have aborted := execute_large .new ((filled (2 ^ 31)).dump ++ [0]) (length_filled (2 ^ 31))
  refine ⟨?_, aborted⟩
  rintro ⟨n, data, m, executed, -⟩
  rw [aborted] at executed
  cases executed

end Cool.Http.Client
