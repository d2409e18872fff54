import Cool.Log.Logger
import Mathlib.Algebra.Group.Nat.Defs

/-!
# Patterns

`LogFormatter`: the scanner of `init`, the items it makes and `format`. A pattern of literals and directives is scanned
into one item for each directive and one for each maximal run of literals.
-/

namespace Cool

structure LogEvent where
  file : Text
  line : Nat
  elapse : Nat
  threadId : Nat
  threadName : Text
  fiberId : Nat
  time : Nat
  content : Text
  /-- The name of the logger. -/
  logger : Text
  level : LogLevel

inductive FormatItem where
  | message | level | elapse | name | threadId | newLine | filename | line | tab | fiberId | threadName
  | dateTime (format : Text)
  | string (s : Text)
  deriving DecidableEq, Repr

namespace FormatItem

/-- An empty format is replaced. -/
def ofDateTime (format : Text) : FormatItem :=
  if format = [] then .dateTime "%Y-%m-%d %H:%M:%S".toList else .dateTime format

/-- `strftime` is what `localtime_r` and `strftime` leave in the buffer; `get_time` returns 32 bits. -/
def format (strftime : Text → Nat → Text) (event : LogEvent) : FormatItem → Text
  | .message => event.content
  | .level => event.level.toString
  | .elapse => Nat.toDigits 10 event.elapse
  | .name => event.logger
  | .threadId => Nat.toDigits 10 event.threadId
  | .newLine => ['\n']
  | .filename => event.file
  | .line => Nat.toDigits 10 event.line
  | .tab => ['\t']
  | .fiberId => Nat.toDigits 10 event.fiberId
  | .threadName => event.threadName
  | .dateTime format => strftime format (event.time % 2 ^ 32)
  | .string s => s

end FormatItem

/-- `s_format_items`. -/
def formatItems : List (Text × (Text → FormatItem)) := [
  (['m'], fun _ => .message), (['p'], fun _ => .level), (['r'], fun _ => .elapse), (['c'], fun _ => .name),
  (['t'], fun _ => .threadId), (['n'], fun _ => .newLine), (['d'], .ofDateTime), (['f'], fun _ => .filename),
  (['l'], fun _ => .line), (['T'], fun _ => .tab), (['F'], fun _ => .fiberId), (['N'], fun _ => .threadName)]

def known (key : Text) : Bool := (formatItems.lookup key).isSome

structure LogFormatter where
  pattern : Text
  items : List FormatItem
  error : Bool
  deriving DecidableEq, Repr

namespace LogFormatter

/-- A tuple of `vec`. -/
inductive Entry where
  | text (str : Text)
  | directive (str fmt : Text)
  deriving DecidableEq, Repr

/-! ### The scanner -/

/-- The inner loop with `fmt_status` 1. `used` counts the characters from behind the percent sign to `n`. -/
def scanFormat (str fmt : Text) (used : Nat) : List Char → Option (Text × Text × Nat)
  | [] => none
  | c :: rest =>
    if c = '\x7d' then some (str, fmt, used + 1)
    else scanFormat str (fmt ++ [c]) (used + 1) rest

/-- The inner loop with `fmt_status` 0. The string is what was passed, at the end of the pattern too. -/
def scanKey (str : Text) (used : Nat) : List Char → Option (Text × Text × Nat)
  | [] => some (str, [], used)
  | c :: rest =>
    if !c.isAlpha && c ≠ '\x7b' && c ≠ '\x7d' then some (str, [], used)
    else if c = '\x7b' then scanFormat str [] (used + 1) rest
    else scanKey (str ++ [c]) (used + 1) rest

def flush (nstr : Text) : List Entry := if nstr = [] then [] else [.text nstr]

/-- The outer loop, giving `vec` and whether a brace was left open. `skip` characters are passed over, as `i = n - 1`
does. Behind two percent signs the second one is scanned again, and so is the text behind an open brace, while `nstr`
is kept. -/
def scan (skip : Nat) (nstr : Text) : List Char → List Entry × Bool
  | [] => (flush nstr, false)
  | c :: rest =>
    match skip with
    | skip + 1 => scan skip nstr rest
    | 0 =>
      if c ≠ '%' then scan 0 (nstr ++ [c]) rest
      else if rest.head? = some '%' then scan 0 (nstr ++ ['%']) rest
      else
        match scanKey [] 0 rest with
        | some (str, fmt, used) =>
          (flush nstr ++ .directive str fmt :: (scan used [] rest).1, (scan used [] rest).2)
        | none => (.text "<<parse_error>>".toList :: (scan 0 nstr rest).1, true)

def Entry.item : Entry → FormatItem
  | .text str => .string str
  | .directive str fmt =>
    match formatItems.lookup str with
    | none => .string ("<<error_format %".toList ++ str ++ ">>".toList)
    | some make => make fmt

/-- The key is not in the table. -/
def Entry.unknown : Entry → Bool
  | .text _ => false
  | .directive str _ => !known str

def init (pattern : Text) : LogFormatter where
  pattern := pattern
  items := (scan 0 [] pattern).1.map Entry.item
  error := (scan 0 [] pattern).2 || (scan 0 [] pattern).1.any Entry.unknown

def format (f : LogFormatter) (strftime : Text → Nat → Text) (event : LogEvent) : Text :=
  f.items.flatMap (FormatItem.format strftime event)

/-! ### Pieces of a pattern -/

inductive Piece where
  | literal (s : Text)
  | bare (key : Text)
  | formatted (key fmt : Text)
  deriving DecidableEq, Repr

def Piece.render : Piece → Text
  | .literal s => s
  | .bare key => '%' :: key
  | .formatted key fmt => '%' :: (key ++ '\x7b' :: (fmt ++ ['\x7d']))

def render (ps : List Piece) : Text := ps.flatMap Piece.render

/-- A key that is not in braces ends before the text. -/
def Stops : Text → Prop
  | [] => True
  | c :: _ => c.isAlpha = false ∧ c ≠ '\x7b' ∧ c ≠ '\x7d'

def Key (key : Text) : Prop := key ≠ [] ∧ key.all Char.isAlpha = true

def Valid : List Piece → Prop
  | [] => True
  | .literal s :: ps => '%' ∉ s ∧ Valid ps
  | .bare key :: ps => Key key ∧ Stops (render ps) ∧ Valid ps
  | .formatted key fmt :: ps => Key key ∧ '\x7d' ∉ fmt ∧ Valid ps

instance decidableStops : (text : Text) → Decidable (Stops text)
  | [] => .isTrue trivial
  | _ :: _ => inferInstanceAs (Decidable (_ ∧ _ ∧ _))

instance decidableKey (key : Text) : Decidable (Key key) := inferInstanceAs (Decidable (_ ∧ _))

instance decidableValid : (ps : List Piece) → Decidable (Valid ps)
  | [] => .isTrue trivial
  | .literal _ :: ps => have := decidableValid ps; inferInstanceAs (Decidable (_ ∧ Valid ps))
  | .bare _ :: ps => have := decidableValid ps; inferInstanceAs (Decidable (_ ∧ _ ∧ Valid ps))
  | .formatted _ _ :: ps => have := decidableValid ps; inferInstanceAs (Decidable (_ ∧ _ ∧ Valid ps))

/-- A literal before pieces: it joins one that stands first, and an empty one is none. -/
def prepend (s : Text) : List Piece → List Piece
  | .literal s' :: ps => .literal (s ++ s') :: ps
  | ps => if s = [] then ps else .literal s :: ps

/-- The maximal runs of literals, and the directives. -/
def merge : List Piece → List Piece
  | [] => []
  | .literal s :: ps => prepend s (merge ps)
  | p :: ps => p :: merge ps

/-- No literal is empty, and none follows another. -/
def Maximal : List Piece → Prop
  | [] => True
  | .literal s :: ps => s ≠ [] ∧ (∀ s', ps.head? ≠ some (.literal s')) ∧ Maximal ps
  | _ :: ps => Maximal ps

def Piece.directive : Piece → Bool
  | .literal _ => false
  | _ => true

def Piece.entry : Piece → Entry
  | .literal s => .text s
  | .bare key => .directive key []
  | .formatted key fmt => .directive key fmt

/-- The item built from a piece. -/
def Piece.item (p : Piece) : FormatItem := p.entry.item

/-- A directive whose key is not in the table. -/
def Piece.unknown (p : Piece) : Bool := p.entry.unknown

/-! ### Scanning a piece -/

section

variable {text rest : Text} {nstr : Text}

theorem scan_skip (nstr : Text) (xs rest : Text) : scan xs.length nstr (xs ++ rest) = scan 0 nstr rest := by
  induction xs with
  | nil => rfl
  | cons x xs ih => rw [List.length_cons, List.cons_append, scan, ih]

theorem scan_literal {s : Text} (plain : '%' ∉ s) (nstr rest : Text) :
    scan 0 nstr (s ++ rest) = scan 0 (nstr ++ s) rest := by
  induction s generalizing nstr with
  | nil => simp
  | cons c s ih =>
    simp only [List.mem_cons, not_or] at plain
    rw [List.cons_append, scan, if_pos (Ne.symm plain.1), ih plain.2]
    simp

theorem scanKey_letters {key : Text} (letters : ∀ c ∈ key, c.isAlpha = true) (str : Text) (used : Nat) (rest : Text) :
    scanKey str used (key ++ rest) = scanKey (str ++ key) (used + key.length) rest := by
  induction key generalizing str used with
  | nil => simp
  | cons c key ih =>
    have alpha := letters c List.mem_cons_self
    have open' : c ≠ '\x7b' := fun same => absurd (same ▸ alpha) (by decide)
    rw [List.cons_append, scanKey]
    simp only [alpha, Bool.not_true, Bool.false_and, Bool.false_eq_true, if_false, if_neg open']
    rw [ih fun c member => letters c (List.mem_cons_of_mem _ member)]
    simp [Nat.add_comm, Nat.add_left_comm]

theorem scanKey_stops (stops : Stops rest) (str : Text) (used : Nat) : scanKey str used rest = some (str, [], used) := by
  cases rest with
  | nil => rfl
  | cons c rest =>
    obtain ⟨alpha, opens, closes⟩ := stops
    simp [scanKey, alpha, opens, closes]

theorem scanFormat_closed {fmt : Text} (inside : '\x7d' ∉ fmt) (str acc : Text) (used : Nat) (rest : Text) :
    scanFormat str acc used (fmt ++ '\x7d' :: rest) = some (str, acc ++ fmt, used + fmt.length + 1) := by
  induction fmt generalizing acc used with
  | nil => simp [scanFormat]
  | cons c fmt ih =>
    simp only [List.mem_cons, not_or] at inside
    rw [List.cons_append, scanFormat, if_neg (Ne.symm inside.1), ih inside.2]
    simp [Nat.add_comm, Nat.add_left_comm]

/-- A percent sign with a letter behind it. -/
theorem scan_directive {str fmt : Text} {used : Nat} (single : text.head? ≠ some '%')
    (scanned : scanKey [] 0 text = some (str, fmt, used)) :
    scan 0 nstr ('%' :: text) =
      (flush nstr ++ .directive str fmt :: (scan used [] text).1, (scan used [] text).2) := by
  rw [scan]
  simp only [ne_eq, not_true_eq_false, if_false, if_neg single, scanned]

theorem head_key {key : Text} (ok : Key key) (rest : Text) : (key ++ rest).head? ≠ some '%' := by
  obtain ⟨nonempty, letters⟩ := ok
  cases key with
  | nil => exact absurd rfl nonempty
  | cons c key =>
    intro same
    have alpha := List.all_eq_true.mp letters c List.mem_cons_self
    rw [Option.some.inj same] at alpha
    exact absurd alpha (by decide)

theorem scan_bare {key : Text} (ok : Key key) (stops : Stops rest) :
    scan 0 nstr ('%' :: (key ++ rest)) =
      (flush nstr ++ .directive key [] :: (scan 0 [] rest).1, (scan 0 [] rest).2) := by
  have scanned : scanKey [] 0 (key ++ rest) = some (key, [], key.length) := by
    rw [scanKey_letters (List.all_eq_true.mp ok.2), scanKey_stops stops]
    simp
  rw [scan_directive (head_key ok rest) scanned, scan_skip]

theorem scan_formatted {key fmt : Text} (ok : Key key) (inside : '\x7d' ∉ fmt) :
    scan 0 nstr ('%' :: (key ++ '\x7b' :: (fmt ++ '\x7d' :: rest))) =
      (flush nstr ++ .directive key fmt :: (scan 0 [] rest).1, (scan 0 [] rest).2) := by
  have scanned : scanKey [] 0 (key ++ '\x7b' :: (fmt ++ '\x7d' :: rest)) =
      some (key, fmt, (key ++ '\x7b' :: (fmt ++ ['\x7d'])).length) := by
    rw [scanKey_letters (List.all_eq_true.mp ok.2), scanKey]
    simp [scanFormat_closed inside]
    omega
  have whole : key ++ '\x7b' :: (fmt ++ '\x7d' :: rest) = (key ++ '\x7b' :: (fmt ++ ['\x7d'])) ++ rest := by simp
  rw [scan_directive (head_key ok _) scanned, whole, scan_skip]

end

/-! ### Runs of literals -/

theorem Piece.cases_directive (p : Piece) : (∃ s, p = .literal s) ∨ p.directive = true := by
  cases p with
  | literal s => exact .inl ⟨s, rfl⟩
  | bare => exact .inr rfl
  | formatted => exact .inr rfl

section

variable {p : Piece} (directive : p.directive = true) (ps : List Piece)
include directive

theorem prepend_directive (s : Text) : prepend s (p :: ps) = if s = [] then p :: ps else .literal s :: p :: ps := by
  cases p with
  | literal => cases directive
  | bare => rfl
  | formatted => rfl

theorem merge_directive : merge (p :: ps) = p :: merge ps := by
  cases p with
  | literal => cases directive
  | bare => rfl
  | formatted => rfl

theorem maximal_directive : Maximal (p :: ps) ↔ Maximal ps := by
  cases p with
  | literal => cases directive
  | bare => rfl
  | formatted => rfl

theorem map_prepend_directive (s : Text) :
    (prepend s (p :: ps)).map Piece.entry = flush s ++ p.entry :: ps.map Piece.entry := by
  rw [prepend_directive directive]
  by_cases empty : s = [] <;> simp [flush, empty, Piece.entry]

end

theorem prepend_nil (ps : List Piece) : prepend [] ps = ps := by
  unfold prepend
  split <;> simp

theorem prepend_prepend (s s' : Text) (ps : List Piece) : prepend s (prepend s' ps) = prepend (s ++ s') ps := by
  cases ps with
  | nil => by_cases empty : s' = [] <;> simp [prepend, empty]
  | cons p ps =>
    rcases p.cases_directive with ⟨u, rfl⟩ | directive
    · simp [prepend]
    · rw [prepend_directive directive, prepend_directive directive]
      by_cases empty : s' = []
      · simp [empty, prepend_directive directive]
      · simp [empty, prepend]

theorem render_cons (p : Piece) (ps : List Piece) : render (p :: ps) = p.render ++ render ps := List.flatMap_cons

/-- What a literal before pieces changes. -/
theorem prepend_spec (s : Text) {ps : List Piece} (maximal : Maximal ps) :
    Maximal (prepend s ps) ∧ render (prepend s ps) = s ++ render ps ∧
      (prepend s ps).filter Piece.directive = ps.filter Piece.directive ∧
      (prepend s ps).any Piece.unknown = ps.any Piece.unknown := by
  by_cases empty : s = []
  · subst empty
    rw [prepend_nil]
    exact ⟨maximal, rfl, rfl, rfl⟩
  have added (ps : List Piece) (first : ∀ s', ps.head? ≠ some (.literal s')) (maximal : Maximal ps) :
      Maximal (.literal s :: ps) ∧ render (.literal s :: ps) = s ++ render ps ∧
        (Piece.literal s :: ps).filter Piece.directive = ps.filter Piece.directive ∧
        (Piece.literal s :: ps).any Piece.unknown = ps.any Piece.unknown :=
    ⟨⟨empty, first, maximal⟩, render_cons _ _, rfl, rfl⟩
  cases ps with
  | nil =>
    have alone : prepend s [] = [.literal s] := if_neg empty
    rw [alone]
    exact added [] (by simp) trivial
  | cons p ps =>
    rcases p.cases_directive with ⟨u, rfl⟩ | directive
    · refine ⟨⟨?_, maximal.2⟩, ?_, rfl, rfl⟩
      · simp [maximal.1]
      · simp [prepend, render_cons, Piece.render]
    · rw [prepend_directive directive, if_neg empty]
      refine added (p :: ps) (fun s' same => ?_) maximal
      rw [Option.some.inj same] at directive
      cases directive

theorem merge_spec (ps : List Piece) :
    Maximal (merge ps) ∧ render (merge ps) = render ps ∧
      (merge ps).filter Piece.directive = ps.filter Piece.directive ∧
      (merge ps).any Piece.unknown = ps.any Piece.unknown := by
  induction ps with
  | nil => exact ⟨trivial, rfl, rfl, rfl⟩
  | cons p ps ih =>
    obtain ⟨maximal, rendered, directives, unknown⟩ := ih
    rcases p.cases_directive with ⟨s, rfl⟩ | directive
    · obtain ⟨joined, text, same, none⟩ := prepend_spec s maximal
      rw [merge]
      refine ⟨joined, ?_, ?_, ?_⟩
      · rw [text, rendered]
        rfl
      · rw [same, directives]
        rfl
      · rw [none, unknown]
        rfl
    · rw [merge_directive directive]
      refine ⟨(maximal_directive directive _).mpr maximal, ?_, ?_, ?_⟩
      · rw [render_cons, rendered, render_cons]
      · rw [List.filter_cons, List.filter_cons, directives]
      · rw [List.any_cons, List.any_cons, unknown]

/-- The scanner holds in `nstr` the run of literals that it is in. -/
theorem scan_render {ps : List Piece} (valid : Valid ps) (nstr : Text) :
    scan 0 nstr (render ps) = ((prepend nstr (merge ps)).map Piece.entry, false) := by
  induction ps generalizing nstr with
  | nil => by_cases empty : nstr = [] <;> simp [render, scan, flush, merge, prepend, empty, Piece.entry]
  | cons p ps ih =>
    cases p with
    | literal s =>
      obtain ⟨plain, rest⟩ := valid
      rw [render_cons, Piece.render, scan_literal plain, ih rest, merge, prepend_prepend]
    | bare key =>
      obtain ⟨ok, stops, rest⟩ := valid
      rw [render_cons, Piece.render, List.cons_append, scan_bare ok stops, ih rest, prepend_nil, merge_directive rfl,
        map_prepend_directive rfl]
      rfl
    | formatted key fmt =>
      obtain ⟨ok, inside, rest⟩ := valid
      have text : (Piece.formatted key fmt).render ++ render ps =
          '%' :: (key ++ '\x7b' :: (fmt ++ '\x7d' :: render ps)) := by simp [Piece.render]
      rw [render_cons, text, scan_formatted ok inside, ih rest, prepend_nil, merge_directive rfl,
        map_prepend_directive rfl]
      rfl

/-- A pattern of literals and directives becomes one item for each maximal run of literals and one for each directive,
in their order, and is in error exactly when a key is unknown. -/
theorem init_render {ps : List Piece} (valid : Valid ps) :
    ((init (render ps)).items = (merge ps).map Piece.item ∧ Maximal (merge ps) ∧ render (merge ps) = render ps ∧
      (merge ps).filter Piece.directive = ps.filter Piece.directive) ∧
      ((init (render ps)).error = true ↔ ∃ p ∈ ps, p.unknown = true) := by
  obtain ⟨maximal, rendered, directives, unknown⟩ := merge_spec ps
  have scanned : scan 0 [] (render ps) = ((merge ps).map Piece.entry, false) := by
    rw [scan_render valid, prepend_nil]
  refine ⟨⟨?_, maximal, rendered, directives⟩, ?_⟩
  · simp only [init, scanned, List.map_map]
    rfl
  · have errors : (init (render ps)).error = (merge ps).any Piece.unknown := by
      simp only [init, scanned, Bool.false_or, List.any_map]
      rfl
    rw [errors, unknown, List.any_eq_true]

/-- The pattern of a new logger. -/
def defaultPieces : List Piece := [
  .formatted ['d'] "%Y-%m-%d %H:%M:%S".toList, .literal [' '], .bare ['t'], .literal ['('], .bare ['N'],
  .literal [')', ':'], .bare ['F'], .literal [' ', '['], .bare ['p'], .literal [']', ' ', '['], .bare ['c'],
  .literal [']', ' '], .bare ['f'], .literal [':'], .bare ['l'], .literal [' '], .bare ['m'], .literal [' '],
  .bare ['n']]

theorem init_default :
    render defaultPieces = Logger.defaultPattern ∧
      (init (render defaultPieces)).items = (merge defaultPieces).map Piece.item :=
  ⟨by decide, (init_render (by decide : Valid defaultPieces)).1.1⟩

end LogFormatter

end Cool
