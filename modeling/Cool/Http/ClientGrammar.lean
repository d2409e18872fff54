import Cool.Foundation.Octets
import Cool.Http.ClientParser

/-!
# Stretches of a response

The parts of the response machine that a header line goes through. The rules for `Content-Length`,
`Connection` and `Transfer-Encoding` stand beside the rule for any field, so a part is a set of states,
and every state of a set hands its part over alike.
-/

namespace Cool.Http.Client

open Foundation HttpResponseParser

/-- `token = (ascii -- (CTL | tspecials))`. -/
def isToken (c : UInt8) : Bool :=
  c < 128 && !(c < 32 || c == 127) && !(ascii "()<>@,;:\\\"/[]?=\x7b\x7d \t").contains c

def isSpace (c : UInt8) : Bool := (9 ≤ c && c ≤ 13) || c == 32

def isLineEnd (c : UInt8) : Bool := c == 10 || c == 13

/-! ### Sets of states -/

/-- Before a header line. -/
def lineStates : List Nat := [20, 36, 43, 62, 113]

/-- Before a header line, but not behind an empty value, which a folded line may continue. -/
def lastStates : List Nat := [20, 43]

def nameStates : List Nat :=
  [21] ++ List.range' 25 10 ++ List.range' 44 17 ++ List.range' 73 7 ++ List.range' 90 5 ++
    List.range' 101 11 ++ [117]

def colonStates : List Nat := [22, 35, 61, 112]

def valueStates : List Nat := [23] ++ List.range' 81 7 ++ List.range' 96 5 ++ [119]

/-- At the line feed behind an empty value. -/
def emptyStates : List Nat := [24, 80, 95, 118]

/-- At the line feed behind another value. -/
def feedStates : List Nat := [24, 71, 88]

/-- The byte leads into `S` with one of the lists of actions in `A`. -/
def leads (q : Nat) (c : UInt8) (S : List Nat) (A : List (List Action)) : Bool :=
  (move q c).any fun o => S.contains o.1 && A.contains o.2

theorem leads_iff {q : Nat} {c : UInt8} {S : List Nat} {A : List (List Action)} :
    leads q c S A = true ↔ ∃ q' ∈ S, ∃ as ∈ A, move q c = some (q', as) := by
  simp only [leads, Option.any_eq_true, Bool.and_eq_true, List.contains_iff_mem, Prod.exists]
  grind

theorem moves_one {q : Nat} {c : UInt8} {S : List Nat} {as : List Action} (led : leads q c S [as] = true) :
    ∃ q' ∈ S, move q c = some (q', as) := by
  obtain ⟨q', target, as', only, moved⟩ := leads_iff.mp led
  obtain rfl := List.mem_singleton.mp only
  exact ⟨q', target, moved⟩

set_option synthInstance.maxSize 512 in
theorem name_moves :
    (∀ c, isToken c = true →
      (∀ q ∈ lineStates,
        leads q c nameStates [[.startField], [.writeConnectionClose, .startField], [.mark, .startField]] = true) ∧
      ∀ q ∈ nameStates, leads q c nameStates [[]] = true) ∧
    ∀ q ∈ nameStates, leads q 58 colonStates [[.writeField]] = true := by
  decide +kernel

set_option synthInstance.maxSize 512 in
theorem value_moves :
    (∀ c, isSpace c = false → ∀ q ∈ colonStates, leads q c valueStates [[.mark]] = true) ∧
    (∀ c, isLineEnd c = false → ∀ q ∈ valueStates, leads q c valueStates [[]] = true) ∧
    (∀ q ∈ colonStates, leads q 32 colonStates [[.mark]] = true ∧
      leads q 13 emptyStates [[.mark, .writeValue]] = true) ∧
    (∀ q ∈ valueStates, leads q 13 feedStates [[.writeValue], [.writeContentLen, .writeValue]] = true) ∧
    (∀ q ∈ emptyStates, leads q 10 lineStates [[]] = true) ∧
    ∀ q ∈ feedStates, leads q 10 lastStates [[], [.transChunked]] = true := by
  decide +kernel

set_option synthInstance.maxSize 512 in
theorem status_moves :
    (∀ c : UInt8, 48 ≤ c ∧ c ≤ 57 →
      leads 16 c [17] [[.mark]] = true ∧ ∀ q ∈ [17], leads q c [17] [[]] = true) ∧
    (∀ c, isLineEnd c = false → leads 18 c [19] [[.mark]] = true ∧ ∀ q ∈ [19], leads q c [19] [[]] = true) ∧
    move 17 32 = some (18, [.statusCode]) ∧ move 19 13 = some (24, [.reasonPhrase]) ∧ move 24 10 = some (20, []) ∧
    (∀ q ∈ lastStates, leads q 13 [3] [[], [.writeConnectionClose]] = true) ∧ move 3 10 = some (120, [.done]) := by
  decide +kernel

/-! ### Scanning -/

variable {b l : List UInt8} {c : UInt8} {p q q' : Nat} {as : List Action} {m m' : HttpResponseParser}

theorem scan_cons (moved : move q c = some (q', as)) (going : .done ∉ as)
    (performed : perform b p as m = .ok m') :
    scan (step b) (c :: l) ⟨p, q, m⟩ = scan (step b) l ⟨p + 1, q', m'⟩ := by
  have stepped : step b c ⟨p, q, m⟩ = .ok (.next ⟨p + 1, q', m'⟩) := follow_iff.mpr (.advanced moved performed going)
  rw [scan, stepped]

theorem scan_done (moved : move q c = some (q', as)) (done : .done ∈ as)
    (performed : perform b p as m = .ok m') :
    scan (step b) (c :: l) ⟨p, q, m⟩ = .ok (.stop ⟨p + 1, q', m'⟩) := by
  have stepped : step b c ⟨p, q, m⟩ = .ok (.stop ⟨p + 1, q', m'⟩) := follow_iff.mpr (.finished moved performed done)
  rw [scan, stepped]

theorem scan_class {S : List Nat} {cls : UInt8 → Prop}
    (stays : ∀ c, cls c → ∀ q ∈ S, leads q c S [[]] = true) (inside : ∀ c ∈ l, cls c) (start : q ∈ S) :
    ∃ q' ∈ S, scan (step b) l ⟨p, q, m⟩ = .ok (.next ⟨p + l.length, q', m⟩) := by
  induction l generalizing p q with
  | nil => exact ⟨q, start, rfl⟩
  | cons c l ih =>
    obtain ⟨q₁, next, moved⟩ := moves_one (stays c (inside c List.mem_cons_self) q start)
    obtain ⟨q₂, final, ran⟩ := ih (p := p + 1) (fun c member => inside c (List.mem_cons_of_mem _ member)) next
    refine ⟨q₂, final, ?_⟩
    rw [scan_cons moved List.not_mem_nil rfl, ran, List.length_cons, Nat.add_right_comm, Nat.add_assoc]

/-- A part whose first byte is marked. -/
theorem scan_marked {d : ParsedResponse} {g : HttpclientParser} {S : List Nat} {cls : UInt8 → Prop} (nonempty : l ≠ [])
    (first : ∀ c, l.head? = some c → leads q c S [[.mark]] = true)
    (stays : ∀ c, cls c → ∀ q ∈ S, leads q c S [[]] = true) (inside : ∀ c ∈ l, cls c) :
    ∃ q' ∈ S, scan (step b) l ⟨p, q, d, g⟩ = .ok (.next ⟨p + l.length, q', d, { g with mark := p }⟩) := by
  cases l with
  | nil => exact absurd rfl nonempty
  | cons c rest =>
    obtain ⟨q₁, entered, moved⟩ := moves_one (first c rfl)
    obtain ⟨q₂, final, ran⟩ := scan_class (b := b) (p := p + 1) (m := ⟨d, { g with mark := p }⟩) stays
      (fun c member => inside c (List.mem_cons_of_mem _ member)) entered
    rw [Nat.add_right_comm, Nat.add_assoc] at ran
    exact ⟨q₂, final, (scan_cons moved (by decide) rfl).trans ran⟩

end Cool.Http.Client
