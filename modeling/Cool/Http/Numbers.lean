import Mathlib.Data.Nat.Digits.Defs

/-!
# Numbers as text

What a stream prints of a number, and `boost::lexical_cast`, which reads it back. The cast belongs to
another library; here it is any function with the two properties that this one counts on.
-/

namespace Cool.Http

/-- `os << n` of an unsigned number. -/
def printNat (n : Nat) : List UInt8 :=
  if n = 0 then [48] else ((Nat.digits 10 n).map fun d => UInt8.ofNat (48 + d)).reverse

/-- `boost::lexical_cast<uint64_t>`, none where it throws. -/
class Boost where
  lexicalCast : List UInt8 → Option Nat
  lexicalCast_lt {text : List UInt8} {n : Nat} : lexicalCast text = some n → n < 2 ^ 64
  lexicalCast_printNat {n : Nat} : n < 2 ^ 64 → lexicalCast (printNat n) = some n

/-- The digits of `printNat`. -/
def digitBytes (ds : List Nat) : List UInt8 := ds.map fun d => UInt8.ofNat (48 + d)

/-- The number that digits stand for, the most significant first. -/
def number (ds : List Nat) (acc : Nat) : Nat := ds.foldl (fun acc d => acc * 10 + d) acc

theorem le_number (ds : List Nat) (acc : Nat) : acc ≤ number ds acc := by
  induction ds generalizing acc with
  | nil => exact Nat.le_refl _
  | cons d ds ih =>
    have step := ih (acc * 10 + d)
    rw [number, List.foldl_cons]
    unfold number at step
    omega

theorem printNat_eq (n : Nat) :
    ∃ ds, printNat n = digitBytes ds ∧ ds ≠ [] ∧ (∀ d ∈ ds, d < 10) ∧ number ds 0 = n := by
  unfold printNat
  split
  · rename_i zero
    exact ⟨[0], rfl, by decide, by decide, zero.symm⟩
  · rename_i positive
    refine ⟨(Nat.digits 10 n).reverse, ?_, ?_, ?_, ?_⟩
    · rw [digitBytes, List.map_reverse]
    · simpa [Nat.digits_eq_nil_iff_eq_zero] using positive
    · intro d member
      exact Nat.digits_lt_base (by decide) (List.mem_reverse.mp member)
    · rw [number, List.foldl_reverse]
      conv_rhs => rw [← Nat.ofDigits_digits 10 n, Nat.ofDigits_eq_foldr]
      congr 1
      funext d acc
      simp only [Nat.cast_id]
      omega

theorem toNat_digit {d : Nat} (small : d < 10) : (UInt8.ofNat (48 + d)).toNat = 48 + d := by
  rw [UInt8.toNat_ofNat']
  omega

theorem digit_bounds {d : Nat} (small : d < 10) :
    48 ≤ UInt8.ofNat (48 + d) ∧ UInt8.ofNat (48 + d) ≤ 57 := by
  rw [UInt8.le_iff_toNat_le, UInt8.le_iff_toNat_le, toNat_digit small]
  exact ⟨Nat.le_add_right 48 d, show 48 + d ≤ 57 by omega⟩

theorem printNat_bounds {n : Nat} {c : UInt8} (member : c ∈ printNat n) : 48 ≤ c ∧ c ≤ 57 := by
  obtain ⟨ds, printed, -, digits, -⟩ := printNat_eq n
  rw [printed] at member
  obtain ⟨d, inside, rfl⟩ := List.mem_map.mp member
  exact digit_bounds (digits d inside)

theorem printNat_ne_nil (n : Nat) : printNat n ≠ [] := by
  obtain ⟨ds, printed, nonempty, -⟩ := printNat_eq n
  simpa [printed, digitBytes] using nonempty

/-! ### Digits alone -/

def decimal : List UInt8 → Nat → Option Nat
  | [], acc => some acc
  | c :: cs, acc =>
    if 48 ≤ c && c ≤ 57 && acc * 10 + (c.toNat - 48) < 2 ^ 64 then
      decimal cs (acc * 10 + (c.toNat - 48))
    else none

theorem decimal_lt {cs : List UInt8} {acc n : Nat} (small : acc < 2 ^ 64)
    (value : decimal cs acc = some n) : n < 2 ^ 64 := by
  induction cs generalizing acc with
  | nil => cases value; exact small
  | cons c cs ih =>
    unfold decimal at value
    split at value
    · rename_i digit
      simp only [Bool.and_eq_true, decide_eq_true_eq] at digit
      exact ih digit.2 value
    · cases value

theorem decimal_digitBytes {ds : List Nat} {acc : Nat} (digits : ∀ d ∈ ds, d < 10)
    (fits : number ds acc < 2 ^ 64) : decimal (digitBytes ds) acc = some (number ds acc) := by
  induction ds generalizing acc with
  | nil => rfl
  | cons d ds ih =>
    have small := digits d List.mem_cons_self
    obtain ⟨low, high⟩ := digit_bounds small
    have rest : number (d :: ds) acc = number ds (acc * 10 + d) := rfl
    have grows := le_number ds (acc * 10 + d)
    rw [digitBytes, List.map_cons, decimal, toNat_digit small, Nat.add_sub_cancel_left, if_pos]
    · rw [rest]
      exact ih (fun d member => digits d (List.mem_cons_of_mem _ member)) (rest ▸ fits)
    · simp only [low, high, decide_true, Bool.true_and, decide_eq_true_eq]
      omega

/-- A cast that takes digits and nothing else, for texts that are given. -/
instance digitsAlone : Boost where
  lexicalCast text := if text = [] then none else decimal text 0
  lexicalCast_lt {text n} value := by
    split at value
    · cases value
    · exact decimal_lt (by decide) value
  lexicalCast_printNat {n} fits := by
    obtain ⟨ds, printed, _, digits, rfl⟩ := printNat_eq n
    rw [if_neg (printNat_ne_nil _), printed]
    exact decimal_digitBytes digits fits

end Cool.Http
