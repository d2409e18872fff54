import Mathlib.Data.List.Basic

/-!
# Numerals

What a number looks like when it is printed in a base up to sixteen: at least one digit, no leading zeros.
-/

namespace Foundation

variable {b n : Nat} {t : List Char}

def digitValue (c : Char) : Option Nat := ("0123456789abcdef".toList).idxOf? c

/-- Digits read on behind a number. -/
def readOn (b acc : Nat) (t : List Char) : Nat := t.foldl (fun acc c => b * acc + (digitValue c).getD 0) acc

def numeralValue (b : Nat) (t : List Char) : Nat := readOn b 0 t

structure Numeral (b : Nat) (t : List Char) (n : Nat) : Prop where
  nonempty : t ≠ []
  digits : ∀ c ∈ t, ∃ d < b, digitValue c = some d
  leading : t.head? = some '0' → t = ['0']
  value : numeralValue b t = n

theorem digitValue_digitChar : ∀ d < 16, digitValue d.digitChar = some d := by decide

theorem numeralValue_append (t : List Char) (c : Char) :
    numeralValue b (t ++ [c]) = b * numeralValue b t + (digitValue c).getD 0 := by
  rw [numeralValue, readOn, List.foldl_append]
  rfl

theorem le_readOn (positive : 0 < b) (acc : Nat) (t : List Char) : acc ≤ readOn b acc t := by
  induction t generalizing acc with
  | nil => exact Nat.le_refl acc
  | cons c t ih =>
    have grows : acc ≤ b * acc := Nat.le_mul_of_pos_left acc positive
    exact Nat.le_trans (Nat.le_trans grows (Nat.le_add_right _ _)) (ih _)

theorem numeral_toDigits (low : 1 < b) (high : b ≤ 16) (n : Nat) : Numeral b (Nat.toDigits b n) n := by
  induction n using Nat.strongRecOn with
  | ind n ih =>
    rw [Nat.toDigits_eq_if low]
    by_cases small : n < b
    · have digit := digitValue_digitChar n (by omega)
      rw [if_pos small]
      refine ⟨List.cons_ne_nil _ _, fun c member => ?_, fun zero => ?_, ?_⟩
      · rw [List.mem_singleton.mp member]
        exact ⟨n, small, digit⟩
      · rw [Option.some.inj zero]
      · simp [numeralValue, readOn, digit]
    · have shorter : n / b < n := Nat.div_lt_self (by omega) low
      have positive : 0 < n / b := Nat.div_pos (by omega) (by omega)
      have last : n % b < b := Nat.mod_lt _ (by omega)
      have digit := digitValue_digitChar (n % b) (by omega)
      obtain ⟨nonempty, digits, leading, value⟩ := ih (n / b) shorter
      rw [if_neg small]
      refine ⟨by simp, fun c member => ?_, fun zero => ?_, ?_⟩
      · rcases List.mem_append.mp member with earlier | here
        · exact digits c earlier
        · rw [List.mem_singleton.mp here]
          exact ⟨n % b, last, digit⟩
      · -- a zero in front would make the number without its last digit zero
        rw [List.head?_append_of_ne_nil _ nonempty] at zero
        rw [leading zero] at value
        have digit_zero : digitValue '0' = some 0 := by decide
        have none : numeralValue b ['0'] = 0 := by simp [numeralValue, readOn, digit_zero]
        omega
      · rw [numeralValue_append, value, digit, Option.getD_some, Nat.div_add_mod]

theorem Numeral.notMem {c : Char} (numeral : Numeral b t n) (other : digitValue c = none) : c ∉ t := by
  intro member
  obtain ⟨d, _, digit⟩ := numeral.digits c member
  rw [other] at digit
  cases digit

end Foundation
