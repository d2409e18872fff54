import Cool.Foundation.Octets

/-!
# Counting the ones of a number

The number of ones among the low bits, counted bit by bit, octet by octet, or by clearing the lowest one again and
again.
-/

namespace Foundation

variable {w n : Nat}

def ones (w n : Nat) : Nat := (List.range w).countP fun i => n.testBit i

theorem ones_succ (w n : Nat) : ones (w + 1) n = n % 2 + ones w (n / 2) := by
  have higher : (fun i => n.testBit i) ∘ Nat.succ = fun i => (n / 2).testBit i := by
    funext i
    exact Nat.testBit_succ n i
  rw [ones, List.range_succ_eq_map, List.countP_cons, List.countP_map, higher, Nat.add_comm, ← ones]
  rcases Nat.mod_two_eq_zero_or_one n with even | odd
  · simp [Nat.testBit_zero, even]
  · simp [Nat.testBit_zero, odd]

theorem ones_add (v w n : Nat) : ones (v + w) n = ones v n + ones w (n / 2 ^ v) := by
  induction v generalizing n with
  | zero => simp [ones]
  | succ v ih =>
    rw [Nat.succ_add, ones_succ, ones_succ, ih, Nat.div_div_eq_div_mul, ← Nat.pow_succ', Nat.add_assoc]

theorem ones_mod (w n : Nat) : ones w (n % 2 ^ w) = ones w n := by
  refine List.countP_congr fun i member => ?_
  simp [Nat.testBit_mod_two_pow, List.mem_range.mp member]

theorem ones_octets (k n : Nat) : ones (8 * k) n = ((octets k n).map fun b => ones 8 b.toNat).sum := by
  induction k generalizing n with
  | zero => rfl
  | succ k ih =>
    have first : ones 8 (UInt8.ofNat n).toNat = ones 8 n := by
      rw [UInt8.toNat_ofNat']
      exact ones_mod 8 n
    rw [Nat.mul_succ, Nat.add_comm, ones_add, ih, octets_succ, List.map_cons, List.sum_cons, first]
    rfl

/-- The first bits of `w` are counted, as many of them as there are before `p`. -/
theorem ones_front {c p : Nat} (front : ∀ i < w, n.testBit (w - 1 - i) = decide (c + i < p)) :
    ones w n = min w (p - c) := by
  induction w generalizing n with
  | zero => simp [ones]
  | succ w ih =>
    have last := front w (Nat.lt_succ_self w)
    rw [Nat.add_sub_cancel, Nat.sub_self, Nat.testBit_zero] at last
    have rest : ones w (n / 2) = min w (p - c) := by
      apply ih
      intro i inside
      rw [← Nat.testBit_succ, ← front i (Nat.lt_succ_of_lt inside)]
      congr 1
      omega
    rw [ones_succ, rest]
    have parity := decide_eq_decide.mp last
    omega

theorem and_pred_lt (positive : n ≠ 0) : n &&& (n - 1) < n :=
  Nat.lt_of_le_of_lt Nat.and_le_right (by omega)

/-- Clearing the lowest one takes one away. -/
theorem ones_and_pred (fits : n < 2 ^ w) (positive : n ≠ 0) : ones w (n &&& (n - 1)) + 1 = ones w n := by
  induction w generalizing n with
  | zero => omega
  | succ w ih =>
    have half : n / 2 < 2 ^ w := by omega
    have cleared : (n &&& (n - 1)) % 2 = 0 := by
      have low := Nat.and_mod_two_eq_one (a := n) (b := n - 1)
      omega
    rw [ones_succ, ones_succ, cleared, Nat.and_div_two]
    rcases Nat.mod_two_eq_zero_or_one n with even | odd
    · have below : (n - 1) / 2 = n / 2 - 1 := by omega
      have rest := ih half (by omega)
      rw [below, even]
      omega
    · have same : (n - 1) / 2 = n / 2 := by omega
      rw [same, Nat.and_self, odd]
      omega

end Foundation
