import Cool.Address.Object
import Cool.Foundation.OrderedMap

/-!
# The order of addresses

`operator<` compares the bytes at `addr()` up to the shorter `addrlen()` and then the lengths, which is the
lexicographic order of the byte strings.
-/

namespace Cool.Address

open Foundation

def memcmp : Nat → List UInt8 → List UInt8 → Int
  | n + 1, x :: xs, y :: ys => if x = y then memcmp n xs ys else x.toNat - y.toNat
  | _, _, _ => 0

namespace Object

def operatorLess (a b : Object) : Bool :=
  let minlen := min a.addrlen b.addrlen
  let res := memcmp minlen a.addr b.addr
  if res < 0 then true
  else if res > 0 then false
  else if a.addrlen < b.addrlen then true
  else false

def operatorEqual (a b : Object) : Bool := a.addrlen == b.addrlen && memcmp a.addrlen a.addr b.addr == 0

def operatorNotEqual (a b : Object) : Bool := !operatorEqual a b

/-- The byte string of length `addrlen()` at `addr()`. -/
def string (a : Object) : List Nat := (a.addr.take a.addrlen).map UInt8.toNat

end Object

/-! ### Comparing bytes -/

variable {xs ys : List UInt8} {m n : Nat}

theorem memcmp_eq_zero (fits : n ≤ xs.length) (fits' : n ≤ ys.length) :
    memcmp n xs ys = 0 ↔ xs.take n = ys.take n := by
  induction n generalizing xs ys with
  | zero => simp [memcmp]
  | succ n ih =>
    cases xs with
    | nil => cases fits
    | cons x xs =>
      cases ys with
      | nil => cases fits'
      | cons y ys =>
        rw [memcmp, List.take_succ_cons, List.take_succ_cons, List.cons.injEq]
        by_cases same : x = y
        · rw [if_pos same, ih (Nat.le_of_succ_le_succ fits) (Nat.le_of_succ_le_succ fits')]
          simp [same]
        · have differ : x.toNat ≠ y.toNat := fun equal => same (UInt8.toNat_inj.mp equal)
          rw [if_neg same]
          simp only [same, false_and, iff_false]
          omega

/-- The shorter length first and then the lengths: the lexicographic order. -/
theorem memcmp_less_iff (fits : m ≤ xs.length) (fits' : n ≤ ys.length) :
    memcmp (min m n) xs ys < 0 ∨ memcmp (min m n) xs ys = 0 ∧ m < n ↔
      (xs.take m).map UInt8.toNat < (ys.take n).map UInt8.toNat := by
  induction m generalizing n xs ys with
  | zero =>
    cases n with
    | zero => simp [memcmp]
    | succ n =>
      cases ys with
      | nil => cases fits'
      | cons y ys => simp [memcmp]
  | succ m ih =>
    cases n with
    | zero => simp [memcmp]
    | succ n =>
      cases xs with
      | nil => cases fits
      | cons x xs =>
        cases ys with
        | nil => cases fits'
        | cons y ys =>
          have rest := ih (Nat.le_of_succ_le_succ fits) (Nat.le_of_succ_le_succ fits')
          rw [Nat.succ_min_succ, memcmp, List.take_succ_cons, List.take_succ_cons, List.map_cons, List.map_cons,
            List.cons_lt_cons_iff, ← rest]
          by_cases same : x = y
          · rw [if_pos same]
            simp [same]
          · have differ : x.toNat ≠ y.toNat := fun equal => same (UInt8.toNat_inj.mp equal)
            rw [if_neg same]
            omega

namespace Object

theorem operatorLess_iff (a b : Object) : a.operatorLess b = true ↔ a.string < b.string := by
  rw [string, string, ← memcmp_less_iff a.addrlen_le b.addrlen_le, operatorLess]
  split
  · rename_i below
    simp [below]
  · split
    · rename_i above
      simp only [Bool.false_eq_true, false_iff]
      omega
    · simp only [Bool.if_false_right, Bool.and_true, decide_eq_true_eq]
      omega

theorem operatorEqual_iff (a b : Object) : a.operatorEqual b = true ↔ a.string = b.string := by
  have lengths (c : Object) : c.string.length = c.addrlen := by
    rw [string, List.length_map, List.length_take]
    exact Nat.min_eq_left c.addrlen_le
  rw [operatorEqual, Bool.and_eq_true, beq_iff_eq, beq_iff_eq]
  constructor
  · rintro ⟨length, same⟩
    rw [memcmp_eq_zero a.addrlen_le (length ▸ b.addrlen_le)] at same
    rw [string, string, same, length]
  · intro same
    have length : a.addrlen = b.addrlen := by rw [← lengths a, same, lengths b]
    refine ⟨length, ?_⟩
    rw [memcmp_eq_zero a.addrlen_le (length ▸ b.addrlen_le)]
    rw [string, string, ← length] at same
    exact List.map_injective_iff.mpr (fun x y => UInt8.toNat_inj.mp) same

/-- `operator<` is a strict total order on all addresses that goes with `operator==`. -/
theorem operators_strictTotal :
    OrderedMap.StrictTotal operatorLess operatorEqual ∧
      ∀ a b, operatorNotEqual a b = (operatorLess a b || operatorLess b a) := by
  have total : OrderedMap.StrictTotal operatorLess operatorEqual :=
    OrderedMap.Compares.strictTotal operatorLess_iff operatorEqual_iff
  refine ⟨total, fun a b => ?_⟩
  rw [operatorNotEqual]
  rcases total.trichotomy a b with ⟨below, _, differ⟩ | ⟨_, above, differ⟩ | ⟨below, above, same⟩
  · rw [differ, below, Bool.not_false, Bool.true_or]
  · rw [differ, above, Bool.not_false, Bool.or_true]
  · rw [same, below, above]
    rfl

/-- A shorter address that begins a longer one is below it. -/
example : operatorLess (.unix [1, 0, 47] 3 (by decide)) (.unix [1, 0, 47, 97] 4 (by decide)) = true := by decide

end Object

end Cool.Address
