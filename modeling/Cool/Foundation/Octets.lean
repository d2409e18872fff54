import Mathlib.Data.Nat.Digits.Defs

/-!
# Numbers as octets

The octets of a number, the least significant first, padded to a given length, and the number that
a list of octets stands for.
-/

namespace Foundation

def octets (n v : Nat) : List UInt8 := (List.range n).map fun i => UInt8.ofNat (v / 256 ^ i)

def ofOctets (bs : List UInt8) : Nat := Nat.ofDigits 256 (bs.map UInt8.toNat)

theorem length_octets (n v : Nat) : (octets n v).length = n := by
  rw [octets, List.length_map, List.length_range]

theorem octets_succ (n v : Nat) : octets (n + 1) v = UInt8.ofNat v :: octets n (v / 256) := by
  unfold octets
  rw [List.range_succ_eq_map, List.map_cons, List.map_map, pow_zero, Nat.div_one]
  congr 1
  refine List.map_congr_left fun i _ => ?_
  rw [Function.comp_apply, Nat.div_div_eq_div_mul, ← pow_succ']

theorem ofOctets_cons (b : UInt8) (bs : List UInt8) : ofOctets (b :: bs) = b.toNat + 256 * ofOctets bs := by
  rw [ofOctets, List.map_cons, Nat.ofDigits_cons]
  rfl

theorem ofOctets_append (xs ys : List UInt8) :
    ofOctets (xs ++ ys) = ofOctets xs + 256 ^ xs.length * ofOctets ys := by
  rw [ofOctets, List.map_append, Nat.ofDigits_append, List.length_map]
  rfl

theorem ofOctets_lt (bs : List UInt8) : ofOctets bs < 256 ^ bs.length := by
  induction bs with
  | nil => exact Nat.one_pos
  | cons b bs ih =>
    have small := b.toNat_lt
    rw [ofOctets_cons, List.length_cons, pow_succ']
    omega

theorem ofOctets_octets {n v : Nat} (fits : v < 256 ^ n) : ofOctets (octets n v) = v := by
  induction n generalizing v with
  | zero =>
    rw [pow_zero] at fits
    rw [Nat.lt_one_iff.mp fits]
    rfl
  | succ n ih =>
    have rest : v / 256 < 256 ^ n := by
      rw [pow_succ'] at fits
      exact Nat.div_lt_of_lt_mul fits
    rw [octets_succ, ofOctets_cons, ih rest, UInt8.toNat_ofNat']
    omega

theorem octets_ofOctets (bs : List UInt8) : octets bs.length (ofOctets bs) = bs := by
  induction bs with
  | nil => rfl
  | cons b bs ih =>
    have small := b.toNat_lt
    have head : UInt8.ofNat (b.toNat + 256 * ofOctets bs) = b := by
      apply UInt8.toNat_inj.mp
      rw [UInt8.toNat_ofNat']
      omega
    have tail : (b.toNat + 256 * ofOctets bs) / 256 = ofOctets bs := by omega
    rw [List.length_cons, octets_succ, ofOctets_cons, head, tail, ih]

/-- A property of all octets is decided by trying them. -/
instance decidableForallOctet {P : UInt8 → Prop} [DecidablePred P] : Decidable (∀ c, P c) :=
  decidable_of_iff (∀ n : Fin 256, P (UInt8.ofNat n)) <| by
    refine ⟨fun all c => ?_, fun all n => all _⟩
    have one := all ⟨c.toNat, c.toNat_lt⟩
    rwa [UInt8.ofNat_toNat] at one

end Foundation
