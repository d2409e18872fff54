import Cool.Address.Network

/-!
# Broadcast addresses and subnet masks

Unlike `networkAddress` these use the mask of `CreateMask` the right way round. What is left is its arithmetic: a
shift by 32 and an overflow of `int` for the two shortest prefixes of IPv4, and the index 16 for the longest one of
IPv6.
-/

namespace Cool.Address

namespace IPv4Address

def broadcastAddress (m : SockaddrIn) (prefixLen : Nat) : Except Undefined (Option SockaddrIn) :=
  if 32 < prefixLen then .ok none
  else
    match createMask 32 prefixLen with
    | .error fault => .error fault
    | .ok mask => .ok (some { m with sAddr := m.sAddr ||| byteswapOnLittleEndian mask })

/-- Both calls are defined, the broadcast address keeps the first bits and sets the others, and the mask has exactly
the first bits. -/
def Masks (m : SockaddrIn) (prefixLen : Nat) : Prop :=
  ∃ n mask, broadcastAddress m prefixLen = .ok (some n) ∧ subnetMask prefixLen = .ok mask ∧
    (∀ i < 32, n.bit i = if i < prefixLen then m.bit i else true) ∧
    ∀ i < 32, mask.bit i = decide (i < prefixLen)

end IPv4Address

namespace IPv6Address

def broadcastAddress (m : SockaddrIn6) (prefixLen : Nat) : Except Undefined SockaddrIn6 :=
  if prefixLen / 8 < 16 then
    match createMask 8 (prefixLen % 8) with
    | .error fault => .error fault
    | .ok mask =>
      .ok { m with
        s6Addr := fun i =>
          if prefixLen / 8 < i then 0xff else if i = prefixLen / 8 then m.s6Addr i ||| mask else m.s6Addr i }
  else .error .bounds

def Masks (m : SockaddrIn6) (prefixLen : Nat) : Prop :=
  ∃ n mask, broadcastAddress m prefixLen = .ok n ∧ subnetMask prefixLen = .ok mask ∧
    (∀ (byte : Fin 16), ∀ i < 8, n.bit byte i = if 8 * byte + i < prefixLen then m.bit byte i else true) ∧
    ∀ (byte : Fin 16), ∀ i < 8, mask.bit byte i = decide (8 * byte + i < prefixLen)

end IPv6Address

theorem byteswap_or (x y : BitVec 32) :
    byteswapOnLittleEndian (x ||| y) = byteswapOnLittleEndian x ||| byteswapOnLittleEndian y := by
  apply BitVec.eq_of_getLsbD_eq
  intro k inside
  rw [BitVec.getLsbD_or, getLsbD_swapped inside, getLsbD_swapped inside, getLsbD_swapped inside, BitVec.getLsbD_or]

theorem byteswap_not (x : BitVec 32) : byteswapOnLittleEndian (~~~ x) = ~~~ byteswapOnLittleEndian x := by
  apply BitVec.eq_of_getLsbD_eq
  intro k inside
  have place : 8 * (4 - 1 - k / 8) + k % 8 < 32 := by omega
  rw [BitVec.getLsbD_not, getLsbD_swapped inside, getLsbD_swapped inside, BitVec.getLsbD_not]
  simp only [inside, place]

namespace IPv4Address

variable {m : SockaddrIn} {p : Nat}

theorem broadcastAddress_bits (m : SockaddrIn) (low : 2 ≤ p) (high : p ≤ 32) :
    ∃ n, broadcastAddress m p = .ok (some n) ∧ ∀ i < 32, n.bit i = if i < p then m.bit i else true := by
  refine ⟨_, by rw [broadcastAddress, if_neg (by omega), createMask_word low high], fun i inside => ?_⟩
  simp only [SockaddrIn.bit, byteswap_or, byteswap_swapped, BitVec.getMsbD_or, getMsbD_mask high inside]
  by_cases before : i < p
  · simp [before, Nat.not_le.mpr before]
  · simp [before, Nat.not_lt.mp before]

theorem subnetMask_bits (low : 2 ≤ p) (high : p ≤ 32) :
    ∃ mask, subnetMask p = .ok mask ∧ ∀ i < 32, mask.bit i = decide (i < p) := by
  refine ⟨_, subnetMask_of_le low high, fun i inside => ?_⟩
  simp only [SockaddrIn.bit, byteswap_not, byteswap_swapped, BitVec.getMsbD_not, getMsbD_mask high inside]
  simp [inside, ← decide_not]

theorem subnetMask_range {mask : SockaddrIn} (masked : subnetMask p = .ok mask) : 2 ≤ p ∧ p ≤ 32 := by
  constructor
  · by_contra small
    obtain ⟨fault, undefined⟩ := createMask_undefined (by omega : p < 2)
    rw [subnetMask, undefined] at masked
    cases masked
  · by_contra large
    rw [subnetMask, createMask, if_neg (by omega)] at masked
    cases masked

theorem masks_iff (m : SockaddrIn) (p : Nat) : Masks m p ↔ 2 ≤ p ∧ p ≤ 32 := by
  constructor
  · rintro ⟨n, mask, _, masked, -⟩
    exact subnetMask_range masked
  · rintro ⟨low, high⟩
    obtain ⟨n, called, bits⟩ := broadcastAddress_bits m low high
    obtain ⟨mask, masked, set⟩ := subnetMask_bits low high
    exact ⟨n, mask, called, masked, bits, set⟩

end IPv4Address

namespace IPv6Address

variable {m : SockaddrIn6} {p : Nat}

theorem getMsbD_ones : ∀ i < 8, (0xff : BitVec 8).getMsbD i = true := by decide

theorem broadcastAddress_bits (m : SockaddrIn6) (inside : p / 8 < 16) :
    ∃ n, broadcastAddress m p = .ok n ∧
      ∀ (byte : Fin 16), ∀ i < 8, n.bit byte i = if 8 * byte + i < p then m.bit byte i else true := by
  refine ⟨_, by rw [broadcastAddress, if_pos inside, createMask_byte], fun byte i bit => ?_⟩
  simp only [SockaddrIn6.bit]
  rcases Nat.lt_trichotomy byte (p / 8) with before | here | behind
  · rw [if_neg (by omega), if_neg (by omega), if_pos (by omega)]
  · rw [if_neg (by omega), if_pos here, BitVec.getMsbD_or, getMsbD_mask (by omega) bit]
    by_cases low : i < p % 8
    · simp [show 8 * byte.val + i < p by omega, Nat.not_le.mpr low]
    · simp [show ¬ 8 * byte.val + i < p by omega, Nat.not_lt.mp low]
  · rw [if_pos behind, if_neg (by omega), getMsbD_ones i bit]

theorem subnetMask_bits (inside : p / 8 < 16) :
    ∃ mask, subnetMask p = .ok mask ∧ ∀ (byte : Fin 16), ∀ i < 8, mask.bit byte i = decide (8 * byte + i < p) := by
  refine ⟨_, subnetMask_of_lt inside, fun byte i bit => ?_⟩
  simp only [SockaddrIn6.bit]
  rcases Nat.lt_trichotomy byte (p / 8) with before | here | behind
  · rw [if_pos before, getMsbD_ones i bit, decide_eq_true (by omega)]
  · rw [if_neg (by omega), if_pos here, BitVec.getMsbD_not, getMsbD_mask (by omega) bit, decide_eq_true bit,
      Bool.true_and, ← decide_not]
    exact decide_eq_decide.mpr (by omega)
  · rw [if_neg (by omega), if_neg (by omega), decide_eq_false (by omega)]
    simp

theorem masks_iff (m : SockaddrIn6) (p : Nat) : Masks m p ↔ p < 128 := by
  constructor
  · rintro ⟨n, mask, called, -⟩
    by_contra outside
    rw [broadcastAddress, if_neg (by omega)] at called
    cases called
  · intro small
    obtain ⟨n, called, bits⟩ := broadcastAddress_bits m (by omega : p / 8 < 16)
    obtain ⟨mask, masked, set⟩ := subnetMask_bits (by omega : p / 8 < 16)
    exact ⟨n, mask, called, masked, bits, set⟩

end IPv6Address

/-- Broadcast address and subnet mask are right exactly for the prefixes from 2 to 32 and below 128. -/
theorem broadcastAddress_iff (m : SockaddrIn) (m' : SockaddrIn6) (p p' : Nat) :
    (IPv4Address.Masks m p ↔ 2 ≤ p ∧ p ≤ 32) ∧ (IPv6Address.Masks m' p' ↔ p' < 128) :=
  ⟨IPv4Address.masks_iff m p, IPv6Address.masks_iff m' p'⟩

/-- The prefix 0 shifts an `int` by 32, the prefix 1 overflows it, and the prefix 128 of IPv6 writes behind the
array. -/
theorem broadcastAddress_undefined :
    IPv4Address.broadcastAddress ⟨2, 80, 0x0501A8C0⟩ 0 = .error .shift ∧ IPv4Address.subnetMask 0 = .error .shift ∧
      IPv4Address.broadcastAddress ⟨2, 80, 0x0501A8C0⟩ 1 = .error .overflow ∧
      (IPv6Address.broadcastAddress ⟨10, 80, 0, fun _ => 0, 0⟩ 128).map (·.port) = .error .bounds ∧
      (IPv6Address.subnetMask 128).map (·.port) = .error .bounds := by
  decide

end Cool.Address
