import Cool.ByteArray.RoundTrip

/-!
# Network addresses

`networkAddress` and `subnetMask` of both families. The mask of `CreateMask` has the host bits set: `subnetMask`
complements it and `networkAddress` does not. The bits of an address are numbered from the first one on the wire.
-/

namespace Cool.Address

open Cool.ByteArray.Typed (byteswap memoryOf memoryOf_byteswap byteswap_byteswap)

/-- Undefined behaviour: a shift by the width of `int` or more, an overflow of `int`, an index behind an array. -/
inductive Undefined where
  | shift | overflow | bounds
  deriving DecidableEq, Repr

/-- `CreateMask<T>(bits)` for a `T` of `w` bits. The `1` that is shifted is an `int`. -/
def createMask (w bits : Nat) : Except Undefined (BitVec w) :=
  if bits ≤ w ∧ w - bits < 32 then
    if w - bits = 31 then .error .overflow
    else .ok (BitVec.ofNat w (2 ^ (w - bits) - 1))
  else .error .shift

/-- On a little-endian host. -/
def byteswapOnLittleEndian (t : BitVec 32) : BitVec 32 := byteswap (n := 4) t

structure SockaddrIn where
  family : BitVec 16
  port : BitVec 16
  sAddr : BitVec 32
  deriving DecidableEq, Repr

structure SockaddrIn6 where
  family : BitVec 16
  port : BitVec 16
  flowinfo : BitVec 32
  s6Addr : Fin 16 → BitVec 8
  scopeId : BitVec 32

namespace IPv4Address

def networkAddress (m : SockaddrIn) (prefixLen : Nat) : Except Undefined (Option SockaddrIn) :=
  if 32 < prefixLen then .ok none
  else
    match createMask 32 prefixLen with
    | .error fault => .error fault
    | .ok mask => .ok (some { m with sAddr := m.sAddr &&& byteswapOnLittleEndian mask })

def subnetMask (prefixLen : Nat) : Except Undefined SockaddrIn :=
  match createMask 32 prefixLen with
  | .error fault => .error fault
  | .ok mask => .ok ⟨2, 0, ~~~ byteswapOnLittleEndian mask⟩

end IPv4Address

namespace IPv6Address

def networkAddress (m : SockaddrIn6) (prefixLen : Nat) : Except Undefined SockaddrIn6 :=
  if inside : prefixLen / 8 < 16 then
    match createMask 8 (prefixLen % 8) with
    | .error fault => .error fault
    | .ok mask =>
      .ok { m with
        s6Addr := Function.update m.s6Addr ⟨prefixLen / 8, inside⟩ (m.s6Addr ⟨prefixLen / 8, inside⟩ &&& mask) }
  else .error .bounds

def subnetMask (prefixLen : Nat) : Except Undefined SockaddrIn6 :=
  if prefixLen / 8 < 16 then
    match createMask 8 (prefixLen % 8) with
    | .error fault => .error fault
    | .ok mask =>
      .ok ⟨10, 0, 0, fun i => if i < prefixLen / 8 then 0xFF else if i = prefixLen / 8 then ~~~ mask else 0, 0⟩
  else .error .bounds

end IPv6Address

/-! ### What is expected -/

def SockaddrIn.bit (m : SockaddrIn) (i : Nat) : Bool := (byteswapOnLittleEndian m.sAddr).getMsbD i

def SockaddrIn6.bit (m : SockaddrIn6) (byte : Fin 16) (i : Nat) : Bool := (m.s6Addr byte).getMsbD i

/-- The network address keeps family, port and the first bits, and no others; it is the address under the subnet
mask. -/
def IPv4Address.Right (m : SockaddrIn) (prefixLen : Nat) : Prop :=
  ∃ n mask, networkAddress m prefixLen = .ok (some n) ∧ subnetMask prefixLen = .ok mask ∧
    n.family = m.family ∧ n.port = m.port ∧ n.sAddr = m.sAddr &&& mask.sAddr ∧
    ∀ i < 32, n.bit i = (decide (i < prefixLen) && m.bit i)

def IPv6Address.Right (m : SockaddrIn6) (prefixLen : Nat) : Prop :=
  ∃ n mask, networkAddress m prefixLen = .ok n ∧ subnetMask prefixLen = .ok mask ∧
    n.family = m.family ∧ n.port = m.port ∧ (∀ byte, n.s6Addr byte = m.s6Addr byte &&& mask.s6Addr byte) ∧
    ∀ (byte : Fin 16), ∀ i < 8, n.bit byte i = (decide (8 * byte + i < prefixLen) && m.bit byte i)

/-! ### Masks -/

theorem getMsbD_mask {w p i : Nat} (fits : p ≤ w) (inside : i < w) :
    (BitVec.ofNat w (2 ^ (w - p) - 1)).getMsbD i = decide (p ≤ i) := by
  rw [BitVec.getMsbD_eq_getLsbD, BitVec.getLsbD_ofNat, Nat.testBit_two_pow_sub_one]
  simp only [inside, decide_true, Bool.true_and, show w - 1 - i < w by omega]
  exact decide_eq_decide.mpr (by omega)

theorem createMask_byte (p : Nat) : createMask 8 (p % 8) = .ok (BitVec.ofNat 8 (2 ^ (8 - p % 8) - 1)) := by
  unfold createMask
  rw [if_pos (by omega), if_neg (by omega)]

theorem createMask_word {p : Nat} (low : 2 ≤ p) (high : p ≤ 32) :
    createMask 32 p = .ok (BitVec.ofNat 32 (2 ^ (32 - p) - 1)) := by
  unfold createMask
  rw [if_pos (by omega), if_neg (by omega)]

theorem createMask_undefined {p : Nat} (low : p < 2) : ∃ fault, createMask 32 p = .error fault := by
  have cases : p = 0 ∨ p = 1 := by omega
  rcases cases with rfl | rfl
  · exact ⟨.shift, rfl⟩
  · exact ⟨.overflow, rfl⟩

/-! ### Swapped bytes -/

theorem getLsbD_memoryOf {n j i : Nat} (val : BitVec (8 * n)) (inside : j < n) (bit : i < 8) :
    ((memoryOf val)[j]?.map fun b => b.toNat.testBit i) = some (val.getLsbD (8 * j + i)) := by
  have power : 256 ^ j = 2 ^ (8 * j) := by rw [Nat.pow_mul]
  have shifted : (val.toNat / 2 ^ (8 * j) % 2 ^ 8).testBit i = val.toNat.testBit (8 * j + i) := by
    simp only [Nat.testBit_mod_two_pow, bit, decide_true, Bool.true_and, Nat.testBit_div_two_pow, Nat.add_comm i]
  simpa [memoryOf, Foundation.octets, inside, UInt8.toNat_ofNat', power, BitVec.getLsbD] using shifted

theorem getLsbD_byteswap {n j i : Nat} (val : BitVec (8 * n)) (inside : j < n) (bit : i < 8) :
    (byteswap val).getLsbD (8 * j + i) = val.getLsbD (8 * (n - 1 - j) + i) := by
  have swapped := getLsbD_memoryOf (byteswap val) inside bit
  have length : (memoryOf val).length = n := Foundation.length_octets n val.toNat
  rw [memoryOf_byteswap, List.getElem?_reverse (by omega), length,
    getLsbD_memoryOf val (by omega) bit] at swapped
  exact (Option.some.inj swapped).symm

theorem getLsbD_swapped {k : Nat} (inside : k < 32) (x : BitVec 32) :
    (byteswapOnLittleEndian x).getLsbD k = x.getLsbD (8 * (4 - 1 - k / 8) + k % 8) := by
  have swapped := getLsbD_byteswap (n := 4) x (by omega : k / 8 < 4) (by omega : k % 8 < 8)
  rwa [Nat.div_add_mod] at swapped

theorem byteswap_and (x y : BitVec 32) :
    byteswapOnLittleEndian (x &&& y) = byteswapOnLittleEndian x &&& byteswapOnLittleEndian y := by
  apply BitVec.eq_of_getLsbD_eq
  intro k inside
  rw [BitVec.getLsbD_and, getLsbD_swapped inside, getLsbD_swapped inside, getLsbD_swapped inside, BitVec.getLsbD_and]

theorem byteswap_swapped (x : BitVec 32) : byteswapOnLittleEndian (byteswapOnLittleEndian x) = x :=
  byteswap_byteswap (n := 4) x

theorem byteswap_zero : byteswapOnLittleEndian 0 = 0 := by decide

/-! ### IPv4 -/

namespace IPv4Address

variable {m : SockaddrIn} {p : Nat}

theorem networkAddress_of_le (m : SockaddrIn) (low : 2 ≤ p) (high : p ≤ 32) :
    networkAddress m p = .ok (some { m with
      sAddr := m.sAddr &&& byteswapOnLittleEndian (BitVec.ofNat 32 (2 ^ (32 - p) - 1)) }) := by
  rw [networkAddress, if_neg (by omega), createMask_word low high]

theorem subnetMask_of_le (low : 2 ≤ p) (high : p ≤ 32) :
    subnetMask p = .ok ⟨2, 0, ~~~ byteswapOnLittleEndian (BitVec.ofNat 32 (2 ^ (32 - p) - 1))⟩ := by
  rw [subnetMask, createMask_word low high]

/-- It keeps the bits that it should clear. -/
theorem networkAddress_bits (m : SockaddrIn) (low : 2 ≤ p) (high : p ≤ 32) :
    ∃ n, networkAddress m p = .ok (some n) ∧ n.family = m.family ∧ n.port = m.port ∧
      ∀ i < 32, n.bit i = (m.bit i && decide (p ≤ i)) := by
  refine ⟨_, networkAddress_of_le m low high, rfl, rfl, fun i inside => ?_⟩
  simp only [SockaddrIn.bit, byteswap_and, byteswap_swapped, BitVec.getMsbD_and, getMsbD_mask high inside]

theorem eq_zero_of_bits (clear : ∀ i < 32, m.bit i = false) : m.sAddr = 0 := by
  have swapped : byteswapOnLittleEndian m.sAddr = 0 := by
    apply BitVec.eq_of_getMsbD_eq
    intro i inside
    simpa [SockaddrIn.bit] using clear i inside
  rw [← byteswap_swapped m.sAddr, swapped, byteswap_zero]

theorem bit_of_zero (zero : m.sAddr = 0) (i : Nat) : m.bit i = false := by
  rw [SockaddrIn.bit, zero, byteswap_zero]
  simp

theorem right_iff (m : SockaddrIn) (p : Nat) : Right m p ↔ 2 ≤ p ∧ p ≤ 32 ∧ m.sAddr = 0 := by
  constructor
  · rintro ⟨n, mask, called, masked, -, -, -, bits⟩
    have low : 2 ≤ p := by
      by_contra small
      obtain ⟨fault, undefined⟩ := createMask_undefined (by omega : p < 2)
      rw [subnetMask, undefined] at masked
      cases masked
    have high : p ≤ 32 := by
      by_contra large
      rw [networkAddress, if_pos (by omega)] at called
      cases called
    refine ⟨low, high, eq_zero_of_bits fun i inside => ?_⟩
    obtain ⟨n', called', -, -, kept⟩ := networkAddress_bits m low high
    obtain rfl := Option.some.inj (Except.ok.inj (called.symm.trans called'))
    have bit := (kept i inside).symm.trans (bits i inside)
    -- a bit before the prefix ends was cleared and should be kept, one behind it was kept and should be cleared
    by_cases before : i < p
    · simpa [before, Nat.not_le.mpr before] using bit.symm
    · simpa [before, Nat.not_lt.mp before] using bit
  · rintro ⟨low, high, zero⟩
    refine ⟨_, _, networkAddress_of_le m low high, subnetMask_of_le low high, rfl, rfl, ?_, fun i inside => ?_⟩
    · simp [zero]
    · rw [bit_of_zero zero, Bool.and_false]
      exact bit_of_zero (by simp [zero]) i

end IPv4Address

/-! ### IPv6 -/

namespace IPv6Address

variable {m : SockaddrIn6} {p : Nat}

theorem subnetMask_of_lt (inside : p / 8 < 16) :
    subnetMask p = .ok ⟨10, 0, 0, fun i => if i < p / 8 then 0xFF else if i = p / 8 then
      ~~~ BitVec.ofNat 8 (2 ^ (8 - p % 8) - 1) else 0, 0⟩ := by
  rw [subnetMask, if_pos inside, createMask_byte]

theorem networkAddress_of_lt (m : SockaddrIn6) (inside : p / 8 < 16) :
    networkAddress m p = .ok { m with
      s6Addr := Function.update m.s6Addr ⟨p / 8, inside⟩
        (m.s6Addr ⟨p / 8, inside⟩ &&& BitVec.ofNat 8 (2 ^ (8 - p % 8) - 1)) } := by
  rw [networkAddress, dif_pos inside, createMask_byte]

/-- One byte keeps the bits that it should clear, and those behind it keep all. -/
theorem networkAddress_bits {n : SockaddrIn6} (called : networkAddress m p = .ok n) (byte : Fin 16) {i : Nat}
    (bit : i < 8) : n.bit byte i = (m.bit byte i && !decide (p / 8 = byte ∧ i < p % 8)) := by
  by_cases inside : p / 8 < 16
  · rw [networkAddress_of_lt m inside] at called
    obtain rfl := Except.ok.inj called
    simp only [SockaddrIn6.bit]
    by_cases here : p / 8 = byte
    · have place : (⟨p / 8, inside⟩ : Fin 16) = byte := Fin.ext here
      rw [place, Function.update_self, BitVec.getMsbD_and, getMsbD_mask (by omega) bit]
      by_cases low : i < p % 8
      · simp [here, low]
      · simp [here, low, Nat.not_lt.mp low]
    · have other : byte ≠ ⟨p / 8, inside⟩ := fun same => here (congrArg Fin.val same).symm
      rw [Function.update_of_ne other]
      simp [here]
  · rw [networkAddress, dif_neg inside] at called
    cases called

theorem eq_zero_of_byte {byte : Fin 16} (clear : ∀ i < 8, m.bit byte i = false) : m.s6Addr byte = 0 := by
  apply BitVec.eq_of_getMsbD_eq
  intro i inside
  simpa [SockaddrIn6.bit] using clear i inside

theorem right_iff (m : SockaddrIn6) (p : Nat) :
    Right m p ↔ p < 128 ∧ ∀ byte : Fin 16, p / 8 ≤ byte → m.s6Addr byte = 0 := by
  constructor
  · rintro ⟨n, mask, called, -, -, -, -, bits⟩
    have inside : p / 8 < 16 := by
      by_contra outside
      rw [networkAddress, dif_neg outside] at called
      cases called
    refine ⟨by omega, fun byte behind => eq_zero_of_byte fun i bit => ?_⟩
    have both := (networkAddress_bits called byte bit).symm.trans (bits byte i bit)
    by_cases before : 8 * byte.val + i < p
    · have here : p / 8 = byte ∧ i < p % 8 := by omega
      simpa [before, here] using both.symm
    · have there : ¬ (p / 8 = byte ∧ i < p % 8) := by omega
      simpa [before, there] using both
  · rintro ⟨small, zero⟩
    have inside : p / 8 < 16 := by omega
    have same : networkAddress m p = .ok m := by
      have here := zero ⟨p / 8, inside⟩ (Nat.le_refl _)
      have masked (mask : BitVec 8) : m.s6Addr ⟨p / 8, inside⟩ &&& mask = m.s6Addr ⟨p / 8, inside⟩ := by simp [here]
      rw [networkAddress_of_lt m inside, masked, Function.update_eq_self]
    refine ⟨m, _, same, subnetMask_of_lt inside, rfl, rfl, fun byte => ?_, fun byte i bit => ?_⟩
    · by_cases before : byte.val < p / 8
      · simp only [if_pos before]
        exact (BitVec.and_allOnes).symm
      · simp [zero byte (by omega)]
    · by_cases before : 8 * byte.val + i < p
      · simp [before]
      · have clear : m.bit byte i = false := by
          rw [SockaddrIn6.bit, zero byte (by omega)]
          simp
        simp [clear]

end IPv6Address

/-- `networkAddress` is right exactly for the IPv4 address zero, with a prefix from 2 to 32, and for the IPv6 addresses
that are zero from the byte of the prefix on, with a prefix below 128. -/
theorem networkAddress_iff (m : SockaddrIn) (m' : SockaddrIn6) (p p' : Nat) :
    (IPv4Address.Right m p ↔ 2 ≤ p ∧ p ≤ 32 ∧ m.sAddr = 0) ∧
      (IPv6Address.Right m' p' ↔ p' < 128 ∧ ∀ byte : Fin 16, p' / 8 ≤ byte → m'.s6Addr byte = 0) :=
  ⟨IPv4Address.right_iff m p, IPv6Address.right_iff m' p'⟩

/-- 192.168.1.5 under a prefix of 24 becomes 0.0.0.5, and the last byte of ::1 stays under a prefix of 64. -/
theorem networkAddress_hosts :
    IPv4Address.networkAddress ⟨2, 80, 0x0501A8C0⟩ 24 = .ok (some ⟨2, 80, 0x05000000⟩) ∧
      (IPv6Address.networkAddress ⟨10, 80, 0, fun i => if i = 15 then 1 else 0, 0⟩ 64).map (·.s6Addr 15) = .ok 1 := by
  decide

end Cool.Address
