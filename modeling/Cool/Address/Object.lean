import Cool.Address.Network

/-!
# The classes of addresses

The objects of the four classes by their members, the bytes at `addr()`, and `Address::Create`, which takes the class
from the family.
-/

namespace Cool.Address

open Cool.ByteArray.Typed (memoryOf ofMemory length_memoryOf ofMemory_memoryOf)

def afUnspec : Int := 0
def afInet : BitVec 16 := 2
def afInet6 : BitVec 16 := 10

def SockaddrIn.bytes (m : SockaddrIn) (sinZero : BitVec 64) : List UInt8 :=
  memoryOf (n := 2) m.family ++ memoryOf (n := 2) m.port ++ memoryOf (n := 4) m.sAddr ++ memoryOf (n := 8) sinZero

def SockaddrIn6.bytes (m : SockaddrIn6) : List UInt8 :=
  memoryOf (n := 2) m.family ++ memoryOf (n := 2) m.port ++ memoryOf (n := 4) m.flowinfo ++
    (List.ofFn m.s6Addr).map UInt8.ofBitVec ++ memoryOf (n := 4) m.scopeId

/-- The members of a `UnixAddress` are its memory from `addr()` on and `m_len`, which can be set and stays inside. -/
inductive Object where
  | iPv4 (m : SockaddrIn) (sinZero : BitVec 64)
  | iPv6 (m : SockaddrIn6)
  | unix (memory : List UInt8) (len : UInt32) (inside : len.toNat ≤ memory.length)
  | unknow (saFamily : BitVec 16) (saData : BitVec 112)

namespace Object

def addr : Object → List UInt8
  | iPv4 m sinZero => m.bytes sinZero
  | iPv6 m => m.bytes
  | unix memory _ _ => memory
  | unknow saFamily saData => memoryOf (n := 2) saFamily ++ memoryOf (n := 14) saData

def addrlen : Object → Nat
  | iPv4 _ _ => 16
  | iPv6 _ => 28
  | unix _ len _ => len.toNat
  | unknow _ _ => 16

def family (a : Object) : BitVec 16 := ofMemory 2 (a.addr.take 2)

theorem addrlen_le (a : Object) : a.addrlen ≤ a.addr.length := by
  cases a with
  | iPv4 m sinZero => simp [addrlen, addr, SockaddrIn.bytes, length_memoryOf]
  | iPv6 m => simp [addrlen, addr, SockaddrIn6.bytes, length_memoryOf]
  | unix memory len inside => exact inside
  | unknow saFamily saData => simp [addrlen, addr, length_memoryOf]

end Object

/-- The memory that a `sockaddr *` points to, as it is seen through the casts of the source. The family is the first
member of all views. -/
structure Sockaddr where
  saFamily : BitVec 16
  saData : BitVec 112
  asIn : SockaddrIn
  sinZero : BitVec 64
  asIn6 : SockaddrIn6
  inFamily : asIn.family = saFamily
  in6Family : asIn6.family = saFamily

/-- `Address::Create` of a pointer that is not null. -/
def create (addr : Sockaddr) : Object :=
  if addr.saFamily = afInet then .iPv4 addr.asIn addr.sinZero
  else if addr.saFamily = afInet6 then .iPv6 addr.asIn6
  else .unknow addr.saFamily addr.saData

theorem ofMemory_take_append (family : BitVec 16) (rest : List UInt8) :
    ofMemory 2 ((memoryOf (n := 2) family ++ rest).take 2) = family := by
  have front : (memoryOf (n := 2) family ++ rest).take 2 = memoryOf (n := 2) family :=
    List.take_left' (length_memoryOf (n := 2) family)
  rw [front]
  exact ofMemory_memoryOf (n := 2) family

end Cool.Address
