import Cool.ByteArray.Refinement
import Cool.Foundation.Octets

/-!
# Typed values in a `ByteArray`

The functions `write_*` and `read_*` over the flat buffer that `ByteArray` refines. An integer is
its bits, and so is a `float` or a `double`; the host keeps the least significant byte first.
`COOL_BYTE_ORDER` is the parameter `order`.
-/

namespace Cool.ByteArray

open Foundation (octets ofOctets length_octets ofOctets_octets octets_ofOctets ofOctets_lt)

/-- The flat buffer together with `m_endian`. -/
structure Stream where
  flat : Flat
  endian : Endian

/-- What a typed call can end in: a fault of `read`, or a store past the end of `temp`. -/
inductive Halt where
  | fault (f : Fault)
  | overrun
  deriving DecidableEq, Repr

abbrev Typed (α : Type) := EStateM Halt Stream α

namespace Stream

def empty (endian : Endian) : Stream := ⟨⟨[], 0⟩, endian⟩

def getReadSize (s : Stream) : Nat := s.flat.contents.length - s.flat.pos

end Stream

namespace Typed

def write (buf : List UInt8) : Typed Unit := fun s => .ok () { s with flat := s.flat.write buf }

def read (size : Nat) : Typed (List UInt8) := fun s =>
  if size > s.getReadSize then .error (.fault (.outOfRange "not enough len")) s
  else .ok (s.flat.peek size) { s with flat := s.flat.advance size }

/-- `position(0)`, which is in range whatever the capacity. -/
def rewind : Typed Unit := fun s => .ok () { s with flat := s.flat.seek 0 [] }

def setIsLittleEndian (val : Bool) : Typed Unit :=
  modify fun s => { s with endian := if val then .little else .big }

end Typed

/-! ### The calls on the chain of nodes

Under the representation invariant the raw calls on the chain do to its flat buffer what the calls
above do, and leave the setting alone. -/

def stream (b : ByteArray) : Stream := ⟨b.flat, b.endian⟩

section Chain

variable {base : Nat} {b : ByteArray}

theorem addCapacity_endian (fill : Nat → Nat → UInt8) (n : Nat) :
    (b.addCapacity fill n).endian = b.endian := by
  unfold addCapacity
  dsimp only
  split
  · rfl
  · split <;> rfl

theorem write_endian (fill : Nat → Nat → UInt8) (buf : List UInt8) :
    (after (ByteArray.write fill buf b)).endian = b.endian := by
  unfold ByteArray.write
  dsimp only
  split
  · rfl
  · split
    · exact addCapacity_endian fill buf.length
    · exact addCapacity_endian fill buf.length

theorem read_endian (n : Nat) : (after (ByteArray.read n b)).endian = b.endian := by
  unfold ByteArray.read
  split
  · rfl
  · split <;> rfl

theorem position_endian (v : Nat) : (after (position v b)).endian = b.endian := by
  unfold position
  dsimp only
  split
  · rfl
  · split <;> rfl

theorem stream_eq {t : ByteArray} {f : Flat} {e : Endian} (same : t.flat = f) (setting : t.endian = e) :
    t.stream = ⟨f, e⟩ := by
  rw [stream, same, setting]

theorem write_stream (positive : 1 ≤ base) (rep : Rep base b) (fill : Nat → Nat → UInt8)
    (buf : List UInt8) (room : buf.length ≤ (b.addCapacity fill buf.length).capacity - b.pos) :
    ∃ t, ByteArray.write fill buf b = .ok () t ∧ Rep base t ∧
      Typed.write buf b.stream = .ok () t.stream := by
  obtain ⟨t, returned, rep', same⟩ := write_spec positive rep fill buf room
  have setting := write_endian (b := b) fill buf
  rw [returned] at setting
  refine ⟨t, returned, rep', ?_⟩
  rw [stream_eq same setting]
  rfl

theorem read_stream {n : Nat} (positive : 1 ≤ base) (rep : Rep base b) (some_bytes : 1 ≤ n) :
    (∃ t, ByteArray.read n b = .ok (b.flat.peek n) t ∧ Rep base t ∧
      Typed.read n b.stream = .ok (b.flat.peek n) t.stream) ∨
    ∃ f, ByteArray.read n b = .error f b ∧ Typed.read n b.stream = .error (.fault f) b.stream := by
  have left : b.stream.getReadSize = b.size - b.pos := by
    rw [Stream.getReadSize, stream, rep.length_contents]
    rfl
  by_cases enough : n ≤ b.size - b.pos
  · obtain ⟨t, returned, rep', same⟩ := read_spec positive rep some_bytes enough
    have setting := read_endian (b := b) n
    rw [returned] at setting
    refine .inl ⟨t, returned, rep', ?_⟩
    rw [Typed.read, left, if_neg (by omega), stream_eq same setting]
    rfl
  · refine .inr ⟨.outOfRange "not enough len", ?_, ?_⟩
    · rw [ByteArray.read, if_pos (by rw [getReadSize]; omega)]
    · rw [Typed.read, left, if_pos (by omega)]

theorem position_stream (positive : 1 ≤ base) (rep : Rep base b) :
    ∃ t, position 0 b = .ok () t ∧ Rep base t ∧ Typed.rewind b.stream = .ok () t.stream := by
  obtain ⟨t, gap, returned, rep', length, same⟩ := position_spec positive rep (Nat.zero_le b.capacity)
  have setting := position_endian (b := b) 0
  rw [returned] at setting
  obtain rfl : gap = [] := List.eq_nil_of_length_eq_zero (by rw [length, Nat.zero_sub])
  refine ⟨t, returned, rep', ?_⟩
  rw [stream_eq same setting]
  rfl

end Chain

/-- The loop of `read_uint32` and `read_uint64` from the shift `i`, over any reader of bytes. Each round adds 7 to the
shift, so `w` rounds are enough to reach `w`. -/
def readGroups {m : Type → Type} [Monad m] (readByte : m (BitVec 8)) {w : Nat} :
    (rounds i : Nat) → (res : BitVec w) → m (BitVec w)
  | 0, _, res => return res
  | rounds + 1, i, res =>
    if i < w then do
      let b ← readByte
      if b < 0x80#8 then return res ||| (b.setWidth w <<< i)
      else readGroups readByte rounds (i + 7) (res ||| ((b.setWidth w &&& 0x7f#w) <<< i))
    else return res

namespace Typed

/-! ### Fixed width -/

/-- The bytes of a variable of `n` bytes in the host's memory. -/
def memoryOf {n : Nat} (val : BitVec (8 * n)) : List UInt8 := octets n val.toNat

/-- The variable of `n` bytes that `buf` was copied into. -/
def ofMemory (n : Nat) (buf : List UInt8) : BitVec (8 * n) := BitVec.ofNat _ (ofOctets buf)

/-- `byteswap`, at every width. -/
def byteswap {n : Nat} (val : BitVec (8 * n)) : BitVec (8 * n) := ofMemory n (memoryOf val).reverse

section Order

variable (order : Endian)

def writeFixed (n : Nat) (val : BitVec (8 * n)) : Typed Unit := do
  let s ← get
  write (memoryOf (if s.endian ≠ order then byteswap val else val))

def readFixed (n : Nat) : Typed (BitVec (8 * n)) := do
  let val := ofMemory n (← read n)
  let s ← get
  return if s.endian = order then val else byteswap val

/-- One byte is written as it is, whatever the setting. -/
def writeFint8 (val : BitVec 8) : Typed Unit := write (memoryOf (n := 1) val)
def writeFuint8 (val : BitVec 8) : Typed Unit := write (memoryOf (n := 1) val)
def writeFint16 (val : BitVec 16) : Typed Unit := writeFixed order 2 val
def writeFuint16 (val : BitVec 16) : Typed Unit := writeFixed order 2 val
def writeFint32 (val : BitVec 32) : Typed Unit := writeFixed order 4 val
def writeFuint32 (val : BitVec 32) : Typed Unit := writeFixed order 4 val
def writeFint64 (val : BitVec 64) : Typed Unit := writeFixed order 8 val
def writeFuint64 (val : BitVec 64) : Typed Unit := writeFixed order 8 val

def readFint8 : Typed (BitVec 8) := return ofMemory 1 (← read 1)
def readFuint8 : Typed (BitVec 8) := return ofMemory 1 (← read 1)
def readFint16 : Typed (BitVec 16) := readFixed order 2
def readFuint16 : Typed (BitVec 16) := readFixed order 2
def readFint32 : Typed (BitVec 32) := readFixed order 4
def readFuint32 : Typed (BitVec 32) := readFixed order 4
def readFint64 : Typed (BitVec 64) := readFixed order 8
def readFuint64 : Typed (BitVec 64) := readFixed order 8

/-! ### Variable length -/

/-- `EncodeZigzap32` and `EncodeZigzap64`. -/
def encodeZigzap {w : Nat} (val : BitVec w) : BitVec w :=
  if val.slt 0 then -val * 2#w - 1#w else val * 2#w

/-- `DecodeZigzap32` and `DecodeZigzap64`. -/
def decodeZigzap {w : Nat} (val : BitVec w) : BitVec w := (val >>> 1) ^^^ -(val &&& 1#w)

/-- The loop of `write_uint32` and `write_uint64` with `room` bytes of `temp` left. It gives the
bytes stored, or nothing when it stores past the end. -/
def groups {w : Nat} : (room : Nat) → BitVec w → Option (List UInt8)
  | 0, _ => none
  | room + 1, val =>
    if val ≥ 0x80#w then
      (groups room (val >>> 7)).map (UInt8.ofBitVec (((val &&& 0x7f#w) ||| 0x80#w).setWidth 8) :: ·)
    else some [UInt8.ofBitVec (val.setWidth 8)]

def writeVarint {w : Nat} (room : Nat) (val : BitVec w) : Typed Unit :=
  match groups room val with
  | none => throw .overrun
  | some temp => write temp

def readVarint (w : Nat) : Typed (BitVec w) := readGroups readFuint8 w 0 0#w

def writeUint32 (val : BitVec 32) : Typed Unit := writeVarint 5 val
def writeUint64 (val : BitVec 64) : Typed Unit := writeVarint 10 val
def writeInt32 (val : BitVec 32) : Typed Unit := writeUint32 (encodeZigzap val)
def writeInt64 (val : BitVec 64) : Typed Unit := writeUint64 (encodeZigzap val)

def readUint32 : Typed (BitVec 32) := readVarint 32
def readUint64 : Typed (BitVec 64) := readVarint 64
def readInt32 : Typed (BitVec 32) := return decodeZigzap (← readUint32)
def readInt64 : Typed (BitVec 64) := return decodeZigzap (← readUint64)

/-! ### Floating point and strings -/

def writeFloat (bits : BitVec 32) : Typed Unit := writeFuint32 order bits
def writeDouble (bits : BitVec 64) : Typed Unit := writeFuint64 order bits
def readFloat : Typed (BitVec 32) := readFuint32 order
def readDouble : Typed (BitVec 64) := readFuint64 order

/-- The length goes out as a signed integer, truncated to its width. -/
def writeStringF16 (val : List UInt8) : Typed Unit := do
  writeFint16 order (BitVec.ofNat 16 val.length)
  write val

def writeStringF32 (val : List UInt8) : Typed Unit := do
  writeFint32 order (BitVec.ofNat 32 val.length)
  write val

def writeStringF64 (val : List UInt8) : Typed Unit := do
  writeFint64 order (BitVec.ofNat 64 val.length)
  write val

/-- The length goes out as a varint. -/
def writeStringVint (val : List UInt8) : Typed Unit := do
  writeUint64 (BitVec.ofNat 64 val.length)
  write val

/-- The length comes back as an unsigned integer. -/
def readStringF16 : Typed (List UInt8) := do
  let len ← readFuint16 order
  read len.toNat

def readStringF32 : Typed (List UInt8) := do
  let len ← readFuint32 order
  read len.toNat

def readStringF64 : Typed (List UInt8) := do
  let len ← readFuint64 order
  read len.toNat

/-- The length is read as eight bytes, not as the varint that was written. -/
def readStringVint : Typed (List UInt8) := do
  let len ← readFuint64 order
  read len.toNat

end Order

end Typed

/-! ### Lists of typed values -/

/-- The pairs of a `write_*` and its `read_*`. -/
inductive Kind where
  | fint8 | fuint8 | fint16 | fuint16 | fint32 | fuint32 | fint64 | fuint64
  | int32 | uint32 | int64 | uint64
  | float | double
  | stringF16 | stringF32 | stringF64
  deriving DecidableEq, Repr

namespace Kind

abbrev Carrier : Kind → Type
  | fint8 | fuint8 => BitVec 8
  | fint16 | fuint16 => BitVec 16
  | fint32 | fuint32 | int32 | uint32 | float => BitVec 32
  | fint64 | fuint64 | int64 | uint64 | double => BitVec 64
  | stringF16 | stringF32 | stringF64 => List UInt8

/-- The strings whose length the prefix can hold. Every `size_t` fits the prefix of `f64`. -/
def Fits : (k : Kind) → k.Carrier → Prop
  | stringF16, val => val.length < 2 ^ 16
  | stringF32, val => val.length < 2 ^ 32
  | stringF64, val => val.length < 2 ^ 64
  | _, _ => True

def write (order : Endian) : (k : Kind) → k.Carrier → Typed Unit
  | fint8, val => Typed.writeFint8 val
  | fuint8, val => Typed.writeFuint8 val
  | fint16, val => Typed.writeFint16 order val
  | fuint16, val => Typed.writeFuint16 order val
  | fint32, val => Typed.writeFint32 order val
  | fuint32, val => Typed.writeFuint32 order val
  | fint64, val => Typed.writeFint64 order val
  | fuint64, val => Typed.writeFuint64 order val
  | int32, val => Typed.writeInt32 val
  | uint32, val => Typed.writeUint32 val
  | int64, val => Typed.writeInt64 val
  | uint64, val => Typed.writeUint64 val
  | float, val => Typed.writeFloat order val
  | double, val => Typed.writeDouble order val
  | stringF16, val => Typed.writeStringF16 order val
  | stringF32, val => Typed.writeStringF32 order val
  | stringF64, val => Typed.writeStringF64 order val

def read (order : Endian) : (k : Kind) → Typed k.Carrier
  | fint8 => Typed.readFint8
  | fuint8 => Typed.readFuint8
  | fint16 => Typed.readFint16 order
  | fuint16 => Typed.readFuint16 order
  | fint32 => Typed.readFint32 order
  | fuint32 => Typed.readFuint32 order
  | fint64 => Typed.readFint64 order
  | fuint64 => Typed.readFuint64 order
  | int32 => Typed.readInt32
  | uint32 => Typed.readUint32
  | int64 => Typed.readInt64
  | uint64 => Typed.readUint64
  | float => Typed.readFloat order
  | double => Typed.readDouble order
  | stringF16 => Typed.readStringF16 order
  | stringF32 => Typed.readStringF32 order
  | stringF64 => Typed.readStringF64 order

end Kind

/-- A value, the functions it goes through, and the argument of the `setIsLittleEndian` before
each of them. -/
structure Item where
  little : Bool
  kind : Kind
  val : kind.Carrier
  fits : kind.Fits val

namespace Item

/-- What a reader has to know of it. -/
def call (item : Item) : Bool × Kind := (item.little, item.kind)

def value (item : Item) : Sigma Kind.Carrier := ⟨item.kind, item.val⟩

end Item

namespace Typed

variable (order : Endian)

def writeAll : List Item → Typed Unit
  | [] => return
  | item :: rest => do
    setIsLittleEndian item.little
    item.kind.write order item.val
    writeAll rest

def readAll : List (Bool × Kind) → Typed (List (Sigma Kind.Carrier))
  | [] => return []
  | (little, kind) :: rest => do
    setIsLittleEndian little
    let val ← kind.read order
    return ⟨kind, val⟩ :: (← readAll rest)

end Typed

end Cool.ByteArray
