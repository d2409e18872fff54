import Cool.ByteArray.Capacity
import Cool.ByteArray.RoundTrip
import Cool.Foundation.Results

/-!
# Typed reads on the chain

The same functions over the chain itself, where two things show that the flat buffer hides: a `read` of no
bytes needs a current node, and a string is resized to the length that was read before the bytes are.
`allocates` tells which lengths `std::string::resize` has memory for.
-/

namespace Cool.ByteArray

open Foundation

/-- What a typed call can end in: a fault of the raw call, or the `length_error` or `bad_alloc` of `resize`. -/
inductive Stop where
  | fault (f : Fault)
  | resize
  deriving DecidableEq, Repr

abbrev Direct (α : Type) := EStateM Stop ByteArray α

namespace Direct

def raw {α : Type} (act : Action α) : Direct α := fun b =>
  match act b with
  | .ok v t => .ok v t
  | .error f t => .error (.fault f) t

section Order

variable (order : Endian)

def readFixed (n : Nat) : Direct (BitVec (8 * n)) := do
  let val := Typed.ofMemory n (← raw (ByteArray.read n))
  let b ← get
  return if b.endian = order then val else Typed.byteswap val

def readFint8 : Direct (BitVec 8) := return Typed.ofMemory 1 (← raw (ByteArray.read 1))
def readFuint8 : Direct (BitVec 8) := return Typed.ofMemory 1 (← raw (ByteArray.read 1))
def readFint16 : Direct (BitVec 16) := readFixed order 2
def readFuint16 : Direct (BitVec 16) := readFixed order 2
def readFint32 : Direct (BitVec 32) := readFixed order 4
def readFuint32 : Direct (BitVec 32) := readFixed order 4
def readFint64 : Direct (BitVec 64) := readFixed order 8
def readFuint64 : Direct (BitVec 64) := readFixed order 8

def readVarint (w : Nat) : Direct (BitVec w) := readGroups readFuint8 w 0 0#w

def readUint32 : Direct (BitVec 32) := readVarint 32
def readUint64 : Direct (BitVec 64) := readVarint 64
def readInt32 : Direct (BitVec 32) := return Typed.decodeZigzap (← readUint32)
def readInt64 : Direct (BitVec 64) := return Typed.decodeZigzap (← readUint64)
def readFloat : Direct (BitVec 32) := readFuint32 order
def readDouble : Direct (BitVec 64) := readFuint64 order

variable (allocates : Nat → Bool)

/-- `buf.resize(len)` comes before the bytes are known to be there. -/
def readString (n : Nat) : Direct (List UInt8) := do
  let len ← readFixed order n
  if allocates len.toNat then raw (ByteArray.read len.toNat) else throw .resize

def readStringF16 : Direct (List UInt8) := readString order allocates 2
def readStringF32 : Direct (List UInt8) := readString order allocates 4
def readStringF64 : Direct (List UInt8) := readString order allocates 8

def ofKind : (k : Kind) → Direct k.Carrier
  | .fint8 => readFint8
  | .fuint8 => readFuint8
  | .fint16 => readFint16 order
  | .fuint16 => readFuint16 order
  | .fint32 => readFint32 order
  | .fuint32 => readFuint32 order
  | .fint64 => readFint64 order
  | .fuint64 => readFuint64 order
  | .int32 => readInt32
  | .uint32 => readUint32
  | .int64 => readInt64
  | .uint64 => readUint64
  | .float => readFloat order
  | .double => readDouble order
  | .stringF16 => readStringF16 order allocates
  | .stringF32 => readStringF32 order allocates
  | .stringF64 => readStringF64 order allocates

end Order

/-! ### The chain follows the flat buffer -/

/-- `act` does to the chain what `spec` does to its flat buffer, and no node is added. -/
def Follows {α : Type} (base : Nat) (act : Direct α) (spec : Typed α) : Prop :=
  ∀ b, Rep base b →
    (∃ v t, act b = .ok v t ∧ Rep base t ∧ t.capacity = b.capacity ∧ spec b.stream = .ok v t.stream) ∨
    ∃ f t, act b = .error (.fault f) t ∧ f ≠ .nullNode ∧ Rep base t ∧ t.capacity = b.capacity ∧
      spec b.stream = .error (.fault f) t.stream

variable {α β : Type} {base n : Nat}

theorem read_capacity (n : Nat) (b : ByteArray) : (after (ByteArray.read n b)).capacity = b.capacity := by
  unfold ByteArray.read
  split
  · rfl
  · split <;> rfl

theorem raw_follows (positive : 1 ≤ base) (some_bytes : 1 ≤ n) :
    Follows base (raw (ByteArray.read n)) (Typed.read n) := by
  intro b rep
  have capacity := read_capacity n b
  rcases read_stream positive rep some_bytes with ⟨t, returned, rep', same⟩ | ⟨f, thrown, same⟩
  · rw [returned] at capacity
    exact .inl ⟨_, t, by rw [raw, returned], rep', capacity, same⟩
  · refine .inr ⟨f, b, by rw [raw, thrown], ?_, rep, rfl, same⟩
    rintro rfl
    rw [Typed.read] at same
    split at same <;> cases same

theorem pure_follows (v : α) : Follows base (pure v) (pure v) :=
  fun b rep => .inl ⟨v, b, rfl, rep, rfl, rfl⟩

theorem Follows.bind {act : Direct α} {spec : Typed α} {f : α → Direct β} {g : α → Typed β}
    (first : Follows base act spec) (next : ∀ v, Follows base (f v) (g v)) :
    Follows base (act >>= f) (spec >>= g) := by
  intro b rep
  rcases first b rep with ⟨v, t, returned, rep', kept, same⟩ | ⟨fault, t, thrown, safe, rep', kept, same⟩
  · have run' : (spec >>= g) b.stream = g v t.stream := by
      show EStateM.bind spec g b.stream = _
      rw [EStateM.bind, same]
    rw [bind_returned returned, run', ← kept]
    exact next v t rep'
  · refine .inr ⟨fault, t, ?_, safe, rep', kept, ?_⟩
    · show EStateM.bind act f b = _
      rw [EStateM.bind, thrown]
    · show EStateM.bind spec g b.stream = _
      rw [EStateM.bind, same]

theorem setting_follows (f : Endian → α) :
    Follows base (get >>= fun b => pure (f b.endian)) (get >>= fun s => pure (f s.endian)) :=
  fun b rep => .inl ⟨f b.endian, b, rfl, rep, rfl, rfl⟩

theorem readFixed_follows (order : Endian) (positive : 1 ≤ base) (some_bytes : 1 ≤ n) :
    Follows base (readFixed order n) (Typed.readFixed order n) :=
  (raw_follows positive some_bytes).bind fun buf =>
    setting_follows fun e => if e = order then Typed.ofMemory n buf else Typed.byteswap (Typed.ofMemory n buf)

theorem readFuint8_follows (positive : 1 ≤ base) : Follows base readFuint8 Typed.readFuint8 :=
  (raw_follows positive (Nat.le_refl 1)).bind fun _ => pure_follows _

theorem readGroups_follows (positive : 1 ≤ base) {w : Nat} (rounds i : Nat) (res : BitVec w) :
    Follows base (readGroups readFuint8 rounds i res) (readGroups Typed.readFuint8 rounds i res) := by
  induction rounds generalizing i res with
  | zero => exact pure_follows res
  | succ rounds ih =>
    rw [readGroups, readGroups]
    split
    · refine (readFuint8_follows positive).bind fun c => ?_
      split
      · exact pure_follows _
      · exact ih _ _
    · exact pure_follows res

end Direct

end Cool.ByteArray
