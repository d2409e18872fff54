import Cool.Foundation.Blocks

/-!
# `ByteArray`

A growable byte buffer kept as a chain of nodes of `baseSize` bytes, with a cursor kept twice: as
the number `pos` and as the node `cur` it lies in. The chain from `m_root` is the list `nodes`; a
node pointer is an index into it, and `none` is `nullptr`.
-/

namespace Cool

open Foundation (overwrite)

namespace ByteArray

/-- One node of the chain. `ptr` holds the `size` bytes allocated for it. -/
structure Node where
  size : Nat
  ptr : List UInt8
  alloc : ptr.length = size

/-- `new Node(s)`. `new char[s]` leaves the bytes as they were, so `fill` is arbitrary. -/
def Node.new (s : Nat) (fill : Nat → UInt8) : Node where
  size := s
  ptr := (List.range s).map fill
  alloc := by simp

/-- `memcpy(node->ptr + off, buf, size)`. -/
def Node.store (node : Node) (off : Nat) (buf : List UInt8) : Node where
  size := node.size
  ptr := overwrite node.ptr off buf
  alloc := by simp [node.alloc]

/-- `memcpy(buf, node->ptr + off, size)`. -/
def Node.load (node : Node) (off size : Nat) : List UInt8 := (node.ptr.drop off).take size

inductive Endian where
  | little | big
  deriving DecidableEq, Repr

/-- What a call can end in instead of returning: an exception, or a dereference of `nullptr`. -/
inductive Fault where
  | outOfRange (what : String)
  | nullNode
  deriving DecidableEq, Repr

end ByteArray

structure ByteArray where
  baseSize : Nat
  pos : Nat
  capacity : Nat
  size : Nat
  endian : ByteArray.Endian
  nodes : List ByteArray.Node
  cur : Option Nat

namespace ByteArray

/-- A member function: it returns, or ends in a fault, and either way leaves a state behind. -/
abbrev Action (α : Type) := EStateM Fault ByteArray α

def new (baseSize : Nat) (fill : Nat → UInt8) : ByteArray where
  baseSize := baseSize
  pos := 0
  capacity := baseSize
  size := 0
  endian := .big
  nodes := [Node.new baseSize fill]
  cur := some 0

def getReadSize (b : ByteArray) : Nat := b.size - b.pos

def getCapacity (b : ByteArray) : Nat := b.capacity - b.pos

/-- The node with index `i`, or `nullptr` past the end of the chain. -/
def nodeAt (nodes : List Node) (i : Nat) : Option Nat := if i < nodes.length then some i else none

/-- `addCapacity(size)`. `fill i` is what the `i`th new node's memory holds. -/
def addCapacity (fill : Nat → Nat → UInt8) (size : Nat) (b : ByteArray) : ByteArray :=
  if size = 0 then b
  else
    let oldCap := b.getCapacity
    if oldCap ≥ size then b
    else
      let size := size - oldCap
      let count := size / b.baseSize + (if size % b.baseSize > oldCap then 1 else 0)
      let added := (List.range count).map fun i => Node.new b.baseSize (fill i)
      { b with
        nodes := b.nodes ++ added
        capacity := b.capacity + count * b.baseSize
        -- `first` is the first new node, and stays `nullptr` when none was made.
        cur := if oldCap = 0 then nodeAt (b.nodes ++ added) b.nodes.length else b.cur }

/-- A stretch inside one node, as an `iovec` describes it. -/
structure Piece where
  node : Nat
  off : Nat
  len : Nat
  deriving DecidableEq, Repr

/-- The loop of `write`, `getWriteBuffers` and both `read`s and `getReadBuffers`: from offset `npos` of
the node with index `i`, whose chain is the first argument, over `size` bytes. It gives the stretches
visited and the index of the node it ends on, or nothing when it steps onto `nullptr`. -/
def walk : List Node → Nat → Nat → Nat → Option (List Piece × Nat)
  | _, i, _, 0 => some ([], i)
  | [], _, _, _ + 1 => none
  | node :: rest, i, npos, size + 1 =>
    let ncap := node.size - npos
    if ncap ≥ size + 1 then
      some ([⟨i, npos, size + 1⟩], if node.size = npos + (size + 1) then i + 1 else i)
    else
      (walk rest (i + 1) 0 (size + 1 - ncap)).map fun (pieces, last) =>
        (⟨i, npos, ncap⟩ :: pieces, last)

/-- The walk over `size` bytes from the cursor. `m_cur->size` is read before the loop starts. -/
def walkCur (b : ByteArray) (size : Nat) : Option (List Piece × Nat) :=
  match b.cur with
  | none => none
  | some i => walk (b.nodes.drop i) i (b.pos % b.baseSize) size

/-- The `memcpy`s of `write`: `buf` spread over the stretches in order. -/
def storePieces : List Node → List Piece → List UInt8 → List Node
  | nodes, [], _ => nodes
  | nodes, p :: ps, buf =>
    storePieces (nodes.modify p.node (·.store p.off (buf.take p.len))) ps (buf.drop p.len)

def loadPieces (nodes : List Node) (pieces : List Piece) : List UInt8 :=
  pieces.flatMap fun p => (nodes[p.node]?).elim [] (·.load p.off p.len)

def write (fill : Nat → Nat → UInt8) (buf : List UInt8) : Action Unit := fun b =>
  if buf.length = 0 then .ok () b
  else
    let b := b.addCapacity fill buf.length
    match b.walkCur buf.length with
    | none => .error .nullNode b
    | some (pieces, last) =>
      let pos := b.pos + buf.length
      .ok () { b with
        nodes := storePieces b.nodes pieces buf
        cur := nodeAt b.nodes last
        pos := pos
        size := if pos > b.size then pos else b.size }

/-- `read(buf, size)`, giving the bytes stored in `buf`. -/
def read (size : Nat) : Action (List UInt8) := fun b =>
  if size > b.getReadSize then .error (.outOfRange "not enough len") b
  else
    match b.walkCur size with
    | none => .error .nullNode b
    | some (pieces, last) =>
      .ok (loadPieces b.nodes pieces)
        { b with cur := nodeAt b.nodes last, pos := b.pos + size }

/-- `read(buf, size, pos) const`: the walk starts at offset `pos % m_base_size` of `m_cur`. -/
def readAt (size pos : Nat) : Action (List UInt8) := fun b =>
  if size > b.getReadSize then .error (.outOfRange "not enough len") b
  else
    match b.cur with
    | none => .error .nullNode b
    | some i =>
      match walk (b.nodes.drop i) i (pos % b.baseSize) size with
      | none => .error .nullNode b
      | some (pieces, _) => .ok (loadPieces b.nodes pieces) b

def toString : Action (List UInt8) := fun b =>
  if b.getReadSize = 0 then .ok [] b else readAt b.getReadSize b.pos b

/-- `getReadBuffers(buffers, len)`, giving what it returns and the `iovec`s pushed to `buffers`. -/
def getReadBuffers (len : Nat) : Action (Nat × List Piece) := fun b =>
  let len := if len > b.getReadSize then b.getReadSize else len
  if len = 0 then .ok (0, []) b
  else
    match b.walkCur len with
    | none => .error .nullNode b
    | some (pieces, _) => .ok (len, pieces) b

/-- `getReadBuffers(buffers, len, pos)`: the walk starts from `m_root`. -/
def getReadBuffersAt (len pos : Nat) : Action (Nat × List Piece) := fun b =>
  let len := if len > b.getReadSize then b.getReadSize else len
  if len = 0 then .ok (0, []) b
  else
    match nodeAt b.nodes (pos / b.baseSize) with
    | none => .error .nullNode b
    | some i =>
      match walk (b.nodes.drop i) i (pos % b.baseSize) len with
      | none => .error .nullNode b
      | some (pieces, _) => .ok (len, pieces) b

/-- The loop of `position`: `m_cur` moves on from the node with index `i` while `val` lies past
it. -/
def seek : List Node → Nat → Nat → Option Nat
  | [], _, _ => none
  | node :: rest, i, val =>
    if val > node.size then seek rest (i + 1) (val - node.size)
    else if val = node.size then some (i + 1)
    else some i

def position (val : Nat) : Action Unit := fun b =>
  if val > b.capacity then .error (.outOfRange "set pos out of range") b
  else
    let b := { b with pos := val, size := if val > b.size then val else b.size }
    match seek b.nodes 0 val with
    | none => .error .nullNode b
    | some i => .ok () { b with cur := nodeAt b.nodes i }

/-- `clear()`: every node but the root is deleted. -/
def clear : Action Unit := fun b =>
  .ok () { b with
    pos := 0, size := 0, capacity := b.baseSize, nodes := b.nodes.take 1, cur := some 0 }

/-- `getWriteBuffers(buffers, len)`, giving the `iovec`s pushed to `buffers`. -/
def getWriteBuffers (fill : Nat → Nat → UInt8) (len : Nat) : Action (List Piece) := fun b =>
  if len = 0 then .ok [] b
  else
    let b := b.addCapacity fill len
    match b.walkCur len with
    | none => .error .nullNode b
    | some (pieces, _) => .ok pieces b

end ByteArray

end Cool
