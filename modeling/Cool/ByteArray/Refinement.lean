import Cool.ByteArray.Chain
import Cool.Foundation.Run

/-!
# `ByteArray` refines a flat buffer

The representation invariant `Rep` ties the two forms of the cursor together and holds after every
operation; under it every operation does to the flat buffer `flat` what its name says.
-/

namespace Cool.ByteArray

open Foundation

/-- A flat buffer: its contents and a cursor into them. -/
structure Flat where
  contents : List UInt8
  pos : Nat

namespace Flat

/-- Overwrite at the cursor, extending the contents where `buf` reaches past them. -/
def write (f : Flat) (buf : List UInt8) : Flat :=
  ⟨f.contents.take f.pos ++ buf ++ f.contents.drop (f.pos + buf.length), f.pos + buf.length⟩

def peek (f : Flat) (n : Nat) : List UInt8 := (f.contents.drop f.pos).take n

def advance (f : Flat) (n : Nat) : Flat := ⟨f.contents, f.pos + n⟩

/-- Move the cursor to `v`; contents that have to reach `v` are extended by `gap`. -/
def seek (f : Flat) (v : Nat) (gap : List UInt8) : Flat := ⟨f.contents ++ gap, v⟩

end Flat

theorem Flat.write_write (f : Flat) (inside : f.pos ≤ f.contents.length) (xs ys : List UInt8) :
    (f.write xs).write ys = f.write (xs ++ ys) := by
  have front : (f.contents.take f.pos ++ xs).length = f.pos + xs.length := by
    rw [List.length_append, List.length_take]
    omega
  simp only [write, List.length_append, Flat.mk.injEq]
  refine ⟨?_, by omega⟩
  rw [← front, List.take_left, List.drop_append, List.drop_of_length_le (Nat.le_add_right ..), List.nil_append,
    Nat.add_sub_cancel_left, List.drop_drop, front, List.append_assoc _ xs ys, Nat.add_assoc]

theorem Flat.write_outside (f : Flat) (inside : f.pos ≤ f.contents.length) (buf : List UInt8) {i : Nat}
    (outside : i < f.pos ∨ f.pos + buf.length ≤ i) :
    (f.write buf).contents[i]? = f.contents[i]? := by
  have front : (f.contents.take f.pos).length = f.pos := by rw [List.length_take]; omega
  rw [write, List.append_assoc]
  rcases outside with before | behind
  · rw [List.getElem?_append_left (by omega), List.getElem?_take, if_pos before]
  · rw [List.getElem?_append_right (by omega), front, List.getElem?_append_right (by omega), List.getElem?_drop]
    congr 1
    omega

/-- The flat buffer a `ByteArray` stands for. -/
def flat (b : ByteArray) : Flat := ⟨(memory b.nodes).take b.size, b.pos⟩

/-- The representation invariant. -/
structure Rep (base : Nat) (b : ByteArray) : Prop where
  base_eq : b.baseSize = base
  nonempty : 1 ≤ b.nodes.length
  sized : Sized base b.nodes
  capacity_eq : b.capacity = b.nodes.length * base
  pos_le : b.pos ≤ b.size
  size_le : b.size ≤ b.capacity
  cur_eq : b.cur = if b.pos = b.capacity then none else some (b.pos / base)

/-- Contents, size, position and current node are the same. -/
structure Alike (t u : ByteArray) : Prop where
  contents : t.flat.contents = u.flat.contents
  size : t.size = u.size
  pos : t.pos = u.pos
  cur : t.cur = u.cur

inductive Op where
  | write (fill : Nat → Nat → UInt8) (buf : List UInt8)
  | read (n : Nat)
  | position (v : Nat)
  | clear
  | getWriteBuffers (fill : Nat → Nat → UInt8) (n : Nat)

def after {α : Type} : EStateM.Result Fault ByteArray α → ByteArray
  | .ok _ b => b
  | .error _ b => b

def Op.exec (b : ByteArray) : Op → ByteArray
  | .write fill buf => after (ByteArray.write fill buf b)
  | .read n => after (ByteArray.read n b)
  | .position v => after (ByteArray.position v b)
  | .clear => after (ByteArray.clear b)
  | .getWriteBuffers fill n => after (ByteArray.getWriteBuffers fill n b)

/-- The calls considered: a read asks for at least one byte, and a write finds, or obtains from
`addCapacity`, room for what it stores. -/
def Admissible (b : ByteArray) : Op → Prop
  | .write fill buf => buf.length ≤ (b.addCapacity fill buf.length).capacity - b.pos
  | .read n => 1 ≤ n
  | .getWriteBuffers fill n => n ≤ (b.addCapacity fill n).capacity - b.pos
  | .position _ | .clear => True

def Step (b : ByteArray) (op : Op) (b' : ByteArray) : Prop := Admissible b op ∧ op.exec b = b'

/-- What a call does to the flat buffer, and when it throws. -/
def Simulates (b : ByteArray) : Op → Prop
  | .write fill buf => ∃ t, write fill buf b = .ok () t ∧ t.flat = b.flat.write buf
  | .read n =>
    (b.size - b.pos < n ∧ read n b = .error (.outOfRange "not enough len") b) ∨
    (n ≤ b.size - b.pos ∧ ∃ t, read n b = .ok (b.flat.peek n) t ∧ t.flat = b.flat.advance n)
  | .position v =>
    (b.capacity < v ∧ position v b = .error (.outOfRange "set pos out of range") b) ∨
    (v ≤ b.capacity ∧ ∃ t gap, position v b = .ok () t ∧ gap.length = v - b.size ∧
      t.flat = b.flat.seek v gap)
  | .clear => ∃ t, clear b = .ok () t ∧ t.flat = ⟨[], 0⟩
  | .getWriteBuffers fill n => ∃ pieces t, getWriteBuffers fill n b = .ok pieces t ∧
      (pieces.map Piece.len).sum = n ∧ t.flat = b.flat

variable {base : Nat} {b : ByteArray}

theorem new_rep (positive : 1 ≤ base) (fill : Nat → UInt8) : Rep base (new base fill) where
  base_eq := rfl
  nonempty := by simp [new]
  sized := by intro node member; obtain rfl := List.mem_singleton.mp member; rfl
  capacity_eq := by simp [new]
  pos_le := Nat.le_refl _
  size_le := Nat.zero_le _
  cur_eq := by simp [new]; omega

theorem Rep.length_memory (rep : Rep base b) : (memory b.nodes).length = b.capacity := by
  rw [rep.sized.length_memory, rep.capacity_eq]

theorem Rep.length_contents (rep : Rep base b) : b.flat.contents.length = b.size := by
  rw [flat, List.length_take, rep.length_memory, Nat.min_eq_left rep.size_le]

theorem Rep.pos_le_contents (rep : Rep base b) : b.flat.pos ≤ b.flat.contents.length := by
  rw [rep.length_contents]
  exact rep.pos_le

theorem nodeAt_div {pos : Nat} {nodes : List Node} (positive : 1 ≤ base) :
    nodeAt nodes (pos / base) = if nodes.length * base ≤ pos then none else some (pos / base) := by
  rw [nodeAt]
  by_cases past : nodes.length * base ≤ pos
  · rw [if_pos past, if_neg (by rw [Nat.not_lt]; exact (Nat.le_div_iff_mul_le (by omega)).mpr past)]
  · rw [if_neg past, if_pos ((Nat.div_lt_iff_lt_mul (by omega)).mpr (by omega))]

/-- Of two representations of one buffer, the current node tells whether the chain ends at the cursor. -/
theorem alike_iff {t u : ByteArray} (rep : Rep base t) (rep' : Rep base u) (same : t.flat = u.flat) :
    Alike t u ↔ (u.pos = u.capacity ↔ t.pos = t.capacity) := by
  have contents : t.flat.contents = u.flat.contents := congrArg Flat.contents same
  have size : t.size = u.size := by rw [← rep.length_contents, ← rep'.length_contents, contents]
  have pos : t.pos = u.pos := congrArg Flat.pos same
  constructor
  · intro alike
    have cur := alike.cur
    rw [rep.cur_eq, rep'.cur_eq] at cur
    by_cases last : t.pos = t.capacity
    · by_cases last' : u.pos = u.capacity
      · exact iff_of_true last' last
      · rw [if_pos last, if_neg last'] at cur
        cases cur
    · by_cases last' : u.pos = u.capacity
      · rw [if_neg last, if_pos last'] at cur
        cases cur
      · exact iff_of_false last' last
  · intro ends
    refine ⟨contents, size, pos, ?_⟩
    rw [rep.cur_eq, rep'.cur_eq, pos]
    rw [pos] at ends
    by_cases last : u.pos = u.capacity
    · rw [if_pos last, if_pos (ends.mp last)]
    · rw [if_neg last, if_neg (fun last' => last (ends.mpr last'))]

/-! ### `addCapacity` -/

theorem sized_added (base count : Nat) (fill : Nat → Nat → UInt8) :
    Sized base ((List.range count).map fun i => Node.new base (fill i)) := by
  intro node member
  obtain ⟨i, _, rfl⟩ := List.mem_map.mp member
  rfl

theorem addCapacity_pos (fill : Nat → Nat → UInt8) (n : Nat) (b : ByteArray) :
    (b.addCapacity fill n).pos = b.pos ∧ (b.addCapacity fill n).size = b.size ∧
      (b.addCapacity fill n).baseSize = b.baseSize := by
  unfold addCapacity
  dsimp only
  split
  · exact ⟨rfl, rfl, rfl⟩
  · split <;> exact ⟨rfl, rfl, rfl⟩

/-- `addCapacity` keeps the invariant, and only adds memory behind the memory there was. -/
theorem addCapacity_rep (positive : 1 ≤ base) (rep : Rep base b) (fill : Nat → Nat → UInt8) (n : Nat) :
    Rep base (b.addCapacity fill n) ∧
      ∃ added, memory (b.addCapacity fill n).nodes = memory b.nodes ++ added := by
  unfold addCapacity
  dsimp only
  split
  · exact ⟨rep, [], by simp⟩
  split
  · exact ⟨rep, [], by simp⟩
  rename_i nonzero short
  rw [rep.base_eq]
  generalize hcount : (n - b.getCapacity) / base +
    (if (n - b.getCapacity) % base > b.getCapacity then 1 else 0) = count
  have length_added : (b.nodes ++ (List.range count).map fun i => Node.new base (fill i)).length =
      b.nodes.length + count := by simp
  refine ⟨⟨rfl, ?_, rep.sized.append (sized_added base count fill), ?_, rep.pos_le, ?_, ?_⟩,
    _, memory_append _⟩
  · have := rep.nonempty
    dsimp only
    omega
  · rw [length_added, rep.capacity_eq, Nat.add_mul]
  · exact Nat.le_trans rep.size_le (Nat.le_add_right _ _)
  · dsimp only
    have le_capacity := Nat.le_trans rep.pos_le rep.size_le
    by_cases full : b.getCapacity = 0
    · -- The cursor was past the last node: it moves to the first new one, and there is one.
      have at_end : b.pos = b.capacity := by rw [getCapacity] at full; omega
      have some_added : 1 ≤ count := by
        rw [full, Nat.sub_zero] at hcount
        by_cases fits : n < base
        · rw [Nat.mod_eq_of_lt fits, if_pos (by omega)] at hcount
          exact Nat.le_trans (Nat.le_add_left 1 _) (Nat.le_of_eq hcount)
        · have := Nat.div_pos (Nat.le_of_not_lt fits) (by omega)
          omega
      have grown : 1 * base ≤ count * base := Nat.mul_le_mul_right base some_added
      rw [if_pos full, nodeAt, if_pos (by omega), if_neg (by omega), at_end, rep.capacity_eq,
        Nat.mul_div_cancel _ (by omega)]
    · have inside : b.pos ≠ b.capacity := by rw [getCapacity] at full; omega
      rw [if_neg full, rep.cur_eq, if_neg inside, if_neg (by omega)]

theorem addCapacity_flat (positive : 1 ≤ base) (rep : Rep base b) (fill : Nat → Nat → UInt8) (n : Nat) :
    (b.addCapacity fill n).flat = b.flat := by
  obtain ⟨same_pos, same_size, _⟩ := addCapacity_pos fill n b
  obtain ⟨_, added, grown⟩ := addCapacity_rep positive rep fill n
  have inside : b.size ≤ (memory b.nodes).length := by rw [rep.length_memory]; exact rep.size_le
  rw [flat, flat, same_pos, same_size, grown, List.take_append_of_le_length inside]

/-! ### The loops from the cursor -/

section Walk

variable {i off n : Nat} (positive : 1 ≤ base) (rep : Rep base b) (bound : i < b.nodes.length) (inside : off < base)

include rep

theorem Rep.length_drop (i : Nat) : (b.nodes.drop i).length * base = b.capacity - i * base := by
  rw [List.length_drop, Nat.sub_mul, rep.capacity_eq]

include bound inside

/-- From offset `off` of the node with index `i`, a walk with room for `n` bytes covers the `n` bytes
there. -/
theorem Rep.walk_covers (room : i * base + off + n ≤ b.capacity) :
    ∃ pieces, walk (b.nodes.drop i) i off n = some (pieces, (i * base + off + n) / base) ∧
      Covers base b.nodes.length (i * base + off) pieces (i * base + off + n) ∧ ∀ p ∈ pieces, 0 < p.len := by
  have left := rep.length_drop i
  have sized : Sized base (b.nodes.drop i) := rep.sized.drop i
  obtain ⟨pieces, walked, covers⟩ := ByteArray.walk_covers (i := i) (n := n) sized inside (by omega)
  refine ⟨pieces, walked, ?_, walk_nonempty sized inside walked⟩
  rwa [List.length_drop, Nat.add_sub_cancel' (Nat.le_of_lt bound)] at covers

theorem Rep.walk_short (some_bytes : 1 ≤ n) (short : b.capacity < i * base + off + n) :
    walk (b.nodes.drop i) i off n = none := by
  have left := rep.length_drop i
  have block : (i + 1) * base ≤ b.nodes.length * base := Nat.mul_le_mul_right base bound
  rw [Nat.succ_mul, ← rep.capacity_eq] at block
  exact ByteArray.walk_short (fun node member => rep.sized node (List.mem_of_mem_drop member)) inside some_bytes
    (by omega)

end Walk

theorem Rep.div_lt {pos : Nat} (positive : 1 ≤ base) (rep : Rep base b) (inside : pos < b.capacity) :
    pos / base < b.nodes.length := by
  rw [Nat.div_lt_iff_lt_mul (by omega), ← rep.capacity_eq]
  exact inside

theorem Rep.walkCur_eq (rep : Rep base b) (n : Nat) (inside : b.pos ≠ b.capacity) :
    b.walkCur n = walk (b.nodes.drop (b.pos / base)) (b.pos / base) (b.pos % base) n := by
  rw [walkCur, rep.cur_eq, if_neg inside, rep.base_eq]

/-- From the cursor, a walk with room for `n` bytes covers `[pos, pos + n)`. -/
theorem walkCur_covers {n : Nat} (positive : 1 ≤ base) (rep : Rep base b) (some_bytes : 1 ≤ n)
    (room : b.pos + n ≤ b.capacity) :
    ∃ pieces, b.walkCur n = some (pieces, (b.pos + n) / base) ∧
      Covers base b.nodes.length b.pos pieces (b.pos + n) ∧ ∀ p ∈ pieces, 0 < p.len := by
  have split : b.pos / base * base + b.pos % base = b.pos := Nat.div_add_mod' _ _
  have walked := rep.walk_covers (n := n) (rep.div_lt positive (by omega : b.pos < b.capacity))
    (Nat.mod_lt b.pos (by omega)) (by omega)
  rwa [split, ← rep.walkCur_eq n (by omega)] at walked

theorem walkCur_short {n : Nat} (positive : 1 ≤ base) (rep : Rep base b) (some_bytes : 1 ≤ n)
    (short : b.capacity < b.pos + n) : b.walkCur n = none := by
  by_cases inside : b.pos = b.capacity
  · rw [walkCur, rep.cur_eq, if_pos inside]
  · have split : b.pos / base * base + b.pos % base = b.pos := Nat.div_add_mod' _ _
    have below : b.pos < b.capacity := Nat.lt_of_le_of_ne (Nat.le_trans rep.pos_le rep.size_le) inside
    rw [rep.walkCur_eq n inside]
    exact rep.walk_short (rep.div_lt positive below) (Nat.mod_lt b.pos (by omega)) some_bytes (by omega)

theorem walkCur_length_le {n k last : Nat} {pieces : List Piece} (positive : 1 ≤ base) (rep : Rep base b)
    (some_bytes : 1 ≤ n) (walked : b.walkCur n = some (pieces, last)) :
    pieces.length ≤ k ↔ b.pos % base + n ≤ k * base := by
  have inside : b.pos ≠ b.capacity := by
    intro last
    rw [walkCur, rep.cur_eq, if_pos last] at walked
    cases walked
  rw [rep.walkCur_eq n inside] at walked
  exact walk_length_le (rep.sized.drop _) (Nat.mod_lt b.pos (by omega)) some_bytes walked

theorem Covers.sum_len {k a z : Nat} {ps : List Piece} (covers : Covers base k a ps z) :
    a + (ps.map Piece.len).sum = z := by
  induction ps generalizing a with
  | nil =>
    obtain rfl : a = z := covers
    simp
  | cons p ps ih =>
    have rest := ih covers.2.2.2
    simp only [List.map_cons, List.sum_cons]
    omega

theorem Rep.cur_at {pos : Nat} (positive : 1 ≤ base) (rep : Rep base b) (inside : pos ≤ b.capacity) :
    nodeAt b.nodes (pos / base) = if pos = b.capacity then none else some (pos / base) := by
  rw [nodeAt_div positive, ← rep.capacity_eq]
  by_cases at_end : pos = b.capacity
  · rw [if_pos at_end, if_pos (by omega)]
  · rw [if_neg at_end, if_neg (by omega)]

/-! ### Each operation -/

/-- Storing at the cursor and moving it behind what was stored is the flat buffer's `write`. -/
theorem Rep.store (positive : 1 ≤ base) (rep : Rep base b) {nodes : List Node} {buf : List UInt8}
    (inside : b.pos + buf.length ≤ b.capacity) (sized : Sized base nodes) (length : nodes.length = b.nodes.length)
    (stored : memory nodes = overwrite (memory b.nodes) b.pos buf) {t : ByteArray}
    (state : t = { b with
      nodes := nodes
      cur := nodeAt b.nodes ((b.pos + buf.length) / base)
      pos := b.pos + buf.length
      size := if b.pos + buf.length > b.size then b.pos + buf.length else b.size }) :
    Rep base t ∧ t.flat = b.flat.write buf := by
  subst state
  constructor
  · exact {
      base_eq := rep.base_eq
      nonempty := by dsimp only; rw [length]; exact rep.nonempty
      sized := sized
      capacity_eq := by dsimp only; rw [length]; exact rep.capacity_eq
      pos_le := by dsimp only; split <;> omega
      size_le := by have := rep.size_le; dsimp only; split <;> omega
      cur_eq := rep.cur_at positive inside }
  · have fits : b.pos + buf.length ≤ (memory b.nodes).length := by rw [rep.length_memory]; exact inside
    have le := rep.pos_le
    simp only [flat, Flat.write, stored, overwrite_eq fits, Flat.mk.injEq, and_true]
    rw [List.take_take, Nat.min_eq_left le, List.drop_take]
    have front : (List.take b.pos (memory b.nodes) ++ buf).length = b.pos + buf.length := by
      simp; omega
    split
    · rename_i extended
      rw [← front, List.take_left, Nat.sub_eq_zero_of_le (by omega), List.take_zero, List.append_nil]
    · rename_i within
      rw [List.take_append, front, List.take_of_length_le (by omega)]

theorem write_spec (positive : 1 ≤ base) (rep : Rep base b) (fill : Nat → Nat → UInt8)
    (buf : List UInt8) (room : buf.length ≤ (b.addCapacity fill buf.length).capacity - b.pos) :
    ∃ t, write fill buf b = .ok () t ∧ Rep base t ∧ t.flat = b.flat.write buf := by
  unfold write
  split
  · rename_i empty
    obtain rfl := List.eq_nil_of_length_eq_zero empty
    exact ⟨b, rfl, rep, by simp [flat, Flat.write]⟩
  rename_i nonempty
  obtain ⟨same_pos, same_size, _⟩ := addCapacity_pos fill buf.length b
  obtain ⟨rep', _⟩ := addCapacity_rep positive rep fill buf.length
  rw [← addCapacity_flat positive rep fill buf.length]
  rw [← same_pos] at room
  generalize b.addCapacity fill buf.length = c at rep' room
  have inside : c.pos + buf.length ≤ c.capacity := by omega
  obtain ⟨pieces, walked, covers, _⟩ := walkCur_covers positive rep' (by omega) inside
  dsimp only
  rw [walked]
  exact ⟨_, rfl, rep'.store positive inside rep'.sized.storePieces (length_storePieces pieces buf)
    (memory_storePieces rep'.sized covers (Nat.le_refl _)) rfl⟩

theorem read_spec {n : Nat} (positive : 1 ≤ base) (rep : Rep base b) (some_bytes : 1 ≤ n)
    (enough : n ≤ b.size - b.pos) :
    ∃ t, read n b = .ok (b.flat.peek n) t ∧ Rep base t ∧ t.flat = b.flat.advance n := by
  have le := rep.pos_le
  have room : b.pos + n ≤ b.capacity := by have := rep.size_le; omega
  obtain ⟨pieces, walked, covers, _⟩ := walkCur_covers positive rep some_bytes room
  have loaded := loadPieces_covers rep.sized covers
  unfold read
  rw [if_neg (by rw [getReadSize]; omega), walked]
  refine ⟨{ b with cur := nodeAt b.nodes ((b.pos + n) / base), pos := b.pos + n }, ?_, ?_, rfl⟩
  · have same : loadPieces b.nodes pieces = b.flat.peek n := by
      rw [loaded, flat, Flat.peek, List.drop_take, List.take_take, Nat.min_eq_left enough,
        Nat.add_sub_cancel_left]
    rw [← same]
  · exact { rep with
      pos_le := by dsimp only; omega
      cur_eq := rep.cur_at positive room }

theorem position_capacity (v : Nat) (b : ByteArray) : (after (position v b)).capacity = b.capacity := by
  unfold position
  dsimp only
  split
  · rfl
  · split <;> rfl

theorem seek_div {nodes : List Node} {i v : Nat} (positive : 1 ≤ base) (sized : Sized base nodes)
    (nonempty : 1 ≤ nodes.length) (inside : v ≤ nodes.length * base) :
    seek nodes i v = some (i + v / base) := by
  induction nodes generalizing i v with
  | nil => simp at nonempty
  | cons node rest ih =>
    have here : node.size = base := sized node List.mem_cons_self
    rw [seek, here]
    by_cases past : v > base
    · rw [List.length_cons, Nat.succ_mul] at inside
      have more : 1 ≤ rest.length := by
        by_contra none_left
        have : rest.length = 0 := by omega
        rw [this, Nat.zero_mul] at inside
        omega
      rw [if_pos past, ih sized.tail more (by omega),
        Nat.div_eq_sub_div (by omega) (Nat.le_of_lt past)]
      congr 1
      omega
    · rw [if_neg past]
      by_cases full : v = base
      · rw [if_pos full, full, Nat.div_self (by omega)]
      · rw [if_neg full, Nat.div_eq_of_lt (by omega), Nat.add_zero]

theorem position_eq {v : Nat} (positive : 1 ≤ base) (rep : Rep base b) (inside : v ≤ b.capacity) :
    position v b = .ok () { b with
      pos := v
      size := if v > b.size then v else b.size
      cur := nodeAt b.nodes (v / base) } := by
  have sought := seek_div (i := 0) (v := v) positive rep.sized rep.nonempty
    (by rw [← rep.capacity_eq]; exact inside)
  unfold position
  rw [if_neg (by omega)]
  dsimp only
  rw [sought, Nat.zero_add]

theorem position_spec {v : Nat} (positive : 1 ≤ base) (rep : Rep base b) (inside : v ≤ b.capacity) :
    ∃ t gap, position v b = .ok () t ∧ Rep base t ∧ gap.length = v - b.size ∧
      t.flat = b.flat.seek v gap := by
  have size_le := rep.size_le
  refine ⟨_, ((memory b.nodes).drop b.size).take (v - b.size), position_eq positive rep inside, ?_, ?_, ?_⟩
  · exact { rep with
      pos_le := by dsimp only; split <;> omega
      size_le := by dsimp only; split <;> omega
      cur_eq := rep.cur_at positive inside }
  · rw [List.length_take, List.length_drop, rep.length_memory]
    omega
  · simp only [flat, Flat.seek, Flat.mk.injEq, and_true]
    split
    · rename_i beyond
      rw [← List.take_add, Nat.add_sub_cancel' (Nat.le_of_lt beyond)]
    · rw [Nat.sub_eq_zero_of_le (by omega), List.take_zero, List.append_nil]

theorem clear_spec (positive : 1 ≤ base) (rep : Rep base b) :
    ∃ t, clear b = .ok () t ∧ Rep base t ∧ t.flat = ⟨[], 0⟩ := by
  have one : (b.nodes.take 1).length = 1 := by
    have := rep.nonempty
    rw [List.length_take]
    omega
  refine ⟨_, rfl, ⟨rep.base_eq, Nat.le_of_eq one.symm, ?_, ?_, Nat.le_refl _, Nat.zero_le _, ?_⟩, ?_⟩
  · exact fun node member => rep.sized node (List.mem_of_mem_take member)
  · rw [one, Nat.one_mul, rep.base_eq]
  · dsimp only
    rw [if_neg (by rw [rep.base_eq]; omega), Nat.zero_div]
  · simp [flat]

theorem getWriteBuffers_spec {n : Nat} (positive : 1 ≤ base) (rep : Rep base b)
    (fill : Nat → Nat → UInt8) (room : n ≤ (b.addCapacity fill n).capacity - b.pos) :
    ∃ pieces t, getWriteBuffers fill n b = .ok pieces t ∧ Rep base t ∧
      (pieces.map Piece.len).sum = n ∧ t.flat = b.flat := by
  unfold getWriteBuffers
  split
  · rename_i zero
    exact ⟨[], b, rfl, rep, zero.symm, rfl⟩
  rename_i nonzero
  obtain ⟨same_pos, _⟩ := addCapacity_pos fill n b
  obtain ⟨rep', _⟩ := addCapacity_rep positive rep fill n
  have same := addCapacity_flat positive rep fill n
  rw [← same_pos] at room
  obtain ⟨pieces, walked, covers, _⟩ := walkCur_covers positive rep' (by omega) (by omega : _ + n ≤ _)
  have total := covers.sum_len
  dsimp only
  rw [walked]
  exact ⟨pieces, _, rfl, rep', by omega, same⟩

/-! ### Every run -/

theorem step_rep (positive : 1 ≤ base) {t : ByteArray} {op : Op} (rep : Rep base b)
    (step : Step b op t) : Rep base t := by
  obtain ⟨admissible, rfl⟩ := step
  cases op with
  | write fill buf =>
    obtain ⟨t, returned, rep', _⟩ := write_spec positive rep fill buf admissible
    rw [Op.exec, returned]
    exact rep'
  | read n =>
    by_cases enough : n ≤ b.size - b.pos
    · obtain ⟨t, returned, rep', _⟩ := read_spec positive rep admissible enough
      rw [Op.exec, returned]
      exact rep'
    · rw [Op.exec, read, if_pos (by rw [getReadSize]; omega)]
      exact rep
  | position v =>
    by_cases inside : v ≤ b.capacity
    · obtain ⟨t, _, returned, rep', _⟩ := position_spec positive rep inside
      rw [Op.exec, returned]
      exact rep'
    · rw [Op.exec, position, if_pos (by omega)]
      exact rep
  | clear =>
    obtain ⟨t, returned, rep', _⟩ := clear_spec positive rep
    rw [Op.exec, returned]
    exact rep'
  | getWriteBuffers fill n =>
    obtain ⟨_, t, returned, rep', _⟩ := getWriteBuffers_spec positive rep fill admissible
    rw [Op.exec, returned]
    exact rep'

theorem rep_simulates (positive : 1 ≤ base) {op : Op} (rep : Rep base b)
    (admissible : Admissible b op) : Simulates b op := by
  cases op with
  | write fill buf =>
    obtain ⟨t, returned, _, same⟩ := write_spec positive rep fill buf admissible
    exact ⟨t, returned, same⟩
  | read n =>
    by_cases enough : n ≤ b.size - b.pos
    · obtain ⟨t, returned, _, same⟩ := read_spec positive rep admissible enough
      exact .inr ⟨enough, t, returned, same⟩
    · exact .inl ⟨by omega, by rw [read, if_pos (by rw [getReadSize]; omega)]⟩
  | position v =>
    by_cases inside : v ≤ b.capacity
    · obtain ⟨t, gap, returned, _, length, same⟩ := position_spec positive rep inside
      exact .inr ⟨inside, t, gap, returned, length, same⟩
    · exact .inl ⟨by omega, by rw [position, if_pos (by omega)]⟩
  | clear =>
    obtain ⟨t, returned, _, same⟩ := clear_spec positive rep
    exact ⟨t, returned, same⟩
  | getWriteBuffers fill n =>
    obtain ⟨pieces, t, returned, _, total, same⟩ := getWriteBuffers_spec positive rep fill admissible
    exact ⟨pieces, t, returned, total, same⟩

/-- After any sequence of calls on a fresh `ByteArray` the representation invariant holds, and the
next call does to the flat buffer what its name says. -/
theorem refines_flat_buffer {fill : Nat → UInt8} {ops : List Op} (positive : 1 ≤ base)
    (run : Run Step (new base fill) ops b) :
    Rep base b ∧ b.flat.contents.length = b.size ∧ ∀ op, Admissible b op → Simulates b op := by
  have rep : Rep base b :=
    run.invariant (fun _ _ _ rep step => step_rep positive rep step) (new_rep positive fill)
  exact ⟨rep, rep.length_contents, fun op admissible => rep_simulates positive rep admissible⟩

/-- The state after two writes, the second across a node boundary, and a rewind. -/
def twoWrites : ByteArray :=
  (Op.position 0).exec ((Op.write (fun _ _ => 0) [3, 4, 5]).exec
    ((Op.write (fun _ _ => 0) [1, 2]).exec (new 2 fun _ => 0)))

theorem refines_flat_buffer_twoWrites :
    Rep 2 twoWrites ∧ Simulates twoWrites (.read 5) ∧ twoWrites.flat.contents = [1, 2, 3, 4, 5] := by
  have run : Run Step (new 2 fun _ => 0)
      ([] ++ [.write (fun _ _ => 0) [1, 2]] ++ [.write (fun _ _ => 0) [3, 4, 5]] ++ [.position 0])
      twoWrites :=
    ((Run.nil.snoc ⟨by simp [Admissible]; decide, rfl⟩).snoc
      ⟨by simp [Admissible]; decide, rfl⟩).snoc ⟨trivial, rfl⟩
  obtain ⟨rep, _, simulates⟩ := refines_flat_buffer (by decide) run
  exact ⟨rep, simulates _ (by simp [Admissible]), by decide⟩

end Cool.ByteArray
