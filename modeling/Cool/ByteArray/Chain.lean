import Cool.ByteArray.Basic

/-!
# The chain as flat memory

What the loops of `ByteArray` do to a chain whose nodes all have `base` bytes, in terms of the
memory the chain spans: a walk visits consecutive stretches, loading them reads the stretch of
memory they cover and storing to them overwrites it.
-/

namespace Cool.ByteArray

open Foundation

def memory (nodes : List Node) : List UInt8 := (nodes.map Node.ptr).flatten

def Sized (base : Nat) (nodes : List Node) : Prop := ∀ node ∈ nodes, node.size = base

variable {base : Nat} {nodes : List Node}

theorem Sized.uniform (sized : Sized base nodes) : Uniform base (nodes.map Node.ptr) := by
  intro block member
  obtain ⟨node, present, rfl⟩ := List.mem_map.mp member
  rw [node.alloc, sized node present]

theorem Sized.tail {node : Node} (sized : Sized base (node :: nodes)) : Sized base nodes :=
  fun node member => sized node (List.mem_cons_of_mem _ member)

theorem Sized.drop (sized : Sized base nodes) (i : Nat) : Sized base (nodes.drop i) :=
  fun node member => sized node (List.mem_of_mem_drop member)

theorem Sized.length_memory (sized : Sized base nodes) :
    (memory nodes).length = nodes.length * base := by
  simpa [memory] using sized.uniform.length_flatten

theorem Sized.append {added : List Node} (sized : Sized base nodes) (new : Sized base added) :
    Sized base (nodes ++ added) := by
  intro node member
  rcases List.mem_append.mp member with old | fresh
  · exact sized node old
  · exact new node fresh

theorem memory_cons (node : Node) (nodes : List Node) : memory (node :: nodes) = node.ptr ++ memory nodes := rfl

theorem memory_append (added : List Node) : memory (nodes ++ added) = memory nodes ++ memory added := by
  simp [memory]

/-- The stretches follow each other from address `a` to address `z`, each inside one of `k`
nodes. -/
def Covers (base k : Nat) : Nat → List Piece → Nat → Prop
  | a, [], z => a = z
  | a, p :: ps, z =>
    p.node * base + p.off = a ∧ p.off + p.len ≤ base ∧ p.node < k ∧ Covers base k (a + p.len) ps z

theorem Covers.le {k a z : Nat} {ps : List Piece} (covers : Covers base k a ps z) : a ≤ z := by
  induction ps generalizing a with
  | nil => exact Nat.le_of_eq covers
  | cons p ps ih => exact Nat.le_trans (Nat.le_add_right a p.len) (ih covers.2.2.2)

theorem Covers.end_le {k a z : Nat} {ps : List Piece} (covers : Covers base k a ps z)
    (start : a ≤ k * base) : z ≤ k * base := by
  induction ps generalizing a with
  | nil =>
    obtain rfl : a = z := covers
    exact start
  | cons p ps ih =>
    obtain ⟨at_a, fits, bound, rest⟩ := covers
    have block : (p.node + 1) * base ≤ k * base := Nat.mul_le_mul_right base bound
    rw [Nat.succ_mul] at block
    exact ih rest (by omega)

theorem div_block {i off : Nat} (inside : off < base) : (i * base + off) / base = i := by
  rw [Nat.mul_comm, Nat.mul_add_div (by omega), Nat.div_eq_of_lt inside, Nat.add_zero]

/-- A walk that has room visits exactly the `n` bytes from where it starts. -/
theorem walk_covers {i npos n : Nat} (sized : Sized base nodes) (inside : npos < base)
    (room : npos + n ≤ nodes.length * base) :
    ∃ pieces, walk nodes i npos n = some (pieces, (i * base + npos + n) / base) ∧
      Covers base (i + nodes.length) (i * base + npos) pieces (i * base + npos + n) := by
  -- The loop moves one node per turn, so the induction is on the chain from the current node.
  induction nodes generalizing i npos n with
  | nil =>
    obtain rfl : n = 0 := by simp at room; omega
    exact ⟨[], by simp [walk, div_block inside], rfl⟩
  | cons node rest ih =>
    have here : node.size = base := sized node List.mem_cons_self
    cases n with
    | zero => exact ⟨[], by simp [walk, div_block inside], rfl⟩
    | succ n =>
      rw [walk, here]
      by_cases last : base - npos ≥ n + 1
      · refine ⟨[⟨i, npos, n + 1⟩], ?_, rfl, by dsimp only; omega, by simp, rfl⟩
        rw [if_pos last]
        by_cases full : base = npos + (n + 1)
        · have stop : i * base + npos + (n + 1) = (i + 1) * base := by
            rw [Nat.succ_mul, Nat.add_assoc, ← full]
          rw [if_pos full, stop, Nat.mul_div_cancel _ (by omega)]
        · rw [if_neg full, Nat.add_assoc, div_block (by omega)]
      · have rest_room : 0 + (n + 1 - (base - npos)) ≤ rest.length * base := by
          rw [List.length_cons, Nat.succ_mul] at room
          omega
        have step : i * base + npos + (base - npos) = (i + 1) * base + 0 := by
          rw [Nat.succ_mul]
          omega
        have stop : (i + 1) * base + 0 + (n + 1 - (base - npos)) = i * base + npos + (n + 1) := by
          rw [← step]
          omega
        obtain ⟨pieces, walked, covers⟩ := ih (i := i + 1)
          sized.tail (by omega) rest_room
        refine ⟨⟨i, npos, base - npos⟩ :: pieces, ?_, rfl, by dsimp only; omega, by simp, ?_⟩
        · rw [if_neg last, walked, stop]
          rfl
        · rw [stop, ← step] at covers
          rwa [List.length_cons, show i + (rest.length + 1) = i + 1 + rest.length by omega]

/-- A walk without room steps onto `nullptr`. -/
theorem walk_short {i npos n : Nat} (sized : Sized base nodes) (inside : npos < base) (some_bytes : 1 ≤ n)
    (short : nodes.length * base < npos + n) : walk nodes i npos n = none := by
  induction nodes generalizing i npos n with
  | nil =>
    obtain ⟨n, rfl⟩ : ∃ m, n = m + 1 := ⟨n - 1, by omega⟩
    rw [walk]
  | cons node rest ih =>
    obtain ⟨n, rfl⟩ : ∃ m, n = m + 1 := ⟨n - 1, by omega⟩
    have here : node.size = base := sized node List.mem_cons_self
    rw [List.length_cons, Nat.succ_mul] at short
    have further : ¬ base - npos ≥ n + 1 := by omega
    rw [walk, here, if_neg further, ih sized.tail
      (by omega) (by omega) (by omega)]
    rfl

/-- No stretch of a walk is empty. -/
theorem walk_nonempty {i npos n last : Nat} {pieces : List Piece} (sized : Sized base nodes)
    (inside : npos < base) (walked : walk nodes i npos n = some (pieces, last)) : ∀ p ∈ pieces, 0 < p.len := by
  induction nodes generalizing i npos n pieces last with
  | nil =>
    cases n with
    | zero =>
      obtain ⟨rfl, _⟩ := Prod.mk.inj (Option.some.inj walked)
      simp
    | succ n => rw [walk] at walked; cases walked
  | cons node rest ih =>
    cases n with
    | zero =>
      obtain ⟨rfl, _⟩ := Prod.mk.inj (Option.some.inj walked)
      simp
    | succ n =>
      have here : node.size = base := sized node List.mem_cons_self
      rw [walk, here] at walked
      split at walked
      · obtain ⟨rfl, _⟩ := Prod.mk.inj (Option.some.inj walked)
        simp
      · obtain ⟨⟨later, stop⟩, further, same⟩ := Option.map_eq_some_iff.mp walked
        obtain ⟨rfl, _⟩ := Prod.mk.inj same
        intro p member
        rcases List.mem_cons.mp member with rfl | member
        · show 0 < base - npos
          omega
        · exact ih sized.tail (by omega) further p member

/-- The number of stretches: no more than `k` when the bytes fit into `k` nodes from the start of the first. -/
theorem walk_length_le {i npos n last k : Nat} {pieces : List Piece} (sized : Sized base nodes)
    (inside : npos < base) (some_bytes : 1 ≤ n) (walked : walk nodes i npos n = some (pieces, last)) :
    pieces.length ≤ k ↔ npos + n ≤ k * base := by
  induction nodes generalizing i npos n pieces last k with
  | nil =>
    obtain ⟨n, rfl⟩ : ∃ m, n = m + 1 := ⟨n - 1, by omega⟩
    rw [walk] at walked
    cases walked
  | cons node rest ih =>
    obtain ⟨n, rfl⟩ : ∃ m, n = m + 1 := ⟨n - 1, by omega⟩
    have here : node.size = base := sized node List.mem_cons_self
    rw [walk, here] at walked
    split at walked
    · obtain ⟨rfl, _⟩ := Prod.mk.inj (Option.some.inj walked)
      cases k with
      | zero => simp
      | succ k =>
        rw [Nat.succ_mul, List.length_singleton]
        omega
    · obtain ⟨⟨later, stop⟩, further, same⟩ := Option.map_eq_some_iff.mp walked
      obtain ⟨rfl, _⟩ := Prod.mk.inj same
      rw [List.length_cons]
      cases k with
      | zero => simp
      | succ k =>
        have others := ih (k := k) sized.tail (by omega : 0 < base) (by omega) further
        rw [Nat.succ_mul]
        omega

theorem loadPieces_covers {a z : Nat} {ps : List Piece} (sized : Sized base nodes)
    (covers : Covers base nodes.length a ps z) :
    loadPieces nodes ps = ((memory nodes).drop a).take (z - a) := by
  induction ps generalizing a with
  | nil =>
    obtain rfl : a = z := covers
    simp [loadPieces]
  | cons p ps ih =>
    obtain ⟨start, fits, bound, rest⟩ := covers
    have tail := ih rest
    have at_p : (nodes.map Node.ptr)[p.node]? = some (nodes[p.node]).ptr := by simp [bound]
    have first := sized.uniform.slice at_p fits
    have le := rest.le
    have head : (nodes[p.node]?).elim [] (·.load p.off p.len) = ((memory nodes).drop a).take p.len := by
      rw [List.getElem?_eq_getElem bound, ← start]
      exact first.symm
    rw [loadPieces, List.flatMap_cons, head, ← loadPieces, tail, ← List.drop_drop,
      show z - a = p.len + (z - (a + p.len)) by omega, List.take_add]

@[simp] theorem length_storePieces (ps : List Piece) (buf : List UInt8) :
    (storePieces nodes ps buf).length = nodes.length := by
  induction ps generalizing nodes buf with
  | nil => rfl
  | cons p ps ih => rw [storePieces, ih, List.length_modify]

theorem Sized.modify {i off : Nat} {buf : List UInt8} (sized : Sized base nodes) :
    Sized base (nodes.modify i (·.store off buf)) := by
  intro node member
  obtain ⟨j, at_j⟩ := List.mem_iff_getElem?.mp member
  rw [List.getElem?_modify, Option.map_eq_map, Option.map_eq_some_iff] at at_j
  obtain ⟨old, found, rfl⟩ := at_j
  have size := sized old (List.mem_of_getElem? found)
  split <;> exact size

theorem Sized.storePieces {ps : List Piece} {buf : List UInt8} (sized : Sized base nodes) :
    Sized base (storePieces nodes ps buf) := by
  induction ps generalizing nodes buf with
  | nil => exact sized
  | cons p ps ih => exact ih sized.modify

theorem memory_modify {i off : Nat} {buf : List UInt8} (sized : Sized base nodes)
    (bound : i < nodes.length) (fits : off + buf.length ≤ base) :
    memory (nodes.modify i (·.store off buf)) = overwrite (memory nodes) (i * base + off) buf := by
  have blocks : (nodes.modify i (·.store off buf)).map Node.ptr =
      (nodes.map Node.ptr).modify i (overwrite · off buf) := by
    apply List.ext_getElem?
    intro j
    simp only [List.getElem?_map, List.getElem?_modify, Option.map_eq_map, Option.map_map]
    congr 1
    funext node
    dsimp only [Function.comp]
    split <;> rfl
  rw [memory, blocks, sized.uniform.store (by simpa using bound) fits, memory]

/-- The stretches may have room for more than `buf`: what is behind it stays as it was. -/
theorem memory_storePieces {a z : Nat} {ps : List Piece} {buf : List UInt8} (sized : Sized base nodes)
    (covers : Covers base nodes.length a ps z) (enough : a + buf.length ≤ z) :
    memory (storePieces nodes ps buf) = overwrite (memory nodes) a buf := by
  induction ps generalizing nodes buf a with
  | nil =>
    have empty : buf = [] := List.eq_nil_of_length_eq_zero (by
      have : a = z := covers
      omega)
    rw [empty, overwrite_nil, storePieces]
  | cons p ps ih =>
    obtain ⟨start, fits, bound, rest⟩ := covers
    have le := rest.le
    have inside : z ≤ (memory nodes).length := by
      have block : (p.node + 1) * base ≤ nodes.length * base := Nat.mul_le_mul_right base bound
      rw [Nat.succ_mul] at block
      rw [sized.length_memory]
      exact rest.end_le (by omega)
    have taken : p.off + (buf.take p.len).length ≤ base := by rw [List.length_take]; omega
    rw [storePieces, ih sized.modify (by rw [List.length_modify]; exact rest)
      (by rw [List.length_drop]; omega), memory_modify sized bound taken, start]
    by_cases whole : p.len ≤ buf.length
    · have joined : overwrite (overwrite (memory nodes) a (buf.take p.len))
          (a + (buf.take p.len).length) (buf.drop p.len) = overwrite (memory nodes) a buf := by
        rw [overwrite_overwrite (by simp; omega), List.take_append_drop]
      rwa [List.length_take, Nat.min_eq_left whole] at joined
    · rw [List.take_of_length_le (by omega), List.drop_of_length_le (by omega), overwrite_nil]

end Cool.ByteArray
