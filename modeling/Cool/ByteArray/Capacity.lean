import Cool.ByteArray.Refinement

/-!
# What `addCapacity` makes room for

`addCapacity(n)` appends a node for the remainder of its division only if the remainder exceeds what is
left behind the cursor, so the room it leaves can fall short of `n`. The loops of `write` and
`getWriteBuffers` then step onto `nullptr`.
-/

namespace Cool.ByteArray

open Foundation

/-- The new nodes hold what does not fit behind the cursor. -/
def Roomy (b : ByteArray) (n : Nat) : Prop :=
  n ≤ b.getCapacity ∨ (n - b.getCapacity) % b.baseSize = 0 ∨ b.getCapacity < (n - b.getCapacity) % b.baseSize

instance decidableRoomy (b : ByteArray) (n : Nat) : Decidable (b.Roomy n) :=
  inferInstanceAs (Decidable (n ≤ b.getCapacity ∨ (n - b.getCapacity) % b.baseSize = 0 ∨
    b.getCapacity < (n - b.getCapacity) % b.baseSize))

/-- What a call ended in, if it did not return. -/
def faultOf {α : Type} : EStateM.Result Fault ByteArray α → Option Fault
  | .ok _ _ => none
  | .error f _ => some f

def Op.fault (b : ByteArray) : Op → Option Fault
  | .write fill buf => faultOf (ByteArray.write fill buf b)
  | .read n => faultOf (ByteArray.read n b)
  | .position v => faultOf (ByteArray.position v b)
  | .clear => faultOf (ByteArray.clear b)
  | .getWriteBuffers fill n => faultOf (ByteArray.getWriteBuffers fill n b)

/-- The member functions that change a `ByteArray`. -/
inductive Call where
  | op (op : Op)
  | setIsLittleEndian (val : Bool)

/-- One call that returns or throws; the program does not survive a dereference of `nullptr`. -/
inductive Survives (b : ByteArray) : Call → ByteArray → Prop where
  | op (op : Op) (alive : op.fault b ≠ some .nullNode) : Survives b (.op op) (op.exec b)
  | setIsLittleEndian (val : Bool) :
      Survives b (.setIsLittleEndian val) { b with endian := if val then .little else .big }

variable {base : Nat} {b : ByteArray} {fill : Nat → Nat → UInt8} {n : Nat}

/-! ### The room -/

theorem addCapacity_capacity (short : b.getCapacity < n) :
    (b.addCapacity fill n).capacity = b.capacity + ((n - b.getCapacity) / b.baseSize +
      if (n - b.getCapacity) % b.baseSize > b.getCapacity then 1 else 0) * b.baseSize := by
  rw [addCapacity, if_neg (by omega), if_neg (by omega)]

theorem addCapacity_roomy (positive : 1 ≤ base) (rep : Rep base b) (fill : Nat → Nat → UInt8) :
    n ≤ (b.addCapacity fill n).capacity - b.pos ↔ b.Roomy n := by
  have inside := Nat.le_trans rep.pos_le rep.size_le
  by_cases short : b.getCapacity < n
  · have parts := Nat.div_add_mod' (n - b.getCapacity) b.baseSize
    have base_eq := rep.base_eq
    have remainder : (n - b.getCapacity) % b.baseSize < b.baseSize := Nat.mod_lt _ (by omega)
    rw [addCapacity_capacity short, Roomy, Nat.add_mul]
    have cap : b.getCapacity = b.capacity - b.pos := rfl
    split
    · rw [Nat.one_mul]
      omega
    · rw [Nat.zero_mul]
      omega
  · have same : b.addCapacity fill n = b := by
      unfold addCapacity
      split
      · rfl
      · rw [if_pos (by omega)]
    rw [same, ← getCapacity]
    exact ⟨.inl, fun _ => by omega⟩

/-! ### The loops -/

theorem walkCur_addCapacity (positive : 1 ≤ base) (rep : Rep base b) (fill : Nat → Nat → UInt8) (short : ¬ b.Roomy n) :
    1 ≤ n ∧ (b.addCapacity fill n).walkCur n = none := by
  have nonempty : 1 ≤ n := by
    by_contra none
    exact short (.inl (by omega))
  have pos_eq := (addCapacity_pos fill n b).1
  rw [← addCapacity_roomy positive rep fill, ← pos_eq] at short
  exact ⟨nonempty, walkCur_short positive (addCapacity_rep positive rep fill n).1 nonempty (by omega)⟩

theorem fault_write (positive : 1 ≤ base) (rep : Rep base b) (fill : Nat → Nat → UInt8) (buf : List UInt8) :
    (Op.write fill buf).fault b = if b.Roomy buf.length then none else some .nullNode := by
  by_cases roomy : b.Roomy buf.length
  · obtain ⟨t, returned, _⟩ := write_spec positive rep fill buf ((addCapacity_roomy positive rep fill).mpr roomy)
    rw [if_pos roomy, Op.fault, returned]
    rfl
  · obtain ⟨nonempty, lost⟩ := walkCur_addCapacity positive rep fill roomy
    rw [if_neg roomy, Op.fault, write, if_neg (by omega)]
    dsimp only
    rw [lost]
    rfl

theorem fault_getWriteBuffers (positive : 1 ≤ base) (rep : Rep base b) (fill : Nat → Nat → UInt8) (n : Nat) :
    (Op.getWriteBuffers fill n).fault b = if b.Roomy n then none else some .nullNode := by
  by_cases roomy : b.Roomy n
  · obtain ⟨_, t, returned, _⟩ :=
      getWriteBuffers_spec positive rep fill ((addCapacity_roomy positive rep fill).mpr roomy)
    rw [if_pos roomy, Op.fault, returned]
    rfl
  · obtain ⟨nonempty, lost⟩ := walkCur_addCapacity positive rep fill roomy
    rw [if_neg roomy, Op.fault, getWriteBuffers, if_neg (by omega)]
    dsimp only
    rw [lost]
    rfl

/-! ### Every run -/

theorem roomy_of_alive (alive : (if b.Roomy n then none else some Fault.nullNode) ≠ some .nullNode) : b.Roomy n := by
  by_contra short
  exact alive (if_neg short)

/-- A read of no bytes needs a current node, and leaves it where it is. -/
theorem read_zero (positive : 1 ≤ base) (rep : Rep base b) :
    read 0 b = if b.pos = b.capacity then .error .nullNode b else .ok [] b := by
  have inside := Nat.le_trans rep.pos_le rep.size_le
  rw [read, if_neg (Nat.not_lt_zero _), walkCur, rep.cur_eq]
  by_cases last : b.pos = b.capacity
  · rw [if_pos last, if_pos last]
  · have same : nodeAt b.nodes (b.pos / base) = b.cur := by rw [rep.cur_at positive inside, rep.cur_eq]
    rw [if_neg last, if_neg last]
    dsimp only
    rw [walk]
    dsimp only
    rw [same]
    rfl

theorem survives_rep (positive : 1 ≤ base) {call : Call} {t : ByteArray} (rep : Rep base b)
    (survives : Survives b call t) : Rep base t := by
  -- A call that survives is one that the refinement covers, or a read of no bytes.
  have covered {op : Op} (admissible : Admissible b op) : Rep base (op.exec b) :=
    step_rep positive rep ⟨admissible, rfl⟩
  cases survives with
  | setIsLittleEndian val => exact { rep with }
  | op op alive =>
    cases op with
    | write fill buf =>
      rw [fault_write positive rep] at alive
      exact covered ((addCapacity_roomy positive rep fill).mpr (roomy_of_alive alive))
    | read n =>
      by_cases some_bytes : 1 ≤ n
      · exact covered some_bytes
      · obtain rfl : n = 0 := by omega
        rw [Op.exec, read_zero positive rep]
        split <;> exact rep
    | position v => exact covered trivial
    | clear => exact covered trivial
    | getWriteBuffers fill n =>
      rw [fault_getWriteBuffers positive rep] at alive
      exact covered ((addCapacity_roomy positive rep fill).mpr (roomy_of_alive alive))

theorem reachable_rep (positive : 1 ≤ base) {start : Nat → UInt8} {calls : List Call}
    (run : Run Survives (new base start) calls b) : Rep base b :=
  run.invariant (fun _ _ _ rep survives => survives_rep positive rep survives) (new_rep positive start)

/-- `buf` written with nodes of `base` bytes, and the cursor back at the start. -/
def rewound (base : Nat) (buf : List UInt8) : ByteArray :=
  (Op.position 0).exec ((Op.write (fun _ _ => 0) buf).exec (new base fun _ => 0))

theorem rewound_rep (positive : 1 ≤ base) {buf : List UInt8}
    (alive : (Op.write (fun _ _ => 0) buf).fault (new base fun _ => 0) ≠ some .nullNode) :
    Rep base (rewound base buf) :=
  step_rep positive (reachable_rep positive (Run.nil.snoc (.op _ alive))) (show Step _ (.position 0) _ from ⟨trivial, rfl⟩)

/-- After any calls on a fresh `ByteArray`, `addCapacity(n)` leaves room for `n` bytes exactly when the
array is roomy for them, and exactly then `write` and `getWriteBuffers` of `n` bytes return; otherwise they
dereference `nullptr`. -/
theorem addCapacity_room_iff (positive : 1 ≤ base) {start : Nat → UInt8} {calls : List Call}
    (run : Run Survives (new base start) calls b) (n : Nat) (fill : Nat → Nat → UInt8) :
    (n ≤ (b.addCapacity fill n).capacity - (b.addCapacity fill n).pos ↔ b.Roomy n) ∧
    (∀ buf : List UInt8, buf.length = n →
      (Op.write fill buf).fault b = if b.Roomy n then none else some .nullNode) ∧
    (Op.getWriteBuffers fill n).fault b = if b.Roomy n then none else some .nullNode := by
  have rep := reachable_rep positive run
  refine ⟨?_, ?_, fault_getWriteBuffers positive rep fill n⟩
  · rw [(addCapacity_pos fill n b).1]
    exact addCapacity_roomy positive rep fill
  · rintro buf rfl
    exact fault_write positive rep fill buf

/-- One byte written with nodes of 4 bytes: 3 are left. -/
def oneByte : ByteArray := (Op.write (fun _ _ => 0) [1]).exec (new 4 fun _ => 0)

theorem oneByte_run : Run Survives (new 4 fun _ => 0) ([] ++ [.op (.write (fun _ _ => 0) [1])]) oneByte :=
  Run.nil.snoc (.op _ (by decide))

theorem addCapacity_room_iff_oneByte : 7 ≤ (oneByte.addCapacity (fun _ _ => 0) 7).capacity - oneByte.pos :=
  (addCapacity_room_iff (by decide) oneByte_run 7 fun _ _ => 0).1.mpr (by decide)

/-- For 5 bytes there are 2 too many, and no node is added for them. -/
theorem addCapacity_falls_short :
    Run Survives (new 4 fun _ => 0) ([] ++ [.op (.write (fun _ _ => 0) [1])]) oneByte ∧
      (oneByte.addCapacity (fun _ _ => 0) 5).capacity - oneByte.pos = 3 ∧
      (Op.write (fun _ _ => 0) [1, 2, 3, 4, 5]).fault oneByte = some .nullNode ∧
      (Op.getWriteBuffers (fun _ _ => 0) 5).fault oneByte = some .nullNode :=
  ⟨oneByte_run, by decide, by decide, by decide⟩

end Cool.ByteArray
