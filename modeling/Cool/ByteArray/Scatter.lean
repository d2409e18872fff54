import Cool.ByteArray.Capacity
import Cool.Foundation.Results

/-!
# Receiving into a `ByteArray`

`SocketStream::read` lets the system fill the `iovec`s of `getWriteBuffers(len)` and then moves the cursor.
The bytes end up where `write` puts them. What differs is the chain: `getWriteBuffers` makes room for `len`
bytes, `write` for as many as it is given.
-/

namespace Cool.ByteArray

open Foundation

/-- `SocketStream::read` of a `ByteArray` when the system delivers `d`: the `iovec`s are filled in order. -/
def receive (fill : Nat → Nat → UInt8) (len : Nat) (d : List UInt8) : Action Unit := do
  let pieces ← getWriteBuffers fill len
  modify fun b => { b with nodes := storePieces b.nodes pieces d }
  position ((← get).pos + d.length)

variable {base : Nat} {b : ByteArray} {fill : Nat → Nat → UInt8} {len : Nat} {d : List UInt8}

theorem getWriteBuffers_covers (positive : 1 ≤ base) (rep : Rep base b) (fill : Nat → Nat → UInt8)
    (roomy : b.Roomy len) (some_bytes : 1 ≤ len) :
    ∃ pieces, getWriteBuffers fill len b = .ok pieces (b.addCapacity fill len) ∧
      Covers base (b.addCapacity fill len).nodes.length b.pos pieces (b.pos + len) := by
  have same_pos := (addCapacity_pos fill len b).1
  have rep' := (addCapacity_rep positive rep fill len).1
  have room := (addCapacity_roomy positive rep fill).mpr roomy
  obtain ⟨pieces, walked, covers, _⟩ := walkCur_covers positive rep' some_bytes (by omega)
  rw [same_pos] at covers
  rw [getWriteBuffers, if_neg (by omega)]
  dsimp only
  rw [walked]
  exact ⟨pieces, rfl, covers⟩

/-- The chain has room for `len` bytes, and all else is as `write` leaves it. -/
theorem receive_spec (positive : 1 ≤ base) (rep : Rep base b) (fill : Nat → Nat → UInt8) (roomy : b.Roomy len)
    (some_bytes : 1 ≤ d.length) (fits : d.length ≤ len) :
    ∃ t, receive fill len d b = .ok () t ∧ Rep base t ∧ t.flat = b.flat.write d ∧
      t.capacity = (b.addCapacity fill len).capacity := by
  obtain ⟨pieces, gathered, covers⟩ := getWriteBuffers_covers positive rep fill roomy (by omega)
  obtain ⟨same_pos, same_size, _⟩ := addCapacity_pos fill len b
  have rep' := (addCapacity_rep positive rep fill len).1
  have room := (addCapacity_roomy positive rep fill).mpr roomy
  have same_flat := addCapacity_flat positive rep fill len
  rw [← same_pos] at covers room
  generalize hc : b.addCapacity fill len = c at *
  have inside : c.pos + d.length ≤ c.capacity := by omega
  -- The cursor moves in the chain that holds `d` already.
  have filled : Rep base { c with nodes := storePieces c.nodes pieces d } := { rep' with
    nonempty := by dsimp only; rw [length_storePieces]; exact rep'.nonempty
    sized := rep'.sized.storePieces
    capacity_eq := by dsimp only; rw [length_storePieces]; exact rep'.capacity_eq }
  have moved := position_eq positive filled (v := c.pos + d.length) inside
  have placed := rep'.store positive inside rep'.sized.storePieces (length_storePieces pieces d)
    (memory_storePieces rep'.sized covers (by omega)) rfl
  refine ⟨_, ?_, placed.1, by rw [placed.2, same_flat], rfl⟩
  show EStateM.bind (getWriteBuffers fill len) _ b = _
  rw [EStateM.bind, gathered]
  show position (c.pos + d.length) { c with nodes := storePieces c.nodes pieces d } = _
  rw [moved, nodeAt, length_storePieces, ← nodeAt]

theorem receive_capacity {t : ByteArray} (returned : receive fill len d b = .ok () t) :
    t.capacity = (b.addCapacity fill len).capacity := by
  obtain ⟨pieces, c, gathered, returned⟩ := bind_returns returned
  obtain ⟨_, c', stored, returned⟩ := bind_returns returned
  obtain ⟨_, _, here, moved⟩ := bind_returns returned
  cases stored
  cases here
  have kept := position_capacity (c.pos + d.length) { c with nodes := storePieces c.nodes pieces d }
  rw [moved] at kept
  refine Eq.trans kept ?_
  show c.capacity = _
  unfold getWriteBuffers at gathered
  split at gathered
  · rename_i empty
    cases gathered
    rw [addCapacity, if_pos empty]
  · dsimp only at gathered
    split at gathered
    · cases gathered
    · cases gathered
      rfl

theorem write_capacity {buf : List UInt8} {u : ByteArray} (returned : write fill buf b = .ok () u) :
    u.capacity = (b.addCapacity fill buf.length).capacity := by
  unfold write at returned
  split at returned
  · rename_i empty
    cases returned
    rw [addCapacity, if_pos empty]
  · dsimp only at returned
    split at returned
    · cases returned
    · cases returned
      rfl

/-- Receiving `d` puts it where it belongs and leaves the rest alone. It leaves the same state as `write`
exactly when `write` has room for `d` too, and both chains end right behind `d` or neither does. -/
theorem receive_iff_write (positive : 1 ≤ base) (rep : Rep base b) (fill fill' : Nat → Nat → UInt8)
    (room : len ≤ (b.addCapacity fill len).capacity - b.pos) (some_bytes : 1 ≤ d.length) (fits : d.length ≤ len) :
    ∃ t, receive fill len d b = .ok () t ∧ t.flat = b.flat.write d ∧
      (∀ i < b.size, i < b.pos ∨ b.pos + d.length ≤ i → t.flat.contents[i]? = b.flat.contents[i]?) ∧
      ((∃ u, write fill' d b = .ok () u ∧ Alike t u) ↔
        b.Roomy d.length ∧ (b.pos + d.length = (b.addCapacity fill' d.length).capacity ↔
          b.pos + d.length = (b.addCapacity fill len).capacity)) := by
  obtain ⟨t, received, rep_t, flat_t, capacity_t⟩ :=
    receive_spec positive rep fill ((addCapacity_roomy positive rep fill).mp room) some_bytes fits
  have pos_t : t.pos = b.pos + d.length := congrArg Flat.pos flat_t
  refine ⟨t, received, flat_t, ?_, ?_⟩
  · intro i _ outside
    rw [flat_t]
    exact b.flat.write_outside rep.pos_le_contents d outside
  · rw [← capacity_t, ← pos_t]
    constructor
    · rintro ⟨u, written, alike⟩
      have roomy : b.Roomy d.length := by
        by_contra short
        have fault := fault_write positive rep fill' d
        rw [if_neg short, Op.fault, written] at fault
        cases fault
      obtain ⟨u', written', rep_u, flat_u⟩ :=
        write_spec positive rep fill' d ((addCapacity_roomy positive rep fill').mpr roomy)
      obtain rfl : u = u' := (EStateM.Result.ok.inj (written.symm.trans written')).2
      have ends := (alike_iff rep_t rep_u (flat_t.trans flat_u.symm)).mp alike
      rw [← alike.pos, write_capacity written] at ends
      exact ⟨roomy, ends⟩
    · rintro ⟨roomy, ends⟩
      obtain ⟨u, written, rep_u, flat_u⟩ :=
        write_spec positive rep fill' d ((addCapacity_roomy positive rep fill').mpr roomy)
      have same := flat_t.trans flat_u.symm
      have pos : t.pos = u.pos := congrArg Flat.pos same
      rw [pos, ← write_capacity written, ← pos] at ends
      refine ⟨u, written, (alike_iff rep_t rep_u same).mpr ?_⟩
      rw [← pos]
      exact ends

theorem receive_iff_write_oneByte : ∃ t u, receive (fun _ _ => 0) 7 [2, 3] oneByte = .ok () t ∧
    write (fun _ _ => 0) [2, 3] oneByte = .ok () u ∧ Alike t u := by
  have room : 7 ≤ (oneByte.addCapacity (fun _ _ => 0) 7).capacity - oneByte.pos := by decide
  obtain ⟨t, received, _, _, same⟩ := receive_iff_write (d := [2, 3]) (by decide)
    (reachable_rep (by decide) oneByte_run) (fun _ _ => 0) (fun _ _ => 0) room (by decide) (by decide)
  obtain ⟨u, written, alike⟩ := same.mpr (by decide)
  exact ⟨t, u, received, written, alike⟩

/-- There is room for 7 bytes, and 5 of them are received. `write` of the same 5 makes no room for them. -/
theorem receive_beyond_write :
    Rep 4 oneByte ∧ 7 ≤ (oneByte.addCapacity (fun _ _ => 0) 7).capacity - oneByte.pos ∧
      (∃ t, receive (fun _ _ => 0) 7 [2, 3, 4, 5, 6] oneByte = .ok () t ∧ t.flat.contents = [1, 2, 3, 4, 5, 6]) ∧
      (Op.write (fun _ _ => 0) [2, 3, 4, 5, 6]).fault oneByte = some .nullNode :=
  ⟨reachable_rep (by decide) oneByte_run, by decide, ⟨_, rfl, by decide⟩, by decide⟩

end Cool.ByteArray
