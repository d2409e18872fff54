import Cool.ByteArray.RoundTrip

/-!
# Strings with a varint length

`write_string_vint` writes the length as a varint and `read_string_vint` reads it as eight bytes. They could
only agree where the varint has eight bytes, and there the eight bytes stand for another number in either
byte order.
-/

namespace Cool.ByteArray

open Foundation

namespace Typed

variable {order : Endian} {s t : Stream} {w room : Nat}

/-! ### Eight bytes as a number -/

theorem toNat_ofMemory (buf : List UInt8) : (ofMemory buf.length buf).toNat = ofOctets buf := by
  have small : ofOctets buf < 2 ^ (8 * buf.length) := by
    rw [two_pow_bits]
    exact ofOctets_lt buf
  rw [ofMemory, BitVec.toNat_ofNat, Nat.mod_eq_of_lt small]

theorem toNat_byteswap_ofMemory (buf : List UInt8) :
    (byteswap (ofMemory buf.length buf)).toNat = ofOctets buf.reverse := by
  have back := toNat_ofMemory buf.reverse
  rw [List.length_reverse] at back
  rw [byteswap, memoryOf_ofMemory, back]

/-! ### The bytes of a varint as a number -/

/-- A varint is one byte below 128, or a byte from 128 on and the varint of the rest. -/
theorem groups_cases {val : BitVec w} {temp : List UInt8} (wide : 8 ≤ w)
    (stored : groups (room + 1) val = some temp) :
    (∃ last, temp = [last] ∧ last.toNat = val.toNat ∧ val.toNat < 128) ∨
    ∃ first later, temp = first :: later ∧ first.toNat = val.toNat % 128 + 128 ∧ 128 ≤ val.toNat ∧
      groups room (val >>> 7) = some later := by
  have limit := toNat_limit wide
  rw [groups] at stored
  split at stored
  · rename_i large
    rw [ge_iff_le, BitVec.le_def, limit] at large
    obtain ⟨later, remaining, rfl⟩ := Option.map_eq_some_iff.mp stored
    exact .inr ⟨_, later, rfl, toNat_group wide val, large, remaining⟩
  · rename_i small
    rw [ge_iff_le, BitVec.le_def, limit, Nat.not_le] at small
    cases stored
    refine .inl ⟨_, rfl, ?_, small⟩
    show (val.setWidth 8).toNat = val.toNat
    rw [BitVec.toNat_setWidth]
    omega

theorem groups_lt {val : BitVec w} {temp : List UInt8} (wide : 8 ≤ w) (stored : groups room val = some temp) :
    val.toNat < 128 ^ temp.length := by
  induction room generalizing val temp with
  | zero => cases stored
  | succ room ih =>
    rcases groups_cases wide stored with ⟨last, rfl, _, small⟩ | ⟨first, later, rfl, _, _, remaining⟩
    · rwa [List.length_singleton, Nat.pow_one]
    · have rest := ih remaining
      rw [toNat_ushiftRight_seven] at rest
      rw [List.length_cons, Nat.pow_succ']
      omega

theorem groups_le {val : BitVec w} {temp : List UInt8} (wide : 8 ≤ w) (stored : groups room val = some temp) :
    val.toNat ≤ ofOctets temp := by
  induction room generalizing val temp with
  | zero => cases stored
  | succ room ih =>
    rcases groups_cases wide stored with ⟨last, rfl, value, _⟩ | ⟨first, later, rfl, value, _, remaining⟩
    · rw [ofOctets_cons]
      omega
    · have rest := ih remaining
      rw [toNat_ushiftRight_seven] at rest
      rw [ofOctets_cons]
      omega

/-- With eight groups the bytes stand for more than the value, the first byte being the least significant or
the most. -/
theorem groups_eight {val : BitVec w} {temp : List UInt8} (wide : 8 ≤ w) (stored : groups room val = some temp)
    (eight : temp.length = 8) : val.toNat < ofOctets temp ∧ val.toNat < ofOctets temp.reverse := by
  have below := groups_lt wide stored
  rw [eight] at below
  obtain ⟨room, rfl⟩ : ∃ m, room = m + 1 := by
    cases room with
    | zero => cases stored
    | succ room => exact ⟨room, rfl⟩
  rcases groups_cases wide stored with ⟨last, rfl, _⟩ | ⟨first, later, rfl, value, _, remaining⟩
  · cases eight
  · have rest := groups_le wide remaining
    rw [toNat_ushiftRight_seven] at rest
    have seven : later.length = 7 := Nat.succ.inj eight
    rw [List.reverse_cons, ofOctets_append, List.length_reverse, seven, ofOctets_cons, ofOctets_cons]
    constructor <;> omega

/-! ### The two functions -/

theorem writeStringVint_eq {val : List UInt8} {temp : List UInt8}
    (stored : groups 10 (BitVec.ofNat 64 val.length) = some temp) (inside : s.flat.pos ≤ s.flat.contents.length) :
    writeStringVint val s = .ok () { s with flat := s.flat.write (temp ++ val) } := by
  show EStateM.bind (writeUint64 _) (fun _ => write val) s = _
  rw [EStateM.bind, writeUint64, writeVarint, stored]
  show EStateM.Result.ok () { s with flat := (s.flat.write temp).write val } = _
  rw [s.flat.write_write inside]

theorem readStringVint_ok {val : List UInt8} (returned : readStringVint order s = .ok val t) :
    8 ≤ s.getReadSize ∧ t.flat.pos = s.flat.pos + 8 + val.length ∧
      (val.length = ofOctets (s.flat.peek 8) ∨ val.length = ofOctets (s.flat.peek 8).reverse) := by
  change EStateM.bind (readFixed order 8) _ s = _ at returned
  rw [EStateM.bind] at returned
  split at returned
  · rename_i len u first
    obtain ⟨enough, rfl, value⟩ := readFixed_ok first
    obtain ⟨there, rfl, rfl⟩ := read_ok returned
    have eight : (s.flat.peek 8).length = 8 := by
      rw [Flat.peek, List.length_take, List.length_drop, ← Stream.getReadSize]
      omega
    have length : ((s.flat.advance 8).peek len.toNat).length = len.toNat := by
      rw [Flat.peek, List.length_take, List.length_drop]
      exact Nat.min_eq_left there
    refine ⟨enough, by rw [length]; rfl, ?_⟩
    have straight := toNat_ofMemory (s.flat.peek 8)
    have swapped := toNat_byteswap_ofMemory (s.flat.peek 8)
    rw [eight] at straight swapped
    rw [length, value]
    split
    · exact .inl straight
    · exact .inr swapped
  · cases returned

/-- No string comes back: wherever it was written and whatever follows it, in either byte order,
`read_string_vint` does not return it and stop behind it. -/
theorem stringVint_never (order : Endian) (val : List UInt8) :
    ∃ bs, (∀ s : Stream, s.flat.pos ≤ s.flat.contents.length →
        writeStringVint val s = .ok () { s with flat := s.flat.write bs }) ∧
      ∀ e cs rest t, readStringVint order ⟨⟨cs ++ bs ++ rest, cs.length⟩, e⟩ = .ok val t →
        t.flat.pos ≠ (cs ++ bs).length := by
  have small : (BitVec.ofNat 64 val.length).toNat < 2 ^ (7 * (9 + 1)) :=
    Nat.lt_of_lt_of_le (BitVec.isLt _) (Nat.pow_le_pow_right (by decide) (by decide))
  obtain ⟨temp, stored⟩ := groups_isSome (by decide) _ small
  refine ⟨temp ++ val, fun s inside => writeStringVint_eq stored inside, ?_⟩
  intro e cs rest t returned behind
  obtain ⟨enough, stop, read⟩ := readStringVint_ok returned
  -- It stops behind the string only if the varint took the 8 bytes that it reads as a length.
  have eight : temp.length = 8 := by
    have same := stop.symm.trans behind
    simp only [List.length_append] at same
    omega
  have unread : Flat.peek ⟨cs ++ (temp ++ val) ++ rest, cs.length⟩ 8 = temp := by
    simp [Flat.peek, ← eight]
  rw [unread] at read
  have fits : val.length < 2 ^ 64 := by
    have bound := ofOctets_lt temp
    have bound' := ofOctets_lt temp.reverse
    rw [List.length_reverse] at bound'
    rw [eight] at bound bound'
    omega
  have more := groups_eight (by decide) stored eight
  rw [BitVec.toNat_ofNat, Nat.mod_eq_of_lt fits] at more
  omega

theorem stringVint_lost :
    ∃ s, writeStringVint [97] (Stream.empty .big) = .ok () s ∧ s.flat.contents = [1, 97] ∧
      readStringVint .little { s with flat := s.flat.seek 0 [] } =
        .error (.fault (.outOfRange "not enough len")) { s with flat := s.flat.seek 0 [] } :=
  ⟨_, rfl, rfl, rfl⟩

end Typed

end Cool.ByteArray
