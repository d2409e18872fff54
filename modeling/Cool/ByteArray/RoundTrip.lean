import Cool.ByteArray.Typed

/-!
# Typed values come back as they were written

Every `write_*` appends some bytes, and its `read_*` consumes exactly those bytes, whatever follows
them. Calls with this property compose, so a list of values comes back in order.
-/

namespace Cool.ByteArray

open Foundation (octets ofOctets length_octets ofOctets_octets octets_ofOctets ofOctets_lt)

namespace Typed

/-- With the cursor at the end, `act` appends `bs` and takes the setting from `e` to `e'`. -/
def Appends (e : Endian) (act : Typed Unit) (bs : List UInt8) (e' : Endian) : Prop :=
  ∀ cs, act ⟨⟨cs, cs.length⟩, e⟩ = .ok () ⟨⟨cs ++ bs, (cs ++ bs).length⟩, e'⟩

/-- With `bs` at the cursor, `act` consumes it, gives `v` and takes the setting from `e` to `e'`. -/
def Consumes {α : Type} (e : Endian) (act : Typed α) (bs : List UInt8) (v : α) (e' : Endian) : Prop :=
  ∀ cs rest, act ⟨⟨cs ++ bs ++ rest, cs.length⟩, e⟩ =
    .ok v ⟨⟨cs ++ bs ++ rest, (cs ++ bs).length⟩, e'⟩

variable {order e e' e'' : Endian} {α β : Type} {xs ys : List UInt8}

theorem write_appends (bs : List UInt8) : Appends e (write bs) bs e := by
  intro cs
  have kept : cs.take cs.length ++ bs ++ cs.drop (cs.length + bs.length) = cs ++ bs := by simp
  rw [write, Flat.write, kept, List.length_append]

theorem Appends.seq {a b : Typed Unit} (first : Appends e a xs e') (second : Appends e' b ys e'') :
    Appends e (a >>= fun _ => b) (xs ++ ys) e'' := by
  intro cs
  show EStateM.bind a (fun _ => b) _ = _
  rw [EStateM.bind, first cs, ← List.append_assoc]
  exact second (cs ++ xs)

theorem read_consumes (bs : List UInt8) : Consumes e (read bs.length) bs bs e := by
  intro cs rest
  have enough : ¬bs.length > Stream.getReadSize ⟨⟨cs ++ bs ++ rest, cs.length⟩, e⟩ := by
    simp only [Stream.getReadSize, List.length_append]
    omega
  have found : Flat.peek ⟨cs ++ bs ++ rest, cs.length⟩ bs.length = bs := by simp [Flat.peek]
  rw [read, if_neg enough, found, Flat.advance, List.length_append]

theorem pure_consumes (u : α) : Consumes e (pure u) [] u e := by
  intro cs rest
  rw [List.append_nil]
  rfl

theorem Consumes.bind {a : Typed α} {f : α → Typed β} {u : α} {v : β}
    (first : Consumes e a xs u e') (second : Consumes e' (f u) ys v e'') :
    Consumes e (a >>= f) (xs ++ ys) v e'' := by
  intro cs rest
  have rest_of_first := first cs (ys ++ rest)
  have rest_of_second := second (cs ++ xs) rest
  simp only [List.append_assoc] at rest_of_first rest_of_second ⊢
  show EStateM.bind a f _ = _
  rw [EStateM.bind, rest_of_first]
  exact rest_of_second

theorem Consumes.map {a : Typed α} {u : α} (f : α → β) (first : Consumes e a xs u e') :
    Consumes e (a >>= fun u => pure (f u)) xs (f u) e' := by
  rw [← List.append_nil xs]
  exact first.bind (pure_consumes (f u))

/-! ### Fixed width -/

theorem two_pow_bits (n : Nat) : 2 ^ (8 * n) = 256 ^ n := by rw [Nat.pow_mul]

theorem ofMemory_memoryOf {n : Nat} (val : BitVec (8 * n)) : ofMemory n (memoryOf val) = val := by
  have small : val.toNat < 256 ^ n := by
    rw [← two_pow_bits]
    exact val.isLt
  rw [ofMemory, memoryOf, ofOctets_octets small, BitVec.ofNat_toNat, BitVec.setWidth_eq]

theorem memoryOf_ofMemory (buf : List UInt8) : memoryOf (ofMemory buf.length buf) = buf := by
  have small : ofOctets buf < 2 ^ (8 * buf.length) := by
    rw [two_pow_bits]
    exact ofOctets_lt buf
  rw [memoryOf, ofMemory, BitVec.toNat_ofNat, Nat.mod_eq_of_lt small, octets_ofOctets]

theorem length_memoryOf {n : Nat} (val : BitVec (8 * n)) : (memoryOf val).length = n :=
  length_octets n val.toNat

theorem memoryOf_byteswap {n : Nat} (val : BitVec (8 * n)) :
    memoryOf (byteswap val) = (memoryOf val).reverse := by
  have same : (memoryOf val).reverse.length = n := by rw [List.length_reverse, length_memoryOf]
  have back := memoryOf_ofMemory (memoryOf val).reverse
  rw [byteswap]
  rwa [same] at back

theorem byteswap_byteswap {n : Nat} (val : BitVec (8 * n)) : byteswap (byteswap val) = val := by
  rw [byteswap, memoryOf_byteswap, List.reverse_reverse, ofMemory_memoryOf]

def fixedBytes (order e : Endian) {n : Nat} (val : BitVec (8 * n)) : List UInt8 :=
  memoryOf (if e ≠ order then byteswap val else val)

theorem writeFixed_appends {n : Nat} (val : BitVec (8 * n)) :
    Appends e (writeFixed order n val) (fixedBytes order e val) e :=
  fun cs => write_appends _ cs

theorem memory_consumes {n : Nat} (val : BitVec (8 * n)) : 
    Consumes e (read n) (memoryOf val) (memoryOf val) e := by
  have consumes := read_consumes (e := e) (memoryOf val)
  rwa [length_memoryOf] at consumes

theorem readFixed_consumes {n : Nat} (val : BitVec (8 * n)) :
    Consumes e (readFixed order n) (fixedBytes order e val) val e := by
  intro cs rest
  show EStateM.bind (read n) _ _ = _
  rw [EStateM.bind, fixedBytes, memory_consumes _ cs rest]
  show EStateM.Result.ok (if e = order then _ else _) _ = _
  rw [ofMemory_memoryOf]
  by_cases same : e = order
  · rw [if_pos same, if_neg (fun differ => differ same)]
  · rw [if_neg same, if_pos same, byteswap_byteswap]

/-! What a read that returns has read. -/

theorem read_ok {n : Nat} {s t : Stream} {buf : List UInt8} (returned : read n s = .ok buf t) :
    n ≤ s.getReadSize ∧ buf = s.flat.peek n ∧ t = { s with flat := s.flat.advance n } := by
  rw [read] at returned
  split at returned
  · cases returned
  · cases returned
    exact ⟨by omega, rfl, rfl⟩

theorem readFixed_ok {n : Nat} {s t : Stream} {val : BitVec (8 * n)} (returned : readFixed order n s = .ok val t) :
    n ≤ s.getReadSize ∧ t = { s with flat := s.flat.advance n } ∧
      val = if s.endian = order then ofMemory n (s.flat.peek n) else byteswap (ofMemory n (s.flat.peek n)) := by
  change EStateM.bind (read n) _ s = _ at returned
  rw [EStateM.bind] at returned
  split at returned
  · rename_i buf u first
    obtain ⟨enough, rfl, rfl⟩ := read_ok first
    cases returned
    exact ⟨enough, rfl, rfl⟩
  · cases returned

theorem readByte_consumes (val : BitVec 8) :
    Consumes e (read 1 >>= fun buf => pure (ofMemory 1 buf)) (memoryOf (n := 1) val) val e := by
  have consumes := (memory_consumes (e := e) (n := 1) val).map (ofMemory 1)
  rwa [ofMemory_memoryOf] at consumes

/-! ### Variable length -/

theorem toNat_one {w : Nat} (wide : 2 ≤ w) : (1#w).toNat = 1 := by
  rw [BitVec.toNat_ofNat]
  exact Nat.mod_eq_of_lt (Nat.one_lt_two_pow (by omega))

theorem toNat_two {w : Nat} (wide : 2 ≤ w) : (2#w).toNat = 2 := by
  have fits : 2 < 2 ^ w :=
    Nat.lt_of_lt_of_le (by decide : 2 < 2 ^ 2) (Nat.pow_le_pow_right (by decide) wide)
  rw [BitVec.toNat_ofNat, Nat.mod_eq_of_lt fits]

/-- The two halves of the signed range go to the even and to the odd numbers. -/
theorem toNat_encodeZigzap {w : Nat} (wide : 2 ≤ w) (val : BitVec w) :
    (encodeZigzap val).toNat =
      if 2 ^ (w - 1) ≤ val.toNat then 2 * (2 ^ w - val.toNat) - 1 else 2 * val.toNat := by
  have half : 2 ^ w = 2 * 2 ^ (w - 1) := by
    rw [← Nat.pow_succ', Nat.succ_eq_add_one, Nat.sub_add_cancel (by omega)]
  have bound := val.isLt
  have sign : val.slt 0 = decide (2 ^ (w - 1) ≤ val.toNat) := by
    rw [← BitVec.msb_eq_decide]
    exact BitVec.slt_zero_eq_msb
  rw [encodeZigzap, sign]
  by_cases negative : 2 ^ (w - 1) ≤ val.toNat
  · have positive : 0 < 2 ^ (w - 1) := Nat.two_pow_pos _
    rw [if_pos negative, if_pos (decide_eq_true negative), BitVec.toNat_sub, BitVec.toNat_mul,
      BitVec.toNat_neg, toNat_one wide, toNat_two wide, Nat.mod_eq_of_lt (by omega : 2 ^ w - val.toNat < 2 ^ w)]
    by_cases least : val.toNat = 2 ^ (w - 1)
    · -- `-val` overflows back to `val`, and twice that wraps to 0.
      have wraps : (2 ^ w - val.toNat) * 2 = 2 ^ w := by omega
      rw [wraps, Nat.mod_self, Nat.add_zero, Nat.mod_eq_of_lt (by omega)]
      omega
    · rw [Nat.mod_eq_of_lt (by omega : (2 ^ w - val.toNat) * 2 < 2 ^ w),
        show 2 ^ w - 1 + (2 ^ w - val.toNat) * 2 = 2 * (2 ^ w - val.toNat) - 1 + 2 ^ w by omega,
        Nat.add_mod_right, Nat.mod_eq_of_lt (by omega)]
  · rw [if_neg negative, if_neg (by simpa using negative), BitVec.toNat_mul, toNat_two wide,
      Nat.mod_eq_of_lt (by omega), Nat.mul_comm]

theorem toNat_decodeZigzap {w : Nat} (wide : 2 ≤ w) (val : BitVec w) :
    (decodeZigzap val).toNat =
      if val.toNat % 2 = 1 then 2 ^ w - 1 - val.toNat / 2 else val.toNat / 2 := by
  have lowest : (val &&& 1#w).toNat = val.toNat % 2 := by
    rw [BitVec.toNat_and, toNat_one wide]
    exact Nat.and_two_pow_sub_one_eq_mod val.toNat 1
  have shifted : (val >>> 1).toNat = val.toNat / 2 := by
    rw [BitVec.toNat_ushiftRight]
    rfl
  rw [decodeZigzap]
  split
  · rename_i odd
    have mask : val &&& 1#w = 1#w := BitVec.eq_of_toNat_eq (by rw [lowest, odd, toNat_one wide])
    rw [mask, BitVec.neg_one_eq_allOnes, BitVec.xor_allOnes, BitVec.toNat_not, shifted]
  · rename_i even
    have mask : val &&& 1#w = 0#w := BitVec.eq_of_toNat_eq (by rw [lowest, BitVec.toNat_zero]; omega)
    rw [mask, BitVec.neg_zero, BitVec.xor_zero, shifted]

theorem decodeZigzap_encodeZigzap {w : Nat} (wide : 2 ≤ w) (val : BitVec w) :
    decodeZigzap (encodeZigzap val) = val := by
  apply BitVec.eq_of_toNat_eq
  have bound := val.isLt
  rw [toNat_decodeZigzap wide, toNat_encodeZigzap wide]
  split <;> split <;> omega

theorem readFuint8_consumes (b : UInt8) : Consumes e readFuint8 [b] b.toBitVec e := by
  have stored : memoryOf (n := 1) b.toBitVec = [b] := by
    simp [memoryOf, octets]
  have consumes := readByte_consumes (e := e) b.toBitVec
  rwa [stored] at consumes

/-! One round of the reading loop, by whether its byte is the last. -/

theorem readGroups_last {w rounds i : Nat} {res : BitVec w} {b : UInt8} (inside : i < w) (last : b.toBitVec < 0x80#8) :
    Consumes e (readGroups readFuint8 (rounds + 1) i res) [b] (res ||| b.toBitVec.setWidth w <<< i) e := by
  rw [readGroups, if_pos inside]
  show Consumes e _ ([b] ++ []) _ e
  refine (readFuint8_consumes b).bind ?_
  rw [if_pos last]
  exact pure_consumes _

theorem readGroups_more {w rounds i : Nat} {res v : BitVec w} {b : UInt8} {bs : List UInt8} (inside : i < w)
    (unfinished : ¬ b.toBitVec < 0x80#8)
    (rest : Consumes e (readGroups readFuint8 rounds (i + 7) (res ||| (b.toBitVec.setWidth w &&& 0x7f#w) <<< i)) bs v e) :
    Consumes e (readGroups readFuint8 (rounds + 1) i res) (b :: bs) v e := by
  rw [readGroups, if_pos inside]
  show Consumes e _ ([b] ++ bs) _ e
  refine (readFuint8_consumes b).bind ?_
  rw [if_neg unfinished]
  exact rest

theorem toNat_or_shiftLeft {w i : Nat} {res x : BitVec w} (low : res.toNat < 2 ^ i)
    (fits : x.toNat * 2 ^ i < 2 ^ w) : (res ||| x <<< i).toNat = res.toNat + x.toNat * 2 ^ i := by
  rw [BitVec.toNat_or, BitVec.toNat_shiftLeft, Nat.shiftLeft_eq, Nat.mod_eq_of_lt fits, Nat.or_comm,
    Nat.mul_comm, ← Nat.two_pow_add_eq_or_of_lt low, Nat.add_comm]

theorem two_pow_gt {w : Nat} (wide : 8 ≤ w) : 128 < 2 ^ w :=
  Nat.lt_of_lt_of_le (by decide : 128 < 2 ^ 8) (Nat.pow_le_pow_right (by decide) wide)

theorem toNat_limit {w : Nat} (wide : 8 ≤ w) : (0x80#w).toNat = 128 := by
  rw [BitVec.toNat_ofNat]
  exact Nat.mod_eq_of_lt (two_pow_gt wide)

theorem toNat_and_mask {w : Nat} (wide : 8 ≤ w) (val : BitVec w) :
    (val &&& 0x7f#w).toNat = val.toNat % 128 := by
  have fits : 127 < 2 ^ w := Nat.lt_of_succ_lt (two_pow_gt wide)
  rw [BitVec.toNat_and, BitVec.toNat_ofNat, Nat.mod_eq_of_lt fits]
  exact Nat.and_two_pow_sub_one_eq_mod val.toNat 7

/-- The byte stored for a group that is not the last. -/
theorem toNat_group {w : Nat} (wide : 8 ≤ w) (val : BitVec w) :
    (((val &&& 0x7f#w) ||| 0x80#w).setWidth 8).toNat = val.toNat % 128 + 128 := by
  have small : val.toNat % 128 < 2 ^ 7 := Nat.mod_lt _ (by decide)
  rw [BitVec.toNat_setWidth, BitVec.toNat_or, toNat_and_mask wide, toNat_limit wide, Nat.or_comm]
  have joined : 128 + val.toNat % 128 = 128 ||| val.toNat % 128 :=
    Nat.two_pow_add_eq_or_of_lt small 1
  omega

theorem toNat_payload {w : Nat} (wide : 8 ≤ w) {val : BitVec w} {b : BitVec 8}
    (group : b.toNat = val.toNat % 128 + 128) : (b.setWidth w &&& 0x7f#w).toNat = val.toNat % 128 := by
  have small : b.toNat < 2 ^ w := Nat.lt_of_lt_of_le b.isLt (Nat.pow_le_pow_right (by decide) wide)
  rw [toNat_and_mask wide, BitVec.toNat_setWidth, Nat.mod_eq_of_lt small, group]
  omega

theorem last_group {w : Nat} {val : BitVec w} (small : val.toNat < 128) :
    val.setWidth 8 < 0x80#8 ∧ (val.setWidth 8).setWidth w = val := by
  have byte : (val.setWidth 8).toNat = val.toNat := by
    rw [BitVec.toNat_setWidth]
    omega
  refine ⟨?_, ?_⟩
  · rw [BitVec.lt_def, byte]
    exact small
  · apply BitVec.eq_of_toNat_eq
    rw [BitVec.toNat_setWidth, byte, Nat.mod_eq_of_lt val.isLt]

theorem toNat_ushiftRight_seven {w : Nat} (val : BitVec w) : (val >>> 7).toNat = val.toNat / 128 := by
  rw [BitVec.toNat_ushiftRight, Nat.shiftRight_eq_div_pow]

/-- A number is its low group and the rest, each at its place. -/
theorem group_add_rest (n i : Nat) : n % 128 * 2 ^ i + n / 128 * 2 ^ (i + 7) = n * 2 ^ i := by
  have place : 2 ^ (i + 7) = 128 * 2 ^ i := by rw [Nat.pow_add, Nat.mul_comm]
  rw [place, ← Nat.mul_assoc, ← Nat.add_mul, Nat.mul_comm (_ / _), Nat.mod_add_div]

/-- `temp` is never overrun: `room` groups of seven bits hold the value. -/
theorem groups_isSome {w room : Nat} (wide : 8 ≤ w) (val : BitVec w)
    (fits : val.toNat < 2 ^ (7 * (room + 1))) : ∃ temp, groups (room + 1) val = some temp := by
  have limit := toNat_limit wide
  induction room generalizing val with
  | zero =>
    have small : ¬val ≥ 0x80#w := by
      rw [ge_iff_le, BitVec.le_def, limit]
      omega
    exact ⟨_, by rw [groups, if_neg small]⟩
  | succ room ih =>
    rw [groups]
    split
    · have rest : (val >>> 7).toNat < 2 ^ (7 * (room + 1)) := by
        rw [toNat_ushiftRight_seven]
        apply Nat.div_lt_of_lt_mul
        rwa [show 128 * 2 ^ (7 * (room + 1)) = 2 ^ (7 * (room + 1 + 1)) by
          rw [Nat.mul_add 7 (room + 1), Nat.pow_add, Nat.mul_comm]]
      obtain ⟨temp, stored⟩ := ih (val >>> 7) rest
      exact ⟨_, by rw [stored]; rfl⟩
    · exact ⟨_, rfl⟩

/-- The invariant of the reading loop: `res` holds the bits below `i`, the bytes that are left hold
`val`, and both together fit. -/
theorem readGroups_consumes {w room rounds i : Nat} {val res : BitVec w} {temp : List UInt8}
    (wide : 8 ≤ w) (stored : groups room val = some temp) (enough : w ≤ 7 * rounds + i)
    (inside : i < w) (low : res.toNat < 2 ^ i) (high : val.toNat * 2 ^ i < 2 ^ w) :
    Consumes e (readGroups readFuint8 rounds i res) temp (BitVec.ofNat w (res.toNat + val.toNat * 2 ^ i)) e := by
  have limit := toNat_limit wide
  have positive : 0 < 2 ^ i := Nat.two_pow_pos i
  induction room generalizing val res temp rounds i with
  | zero => exact absurd stored (by simp [groups])
  | succ room ih =>
    obtain ⟨rounds, rfl⟩ : ∃ n, rounds = n + 1 := ⟨rounds - 1, by omega⟩
    rw [groups] at stored
    by_cases more : val ≥ 0x80#w
    · rw [if_pos more] at stored
      obtain ⟨later, remaining, rfl⟩ := Option.map_eq_some_iff.mp stored
      rw [ge_iff_le, BitVec.le_def, limit] at more
      have group := toNat_group wide val
      generalize ((val &&& 0x7f#w) ||| 0x80#w).setWidth 8 = b at group
      have unfinished : ¬b < 0x80#8 := by
        rw [BitVec.lt_def, group]
        exact Nat.not_lt.mpr (Nat.le_add_left _ _)
      have payload := toNat_payload wide group
      have shifted := toNat_ushiftRight_seven val
      have total := group_add_rest val.toNat i
      have place : 2 ^ (i + 7) = 128 * 2 ^ i := by rw [Nat.pow_add, Nat.mul_comm]
      have accumulated := toNat_or_shiftLeft (x := b.setWidth w &&& 0x7f#w) low
        (by rw [payload]; omega)
      rw [payload] at accumulated
      have below : (res ||| (b.setWidth w &&& 0x7f#w) <<< i).toNat < 2 ^ (i + 7) := by
        have : val.toNat % 128 * 2 ^ i ≤ 127 * 2 ^ i := Nat.mul_le_mul_right _ (by omega)
        omega
      have room_left : i + 7 < w := by
        have : 128 * 2 ^ i ≤ val.toNat * 2 ^ i := Nat.mul_le_mul_right _ more
        exact (Nat.pow_lt_pow_iff_right (by decide)).mp (by omega : 2 ^ (i + 7) < 2 ^ w)
      have rest := ih remaining (by omega : w ≤ 7 * rounds + (i + 7)) room_left below
        (by rw [shifted]; omega) (Nat.two_pow_pos _)
      rw [shifted, accumulated, Nat.add_assoc, total] at rest
      exact readGroups_more inside unfinished rest
    · rw [if_neg more] at stored
      obtain rfl := Option.some.inj stored
      rw [ge_iff_le, BitVec.le_def, limit] at more
      obtain ⟨last, payload⟩ := last_group (Nat.not_le.mp more)
      have result : BitVec.ofNat w (res.toNat + val.toNat * 2 ^ i) = res ||| (val.setWidth 8).setWidth w <<< i := by
        rw [payload, ← toNat_or_shiftLeft low high, BitVec.ofNat_toNat, BitVec.setWidth_eq]
      rw [result]
      exact readGroups_last inside last

theorem varint_roundTrips {w room : Nat} (wide : 8 ≤ w) (enough : w ≤ 7 * (room + 1)) (val : BitVec w) :
    ∃ bs, Appends e (writeVarint (room + 1) val) bs e ∧ Consumes e (readVarint w) bs val e := by
  have fits : val.toNat < 2 ^ (7 * (room + 1)) :=
    Nat.lt_of_lt_of_le val.isLt (Nat.pow_le_pow_right (by decide) enough)
  obtain ⟨temp, stored⟩ := groups_isSome wide val fits
  refine ⟨temp, ?_, ?_⟩
  · rw [writeVarint, stored]
    exact write_appends temp
  · have consumes : Consumes e (readGroups readFuint8 w 0 0#w) temp
        (BitVec.ofNat w ((0#w).toNat + val.toNat * 2 ^ 0)) e :=
      readGroups_consumes wide stored (by omega) (by omega) (by simp) (by simpa using val.isLt)
    rwa [BitVec.toNat_zero, pow_zero, Nat.mul_one, Nat.zero_add, BitVec.ofNat_toNat,
      BitVec.setWidth_eq] at consumes

theorem zigzag_roundTrips {w room : Nat} (wide : 8 ≤ w) (enough : w ≤ 7 * (room + 1)) (val : BitVec w) :
    ∃ bs, Appends e (writeVarint (room + 1) (encodeZigzap val)) bs e ∧
      Consumes e (readVarint w >>= fun val => pure (decodeZigzap val)) bs val e := by
  obtain ⟨bs, appends, consumes⟩ := varint_roundTrips (e := e) wide enough (encodeZigzap val)
  have decoded := consumes.map decodeZigzap
  rw [decodeZigzap_encodeZigzap (by omega)] at decoded
  exact ⟨bs, appends, decoded⟩

/-! ### Strings -/

/-- A length prefix of `n` bytes brings back every string whose length it holds. -/
theorem string_roundTrips {n : Nat} {val : List UInt8} (fits : val.length < 2 ^ (8 * n)) :
    ∃ bs, Appends e (writeFixed order n (BitVec.ofNat _ val.length) >>= fun _ => write val) bs e ∧
      Consumes e (readFixed order n >>= fun len => read len.toNat) bs val e := by
  refine ⟨_, (writeFixed_appends _).seq (write_appends val), (readFixed_consumes _).bind ?_⟩
  rw [BitVec.toNat_ofNat, Nat.mod_eq_of_lt fits]
  exact read_consumes val

/-! ### Lists of values -/

theorem kind_roundTrips (order e : Endian) (k : Kind) (val : k.Carrier) (fits : k.Fits val) :
    ∃ bs, Appends e (k.write order val) bs e ∧ Consumes e (k.read order) bs val e := by
  have fixed (n : Nat) (val : BitVec (8 * n)) :
      ∃ bs, Appends e (writeFixed order n val) bs e ∧ Consumes e (readFixed order n) bs val e :=
    ⟨_, writeFixed_appends val, readFixed_consumes val⟩
  cases k with
  | fint8 => exact ⟨_, write_appends _, readByte_consumes val⟩
  | fuint8 => exact ⟨_, write_appends _, readByte_consumes val⟩
  | fint16 => exact fixed 2 val
  | fuint16 => exact fixed 2 val
  | fint32 => exact fixed 4 val
  | fuint32 => exact fixed 4 val
  | fint64 => exact fixed 8 val
  | fuint64 => exact fixed 8 val
  | int32 => exact zigzag_roundTrips (by decide) (by decide) val
  | uint32 => exact varint_roundTrips (by decide) (by decide) val
  | int64 => exact zigzag_roundTrips (by decide) (by decide) val
  | uint64 => exact varint_roundTrips (by decide) (by decide) val
  | float => exact fixed 4 val
  | double => exact fixed 8 val
  | stringF16 => exact string_roundTrips (n := 2) fits
  | stringF32 => exact string_roundTrips (n := 4) fits
  | stringF64 => exact string_roundTrips (n := 8) fits

theorem setIsLittleEndian_appends (little : Bool) :
    Appends e (setIsLittleEndian little) [] (if little then .little else .big) := by
  intro cs
  rw [List.append_nil]
  rfl

theorem setIsLittleEndian_consumes (little : Bool) :
    Consumes e (setIsLittleEndian little) [] () (if little then .little else .big) := by
  intro cs rest
  rw [List.append_nil]
  rfl

theorem all_roundTrips (order : Endian) (items : List Item) :
    ∃ bs, (∀ e, ∃ e', Appends e (writeAll order items) bs e') ∧
      ∀ e, ∃ e', Consumes e (readAll order (items.map Item.call)) bs (items.map Item.value) e' := by
  induction items with
  | nil => exact ⟨[], fun e => ⟨e, fun cs => by rw [List.append_nil]; rfl⟩, fun e => ⟨e, pure_consumes []⟩⟩
  | cons item rest ih =>
    obtain ⟨later, written, found⟩ := ih
    obtain ⟨bs, appends, consumes⟩ := kind_roundTrips order (if item.little then .little else .big)
      item.kind item.val item.fits
    refine ⟨[] ++ (bs ++ later), fun e => ?_, fun e => ?_⟩
    · obtain ⟨e', written⟩ := written (if item.little then .little else .big)
      exact ⟨e', (setIsLittleEndian_appends item.little).seq (appends.seq written)⟩
    · obtain ⟨e', found⟩ := found (if item.little then .little else .big)
      exact ⟨e', (setIsLittleEndian_consumes item.little).bind (consumes.bind (found.map _))⟩

/-- Values of any types, each written under any setting, come back bit for bit when the buffer is
read from the start under the same settings, and nothing is left unread. -/
theorem typed_values_return (order e : Endian) (items : List Item) :
    ∃ written, writeAll order items (Stream.empty e) = .ok () written ∧
      ∃ rewound, rewind written = .ok () rewound ∧
        ∃ s, readAll order (items.map Item.call) rewound = .ok (items.map Item.value) s ∧
          s.getReadSize = 0 := by
  obtain ⟨bs, written, found⟩ := all_roundTrips order items
  obtain ⟨e', written⟩ := written e
  obtain ⟨e'', found⟩ := found e'
  refine ⟨_, written [], _, rfl, _, found [] [], ?_⟩
  rw [Stream.getReadSize, List.append_nil, Nat.sub_self]

end Typed

end Cool.ByteArray
