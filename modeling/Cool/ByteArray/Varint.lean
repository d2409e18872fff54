import Cool.ByteArray.Vint
import Mathlib.Data.Nat.Digits.Lemmas
import Mathlib.Data.Nat.Size

/-!
# Varints

`read_uint32` and `read_uint64` on bytes that no `write_uint32` or `write_uint64` has written, the length of what these
write, and the signed arithmetic of `EncodeZigzap32` and `EncodeZigzap64`.
-/

namespace Cool.ByteArray.Typed

variable {e : Endian} {w limit rounds i : Nat} {b : UInt8} {bs : List UInt8}

/-! ### Reading -/

/-- A left shift, which is undefined from the width of the type on. -/
def definedShift (x : BitVec w) (i : Nat) : Option (BitVec w) := if i < w then some (x <<< i) else none

/-- The loop of `read_uint32` and `read_uint64` with its shifts checked. -/
def readGroupsChecked : (rounds i : Nat) → (res : BitVec w) → Typed (Option (BitVec w))
  | 0, _, res => return some res
  | rounds + 1, i, res =>
    if i < w then do
      let b ← readFuint8
      if b < 0x80#8 then return (definedShift (b.setWidth w) i).map (res ||| ·)
      else
        match definedShift (b.setWidth w &&& 0x7f#w) i with
        | none => return none
        | some group => readGroupsChecked rounds (i + 7) (res ||| group)
    else return some res

/-- Of the first `limit` bytes, those up to the first one below `0x80`, and all of them if there is none. -/
def varintOf (limit : Nat) (bs : List UInt8) : List UInt8 :=
  (bs.take limit).takeWhile (0x80 ≤ ·) ++ ((bs.take limit).dropWhile (0x80 ≤ ·)).take 1

/-- The bytes do not end inside of a varint. -/
def Complete (limit : Nat) (bs : List UInt8) : Prop := (∃ b ∈ bs.take limit, b < 0x80) ∨ limit ≤ bs.length

/-- Seven bits of every byte, the first byte being the least significant. -/
def payload (bs : List UInt8) : Nat := (bs.mapIdx fun i b => b.toNat % 128 * 2 ^ (7 * i)).sum

theorem readGroupsChecked_eq (rounds i : Nat) (res : BitVec w) :
    readGroupsChecked rounds i res = readGroups readFuint8 rounds i res >>= fun val => pure (some val) := by
  induction rounds generalizing i res with
  | zero => rfl
  | succ rounds ih =>
    rw [readGroupsChecked, readGroups]
    by_cases inside : i < w
    · rw [if_pos inside, if_pos inside]
      simp only [definedShift, if_pos inside, Option.map_some]
      funext s
      show EStateM.bind readFuint8 _ s = EStateM.bind (EStateM.bind readFuint8 _) _ s
      simp only [EStateM.bind]
      cases readFuint8 s with
      | error halt t => rfl
      | ok b t =>
        dsimp only
        by_cases last : b < 0x80#8
        · rw [if_pos last, if_pos last]
          rfl
        · rw [if_neg last, if_neg last, ih]
          rfl
    · rw [if_neg inside, if_neg inside]
      rfl

theorem varintOf_zero (bs : List UInt8) : varintOf 0 bs = [] := by simp [varintOf]

theorem varintOf_cons (limit : Nat) (b : UInt8) (bs : List UInt8) :
    varintOf (limit + 1) (b :: bs) = if b < 0x80 then [b] else b :: varintOf limit bs := by
  by_cases last : b < 0x80
  · simp [varintOf, last]
  · simp [varintOf, last, UInt8.not_lt.mp last]

theorem payload_eq (bs : List UInt8) : payload bs = Nat.ofDigits 128 (bs.map fun b => b.toNat % 128) := by
  have terms : bs.mapIdx (fun i b => b.toNat % 128 * 2 ^ (7 * i)) =
      (bs.map fun b => b.toNat % 128).mapIdx fun i d => d * 128 ^ i := by
    apply List.ext_getElem?
    intro i
    simp [Nat.pow_mul, Function.comp_def]
  rw [payload, terms, Nat.ofDigits_eq_sum_mapIdx]

theorem payload_cons (b : UInt8) (bs : List UInt8) : payload (b :: bs) = b.toNat % 128 + 128 * payload bs := by
  rw [payload_eq, payload_eq, List.map_cons, Nat.ofDigits_cons]

theorem payload_lt (bs : List UInt8) : payload bs < 128 ^ bs.length := by
  rw [payload_eq, ← List.length_map (fun b : UInt8 => b.toNat % 128)]
  refine Nat.ofDigits_lt_base_pow_length (by decide) fun d member => ?_
  obtain ⟨b, -, rfl⟩ := List.mem_map.mp member
  exact Nat.mod_lt _ (by decide)

theorem Complete.cons (complete : Complete (limit + 1) bs) :
    ∃ b rest, bs = b :: rest ∧ (b < 0x80 ∨ Complete limit rest) := by
  cases bs with
  | nil => rcases complete with ⟨b, member, _⟩ | long <;> simp_all
  | cons b rest =>
    refine ⟨b, rest, rfl, ?_⟩
    rcases complete with ⟨c, member, small⟩ | long
    · rw [List.take_succ_cons] at member
      rcases List.mem_cons.mp member with rfl | later
      · exact .inl small
      · exact .inr (.inl ⟨c, later, small⟩)
    · exact .inr (.inr (Nat.le_of_succ_le_succ long))

/-- Bits below `i` and a group at `i`; what does not fit is cut off. -/
theorem toNat_or_group {res x : BitVec w} (low : res.toNat < 2 ^ i) (inside : i ≤ w) :
    (res ||| x <<< i).toNat = (res.toNat + x.toNat * 2 ^ i) % 2 ^ w := by
  have place : 2 ^ w = 2 ^ i * 2 ^ (w - i) := by rw [← Nat.pow_add, Nat.add_sub_cancel' inside]
  have cut : x.toNat * 2 ^ i % 2 ^ w = 2 ^ i * (x.toNat % 2 ^ (w - i)) := by
    rw [place, Nat.mul_comm, Nat.mul_mod_mul_left]
  have kept : res.toNat + x.toNat * 2 ^ i % 2 ^ w < 2 ^ w := by
    have small : x.toNat % 2 ^ (w - i) + 1 ≤ 2 ^ (w - i) := Nat.mod_lt _ (Nat.two_pow_pos _)
    calc res.toNat + x.toNat * 2 ^ i % 2 ^ w < 2 ^ i + 2 ^ i * (x.toNat % 2 ^ (w - i)) := by omega
      _ = 2 ^ i * (x.toNat % 2 ^ (w - i) + 1) := by rw [Nat.mul_add, Nat.mul_one, Nat.add_comm]
      _ ≤ 2 ^ w := by
        rw [place]
        exact Nat.mul_le_mul_left _ small
  rw [BitVec.toNat_or, BitVec.toNat_shiftLeft, Nat.shiftLeft_eq, cut, Nat.or_comm, ← Nat.two_pow_add_eq_or_of_lt low,
    ← cut, Nat.add_comm, ← Nat.mod_eq_of_lt kept, Nat.add_mod_mod]

theorem toNat_widened (wide : 8 ≤ w) (b : UInt8) : (b.toBitVec.setWidth w).toNat = b.toNat := by
  rw [BitVec.toNat_setWidth]
  exact Nat.mod_eq_of_lt (Nat.lt_of_lt_of_le b.toNat_lt (Nat.pow_le_pow_right (by decide) wide))

/-- The invariant of the reading loop on any bytes: `res` holds the bits below `i`, and `limit` rounds are left. -/
theorem readGroups_decodes {res : BitVec w} (wide : 8 ≤ w) (complete : Complete limit bs) (fuel : limit ≤ rounds)
    (enough : w ≤ 7 * limit + i) (needed : 7 * limit + i < w + 7) (low : res.toNat < 2 ^ i) :
    Consumes e (readGroups readFuint8 rounds i res) (varintOf limit bs)
      (BitVec.ofNat w (res.toNat + payload (varintOf limit bs) * 2 ^ i)) e := by
  induction limit generalizing rounds i res bs with
  | zero =>
    have done : readGroups readFuint8 rounds i res = pure res := by
      cases rounds with
      | zero => rfl
      | succ rounds => rw [readGroups, if_neg (by omega)]
    rw [done, varintOf_zero]
    simpa [payload] using pure_consumes (e := e) res
  | succ limit ih =>
    obtain ⟨rounds, rfl⟩ : ∃ n, rounds = n + 1 := ⟨rounds - 1, by omega⟩
    obtain ⟨b, rest, rfl, later⟩ := complete.cons
    have inside : i < w := by omega
    have widened := toNat_widened wide b
    rw [varintOf_cons]
    by_cases last : b < 0x80
    · have small : b.toNat < 128 := last
      have result : res ||| b.toBitVec.setWidth w <<< i = BitVec.ofNat w (res.toNat + payload [b] * 2 ^ i) := by
        apply BitVec.eq_of_toNat_eq
        rw [toNat_or_group low (by omega), widened, BitVec.toNat_ofNat, payload_cons, Nat.mod_eq_of_lt small]
        rfl
      rw [if_pos last, ← result]
      exact readGroups_last inside last
    · have group : (b.toBitVec.setWidth w &&& 0x7f#w).toNat = b.toNat % 128 := by rw [toNat_and_mask wide, widened]
      have accumulated := toNat_or_group (x := b.toBitVec.setWidth w &&& 0x7f#w) low (by omega : i ≤ w)
      rw [group] at accumulated
      have place : 2 ^ (i + 7) = 128 * 2 ^ i := by rw [Nat.pow_add, Nat.mul_comm]
      have below : (res ||| (b.toBitVec.setWidth w &&& 0x7f#w) <<< i).toNat < 2 ^ (i + 7) := by
        have seven : b.toNat % 128 * 2 ^ i ≤ 127 * 2 ^ i := Nat.mul_le_mul_right _ (by omega)
        have cut := Nat.mod_le (res.toNat + b.toNat % 128 * 2 ^ i) (2 ^ w)
        omega
      have rest_of := ih (later.resolve_left last) (by omega : limit ≤ rounds) (by omega : w ≤ 7 * limit + (i + 7))
        (by omega) below
      have total : BitVec.ofNat w ((res ||| (b.toBitVec.setWidth w &&& 0x7f#w) <<< i).toNat +
          payload (varintOf limit rest) * 2 ^ (i + 7)) =
            BitVec.ofNat w (res.toNat + payload (b :: varintOf limit rest) * 2 ^ i) := by
        apply BitVec.eq_of_toNat_eq
        rw [accumulated, BitVec.toNat_ofNat, BitVec.toNat_ofNat, Nat.mod_add_mod, payload_cons, place]
        ring_nf
      rw [total] at rest_of
      rw [if_neg last]
      exact readGroups_more inside last rest_of

theorem varintOf_append (limit : Nat) (bs : List UInt8) : ∃ rest, varintOf limit bs ++ rest = bs := by
  refine ⟨((bs.take limit).dropWhile (0x80 ≤ ·)).drop 1 ++ bs.drop limit, ?_⟩
  rw [varintOf, List.append_assoc, ← List.append_assoc (List.take 1 _), List.take_append_drop, ← List.append_assoc,
    List.takeWhile_append_dropWhile, List.take_append_drop]

theorem length_varintOf_le (limit : Nat) (front rest : List UInt8) {last : UInt8} (small : last < 0x80) :
    (varintOf limit (front ++ last :: rest)).length ≤ front.length + 1 := by
  induction front generalizing limit with
  | nil =>
    cases limit with
    | zero => simp [varintOf_zero]
    | succ limit => simp [varintOf_cons, small]
  | cons b front ih =>
    cases limit with
    | zero => simp [varintOf_zero]
    | succ limit =>
      rw [List.cons_append, varintOf_cons]
      split
      · simp
      · exact Nat.succ_le_succ (ih limit)

/-- What is expected of `read_uint32` and `read_uint64`, with `act` the reader and `checked` the reader with its
shifts checked. -/
def Decodes (limit : Nat) (act : Typed (BitVec w)) (checked : Typed (Option (BitVec w))) (bs : List UInt8) : Prop :=
  ∀ e cs, act ⟨⟨cs ++ bs, cs.length⟩, e⟩ = .ok (BitVec.ofNat w (payload (varintOf limit bs)))
      ⟨⟨cs ++ bs, cs.length + (varintOf limit bs).length⟩, e⟩ ∧
    checked ⟨⟨cs ++ bs, cs.length⟩, e⟩ = .ok (some (BitVec.ofNat w (payload (varintOf limit bs))))
      ⟨⟨cs ++ bs, cs.length + (varintOf limit bs).length⟩, e⟩

theorem readVarint_decodes (wide : 8 ≤ w) (enough : w ≤ 7 * limit) (needed : 7 * limit < w + 7)
    (complete : Complete limit bs) : Decodes limit (readVarint w) (readGroupsChecked w 0 0#w) bs := by
  intro e cs
  have consumes : Consumes e (readGroups readFuint8 w 0 0#w) (varintOf limit bs) _ e :=
    readGroups_decodes wide complete (by omega) enough needed (by simp)
  rw [BitVec.toNat_zero, Nat.pow_zero, Nat.mul_one, Nat.zero_add] at consumes
  have checked := consumes.map some
  rw [← readGroupsChecked_eq] at checked
  obtain ⟨rest, split⟩ := varintOf_append limit bs
  have all : cs ++ varintOf limit bs ++ rest = cs ++ bs := by rw [List.append_assoc, split]
  refine ⟨?_, ?_⟩
  · have ran := consumes cs rest
    rwa [all, List.length_append] at ran
  · have ran := checked cs rest
    rwa [all, List.length_append] at ran

/-! ### Writing -/

theorem groups_ge {room : Nat} {val : BitVec w} {temp : List UInt8} (wide : 8 ≤ w)
    (stored : groups room val = some temp) :
    temp.length = 1 ∨ 2 ≤ temp.length ∧ 128 ^ (temp.length - 1) ≤ val.toNat := by
  induction room generalizing val temp with
  | zero => cases stored
  | succ room ih =>
    rcases groups_cases wide stored with ⟨last, rfl, _⟩ | ⟨first, later, rfl, _, large, remaining⟩
    · exact .inl rfl
    · have rest := ih remaining
      rw [toNat_ushiftRight_seven] at rest
      refine .inr ?_
      rw [List.length_cons, Nat.add_sub_cancel]
      rcases rest with one | ⟨more, bound⟩
      · rw [one]
        exact ⟨by omega, by omega⟩
      · have power : 128 ^ later.length = 128 * 128 ^ (later.length - 1) := by
          rw [← Nat.pow_succ', Nat.succ_eq_add_one, Nat.sub_add_cancel (by omega)]
        exact ⟨by omega, by omega⟩

/-- One byte for every seven bits, and at least one. -/
theorem length_groups {room : Nat} {val : BitVec w} {temp : List UInt8} (wide : 8 ≤ w)
    (stored : groups room val = some temp) : temp.length = max 1 ((val.toNat.size + 6) / 7) := by
  have above : val.toNat.size ≤ 7 * temp.length := by
    rw [Nat.size_le, Nat.pow_mul]
    exact groups_lt wide stored
  rcases groups_ge wide stored with one | ⟨more, bound⟩
  · omega
  · have below : 7 * (temp.length - 1) < val.toNat.size := by
      rw [Nat.lt_size, Nat.pow_mul]
      exact bound
    omega

theorem length_groups_le {room : Nat} {val : BitVec w} {temp : List UInt8} (stored : groups room val = some temp) :
    temp.length ≤ room := by
  induction room generalizing val temp with
  | zero => cases stored
  | succ room ih =>
    rw [groups] at stored
    split at stored
    · obtain ⟨later, remaining, rfl⟩ := Option.map_eq_some_iff.mp stored
      exact Nat.succ_le_succ (ih remaining)
    · cases stored
      exact Nat.succ_le_succ (Nat.zero_le _)

/-- What is expected of `write_uint32` and `write_uint64`: `temp` is not overrun, and no shorter varint would do. -/
def Shortest (limit : Nat) (write : BitVec w → Typed Unit) (read : Typed (BitVec w)) (val : BitVec w) : Prop :=
  ∃ temp, groups limit val = some temp ∧ (∀ e, Appends e (write val) temp e) ∧
    temp.length = max 1 ((val.toNat.size + 6) / 7) ∧ temp.length ≤ limit ∧
    ∀ front last rest, front.length + 1 < temp.length → last < 0x80 →
      ∀ e cs, ∃ other t, read ⟨⟨cs ++ (front ++ last :: rest), cs.length⟩, e⟩ = .ok other t ∧ other ≠ val

theorem writeVarint_shortest {room : Nat} (wide : 8 ≤ w) (enough : w ≤ 7 * (room + 1)) (needed : 7 * room < w)
    (val : BitVec w) : Shortest (room + 1) (writeVarint (room + 1)) (readVarint w) val := by
  have fits : val.toNat < 2 ^ (7 * (room + 1)) :=
    Nat.lt_of_lt_of_le val.isLt (Nat.pow_le_pow_right (by decide) enough)
  obtain ⟨temp, stored⟩ := groups_isSome wide val fits
  have appends (e : Endian) : Appends e (writeVarint (room + 1) val) temp e := by
    rw [writeVarint, stored]
    exact write_appends temp
  have short := length_groups_le stored
  refine ⟨temp, stored, appends, length_groups wide stored, short, ?_⟩
  intro front last rest fewer small e cs
  have complete : Complete (room + 1) (front ++ last :: rest) := by
    refine .inl ⟨last, ?_, small⟩
    rw [List.take_append, List.take_cons (by omega)]
    simp
  obtain ⟨returned, -⟩ := readVarint_decodes wide enough (by omega) complete e cs
  refine ⟨_, _, returned, fun same => ?_⟩
  -- fewer groups than the value needs are less than the value
  have value : payload (varintOf (room + 1) (front ++ last :: rest)) % 2 ^ w = val.toNat := by
    rw [← same, BitVec.toNat_ofNat]
  have below : payload (varintOf (room + 1) (front ++ last :: rest)) < 128 ^ (temp.length - 1) :=
    Nat.lt_of_lt_of_le (payload_lt _) (Nat.pow_le_pow_right (by decide)
      (Nat.le_sub_one_of_lt (Nat.lt_of_le_of_lt (length_varintOf_le (room + 1) front rest small) fewer)))
  have cut := Nat.mod_le (payload (varintOf (room + 1) (front ++ last :: rest))) (2 ^ w)
  rcases groups_ge wide stored with one | ⟨more, bound⟩
  · omega
  · omega

/-- Any complete bytes are decoded as far as the first one below `0x80`, and every value is written in the fewest
bytes. -/
theorem varints_decode :
    (∀ bs, Complete 5 bs → Decodes 5 readUint32 (readGroupsChecked 32 0 0#32) bs) ∧
      (∀ bs, Complete 10 bs → Decodes 10 readUint64 (readGroupsChecked 64 0 0#64) bs) ∧
      (∀ val, Shortest 5 writeUint32 readUint32 val) ∧ ∀ val, Shortest 10 writeUint64 readUint64 val := by
  refine ⟨fun bs complete => ?_, fun bs complete => ?_, fun val => ?_, fun val => ?_⟩
  · exact readVarint_decodes (by decide) (by decide) (by decide) complete
  · exact readVarint_decodes (by decide) (by decide) (by decide) complete
  · exact writeVarint_shortest (by decide) (by decide) (by decide) val
  · exact writeVarint_shortest (by decide) (by decide) (by decide) val

/-- Six bytes without an end: five are taken, and of the last one four bits. -/
theorem varints_decode_endless :
    Complete 5 (List.replicate 6 0xff) ∧ Decodes 5 readUint32 (readGroupsChecked 32 0 0#32) (List.replicate 6 0xff) ∧
      varintOf 5 (List.replicate 6 0xff) = List.replicate 5 0xff :=
  ⟨.inr (by decide), varints_decode.1 _ (.inr (by decide)), by decide⟩

/-! ### Signed arithmetic -/

/-- The value of a signed expression of `w` bits, which is undefined out of range. -/
def signed (w : Nat) (x : Int) : Option Int := if -2 ^ (w - 1) ≤ x ∧ x < 2 ^ (w - 1) then some x else none

/-- `EncodeZigzap32` and `EncodeZigzap64` with their signed operations checked: `-val` in the one branch and `val * 2`
in the other. -/
def encodeZigzapChecked (val : BitVec w) : Option (BitVec w) :=
  if val.toInt < 0 then (signed w (-val.toInt)).map fun x => BitVec.ofInt w x * 2#w - 1#w
  else (signed w (val.toInt * 2)).map fun x => BitVec.ofInt w x

/-- The result is defined, and it is the number that is expected. -/
def Zigzags (val : BitVec w) : Prop :=
  ∃ res, encodeZigzapChecked val = some res ∧
    (res.toNat : Int) = if val.toInt < 0 then -2 * val.toInt - 1 else 2 * val.toInt

theorem two_pow_half (wide : 2 ≤ w) : 2 ^ w = 2 * 2 ^ (w - 1) := by
  rw [← Nat.pow_succ', Nat.succ_eq_add_one, Nat.sub_add_cancel (by omega)]

theorem toInt_eq (wide : 2 ≤ w) (val : BitVec w) :
    val.toInt = if 2 ^ (w - 1) ≤ val.toNat then (val.toNat : Int) - (2 ^ w : Nat) else val.toNat := by
  have half := two_pow_half wide
  rw [BitVec.toInt_eq_toNat_cond]
  split <;> split <;> omega

/-- In wrapping arithmetic the result is right for every value. -/
theorem toNat_encodeZigzap_signed (wide : 2 ≤ w) (val : BitVec w) :
    ((encodeZigzap val).toNat : Int) = if val.toInt < 0 then -2 * val.toInt - 1 else 2 * val.toInt := by
  have bound := val.isLt
  have value := toInt_eq wide val
  rw [toNat_encodeZigzap wide]
  by_cases negative : 2 ^ (w - 1) ≤ val.toNat
  · rw [if_pos negative] at value ⊢
    rw [if_pos (by omega)]
    omega
  · rw [if_neg negative] at value ⊢
    rw [if_neg (by omega)]
    omega

/-- Where the signed operations are in range they give what the wrapping ones give. -/
theorem encodeZigzapChecked_eq (val : BitVec w) :
    encodeZigzapChecked val =
      if -2 ^ (w - 1) < val.toInt ∧ val.toInt * 2 < 2 ^ (w - 1) then some (encodeZigzap val) else none := by
  have branches : encodeZigzap val = if val.toInt < 0 then -val * 2#w - 1#w else val * 2#w := by
    simp [encodeZigzap, BitVec.slt]
  have low := val.le_toInt
  have positive : (0 : Int) < 2 ^ (w - 1) := Int.pow_pos (by decide)
  rw [encodeZigzapChecked, branches, signed, signed]
  by_cases negative : val.toInt < 0
  · rw [if_pos negative, if_pos negative]
    by_cases least : -2 ^ (w - 1) < val.toInt
    · rw [if_pos (by omega), if_pos (by omega), Option.map_some, BitVec.ofInt_neg, BitVec.ofInt_toInt]
    · rw [if_neg (by omega), if_neg (by omega), Option.map_none]
  · rw [if_neg negative, if_neg negative]
    by_cases upper : val.toInt * 2 < 2 ^ (w - 1)
    · rw [if_pos (by omega), if_pos (by omega), Option.map_some, BitVec.ofInt_mul, BitVec.ofInt_toInt]
      rfl
    · rw [if_neg (by omega), if_neg (by omega), Option.map_none]

theorem zigzags_iff_range (wide : 2 ≤ w) (val : BitVec w) :
    Zigzags val ↔ -2 ^ (w - 1) < val.toInt ∧ val.toInt * 2 < 2 ^ (w - 1) := by
  rw [Zigzags, encodeZigzapChecked_eq]
  constructor
  · rintro ⟨res, defined, -⟩
    exact (Option.ite_none_right_eq_some.mp defined).1
  · intro range
    exact ⟨_, if_pos range, toNat_encodeZigzap_signed wide val⟩

/-- The signed operations stay in range exactly for the values above the least one and in the lower half of the
positive ones. -/
theorem zigzags_iff (val : BitVec 32) (val' : BitVec 64) :
    (Zigzags val ↔ -2 ^ 31 < val.toInt ∧ val.toInt < 2 ^ 30) ∧
      (Zigzags val' ↔ -2 ^ 63 < val'.toInt ∧ val'.toInt < 2 ^ 62) := by
  rw [zigzags_iff_range (by decide), zigzags_iff_range (by decide)]
  constructor <;> omega

/-- `val * 2` overflows at 2^30, and `-val` at the least value. -/
theorem zigzags_overflow :
    encodeZigzapChecked (BitVec.ofInt 32 (2 ^ 30)) = none ∧ encodeZigzapChecked (BitVec.intMin 32) = none ∧
      encodeZigzapChecked (BitVec.ofInt 64 (2 ^ 62)) = none ∧ encodeZigzapChecked (BitVec.intMin 64) = none := by
  decide

end Cool.ByteArray.Typed
