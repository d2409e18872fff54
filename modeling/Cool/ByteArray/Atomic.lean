import Cool.ByteArray.Direct

/-!
# Typed reads that fail

A typed read that finds too few bytes should throw and leave everything as it was. A read of fixed width
does. A varint that ends early has consumed its first bytes by then, and a string its length; and the length
of a string can end the call in other ways, before the bytes are looked at or at the end of the chain.
-/

namespace Cool.ByteArray

open Foundation

def unread (b : ByteArray) : List UInt8 := b.flat.contents.drop b.pos

/-- The bytes that a varint takes at the head of a list, `rounds` at most: it ends with the first byte below
128. There is none when the list ends before. -/
def varintLength : (rounds : Nat) → List UInt8 → Option Nat
  | 0, _ => some 0
  | _ + 1, [] => none
  | rounds + 1, c :: rest => if c < 0x80 then some 1 else (varintLength rounds rest).map (· + 1)

/-- The length that the first `n` unread bytes give a string. -/
def lengthAt (order : Endian) (n : Nat) (b : ByteArray) : Nat :=
  (if b.endian = order then Typed.ofMemory n (b.flat.peek n)
    else Typed.byteswap (Typed.ofMemory n (b.flat.peek n))).toNat

/-- How a kind of value is laid out: some bytes, a varint of a width in some rounds, or a length of some
bytes and then as many bytes as it says. -/
inductive Shape where
  | fixed (n : Nat)
  | varint (w rounds : Nat)
  | string (n : Nat)

def Kind.shape : Kind → Shape
  | fint8 | fuint8 => .fixed 1
  | fint16 | fuint16 => .fixed 2
  | fint32 | fuint32 | float => .fixed 4
  | fint64 | fuint64 | double => .fixed 8
  | int32 | uint32 => .varint 32 5
  | int64 | uint64 => .varint 64 10
  | stringF16 => .string 2
  | stringF32 => .string 4
  | stringF64 => .string 8

/-- The unread bytes contain the whole encoding of a value. -/
def Complete (order : Endian) (b : ByteArray) : Shape → Prop
  | .fixed n => n ≤ b.unread.length
  | .varint _ rounds => (varintLength rounds b.unread).isSome
  | .string n => n ≤ b.unread.length ∧ n + lengthAt order n b ≤ b.unread.length

/-- Nothing is consumed before the read is known to succeed. -/
def Clean (order : Endian) (allocates : Nat → Bool) (b : ByteArray) : Shape → Prop
  | .fixed _ => True
  | .varint _ rounds => b.unread ≠ [] → (varintLength rounds b.unread).isSome
  | .string n => n ≤ b.unread.length →
      n + lengthAt order n b ≤ b.unread.length ∧ allocates (lengthAt order n b) = true ∧
        (lengthAt order n b = 0 → b.pos + n ≠ b.capacity)

def ends {α : Type} : EStateM.Result Stop ByteArray α → Option (Stop × ByteArray)
  | .ok _ _ => none
  | .error f t => some (f, t)

/-- The call returned and the encoding was whole, or it threw `std::out_of_range`, the encoding was not, and
nothing has changed. -/
def Sound (complete : Prop) (b : ByteArray) (ended : Option (Stop × ByteArray)) : Prop :=
  (ended = none ∧ complete) ∨
    ∃ what t, ended = some (.fault (.outOfRange what), t) ∧ ¬ complete ∧ Alike b t

variable {base : Nat} {b : ByteArray}

theorem Rep.length_unread (rep : Rep base b) : b.unread.length = b.getReadSize := by
  rw [unread, List.length_drop, rep.length_contents, getReadSize]

theorem Alike.refl (b : ByteArray) : Alike b b := ⟨rfl, rfl, rfl, rfl⟩

/-! ### A varint on the flat buffer -/

namespace Typed

variable {s : Stream} {c : UInt8} {rest : List UInt8} {w turns : Nat}

theorem readFuint8_cons (unread : s.flat.contents.drop s.flat.pos = c :: rest) :
    readFuint8 s = .ok c.toBitVec { s with flat := s.flat.advance 1 } := by
  have some_left : ¬1 > s.getReadSize := by
    rw [Stream.getReadSize, ← List.length_drop, unread, List.length_cons]
    omega
  have stored : memoryOf (n := 1) c.toBitVec = [c] := by simp [memoryOf, octets]
  have value : ofMemory 1 (s.flat.peek 1) = c.toBitVec := by
    rw [Flat.peek, unread, List.take_succ_cons, List.take_zero, ← stored, ofMemory_memoryOf]
  show EStateM.bind (read 1) _ s = _
  rw [EStateM.bind, read, if_neg some_left]
  show EStateM.Result.ok (ofMemory 1 (s.flat.peek 1)) _ = _
  rw [value]

theorem readFuint8_nil (unread : s.flat.contents.drop s.flat.pos = []) :
    readFuint8 s = .error (.fault (.outOfRange "not enough len")) s := by
  have none_left : 1 > s.getReadSize := by
    rw [Stream.getReadSize, ← List.length_drop, unread, List.length_nil]
    omega
  show EStateM.bind (read 1) _ s = _
  rw [EStateM.bind, read, if_pos none_left]

theorem readGroups_nil {rounds i : Nat} {r : BitVec w} (more : i < w)
    (unread : s.flat.contents.drop s.flat.pos = []) :
    readGroups readFuint8 (rounds + 1) i r s = .error (.fault (.outOfRange "not enough len")) s := by
  rw [readGroups, if_pos more]
  show EStateM.bind readFuint8 _ s = _
  rw [EStateM.bind, readFuint8_nil unread]

theorem readGroups_cons {rounds i : Nat} {r : BitVec w} (more : i < w)
    (unread : s.flat.contents.drop s.flat.pos = c :: rest) :
    readGroups readFuint8 (rounds + 1) i r s =
      if c < 0x80 then .ok (r ||| (c.toBitVec.setWidth w <<< i)) { s with flat := s.flat.advance 1 }
      else readGroups readFuint8 rounds (i + 7) (r ||| ((c.toBitVec.setWidth w &&& 0x7f#w) <<< i))
        { s with flat := s.flat.advance 1 } := by
  rw [readGroups, if_pos more]
  show EStateM.bind readFuint8 _ s = _
  rw [EStateM.bind, readFuint8_cons unread]
  dsimp only
  by_cases last : c < 0x80
  · have last' : c.toBitVec < 0x80#8 := last
    rw [if_pos last, if_pos last']
    rfl
  · have last' : ¬c.toBitVec < 0x80#8 := last
    rw [if_neg last, if_neg last']

/-- The loop over the `turns` bytes that the width has room for. It stops at the end of the varint, or at
the end of the buffer. -/
theorem readGroups_eq {rounds i : Nat} {r : BitVec w} (enough : turns ≤ rounds)
    (width : ∀ j, j < turns ↔ i + 7 * j < w) :
    (∀ k, varintLength turns (s.flat.contents.drop s.flat.pos) = some k →
      ∃ v, readGroups readFuint8 rounds i r s = .ok v { s with flat := s.flat.advance k }) ∧
    (varintLength turns (s.flat.contents.drop s.flat.pos) = none →
      readGroups readFuint8 rounds i r s = .error (.fault (.outOfRange "not enough len"))
        { s with flat := s.flat.advance (s.flat.contents.drop s.flat.pos).length }) := by
  -- Each turn shifts by 7 more, so that the width always leaves room for exactly the turns that are left.
  induction turns generalizing rounds i r s with
  | zero =>
    have wide : ¬i < w := fun more => Nat.not_lt_zero 0 ((width 0).mpr more)
    refine ⟨fun k found => ?_, fun none => (by cases none)⟩
    cases found
    cases rounds with
    | zero => exact ⟨r, rfl⟩
    | succ rounds => exact ⟨r, by rw [readGroups, if_neg wide]; rfl⟩
  | succ turns ih =>
    obtain ⟨rounds, rfl⟩ : ∃ m, rounds = m + 1 := ⟨rounds - 1, by omega⟩
    have more : i < w := (width 0).mp (Nat.succ_pos turns)
    cases unread : s.flat.contents.drop s.flat.pos with
    | nil => exact ⟨fun k found => (by cases found), fun _ => readGroups_nil more unread⟩
    | cons c rest =>
      rw [varintLength, readGroups_cons more unread]
      by_cases last : c < 0x80
      · rw [if_pos last, if_pos last]
        refine ⟨fun k found => ?_, fun none => (by cases none)⟩
        cases found
        exact ⟨_, rfl⟩
      · have later : (s.flat.advance 1).contents.drop (s.flat.advance 1).pos = rest := by
          show s.flat.contents.drop (s.flat.pos + 1) = rest
          rw [← List.drop_drop, unread, List.drop_succ_cons, List.drop_zero]
        obtain ⟨returns, throws⟩ := ih (s := { s with flat := s.flat.advance 1 }) (i := i + 7)
          (r := r ||| ((c.toBitVec.setWidth w &&& 0x7f#w) <<< i)) (by omega : turns ≤ rounds)
          (fun j => by have := width (j + 1); omega)
        dsimp only at returns throws
        rw [later] at returns throws
        rw [if_neg last, if_neg last]
        refine ⟨fun k found => ?_, fun none => ?_⟩
        · obtain ⟨k, ended, rfl⟩ := Option.map_eq_some_iff.mp found
          obtain ⟨v, returned⟩ := returns k ended
          refine ⟨v, ?_⟩
          rw [returned, Flat.advance, Flat.advance, Flat.advance, Nat.add_assoc, Nat.add_comm 1 k]
        · rw [throws (Option.map_eq_none_iff.mp none), Flat.advance, Flat.advance, Flat.advance, List.length_cons,
            Nat.add_assoc, Nat.add_comm 1 rest.length]

end Typed

/-! ### The reads on the chain -/

namespace Direct

variable {α β : Type} {n : Nat} (order : Endian) (allocates : Nat → Bool)

theorem ends_bind {act : Direct α} {f : α → Direct β} (total : ∀ v t, ∃ u t', f v t = .ok u t') :
    ends ((act >>= f) b) = ends (act b) := by
  show ends (EStateM.bind act f b) = _
  rw [EStateM.bind]
  cases act b with
  | ok v t =>
    obtain ⟨u, t', returned⟩ := total v t
    dsimp only
    rw [returned]
    rfl
  | error f t => rfl

theorem ends_bind_error {act : Direct α} {f : α → Direct β} {ended : Stop × ByteArray}
    (first : ends (act b) = some ended) : ends ((act >>= f) b) = some ended := by
  show ends (EStateM.bind act f b) = _
  rw [EStateM.bind]
  cases run : act b with
  | ok v t => rw [run] at first; cases first
  | error f t => rw [run] at first; exact first

theorem ends_raw (positive : 1 ≤ base) (rep : Rep base b) (some_bytes : 1 ≤ n) :
    ends (raw (ByteArray.read n) b) =
      if n ≤ b.unread.length then none else some (.fault (.outOfRange "not enough len"), b) := by
  rw [rep.length_unread]
  by_cases enough : n ≤ b.getReadSize
  · obtain ⟨t, returned, _⟩ := read_spec positive rep some_bytes enough
    rw [if_pos enough, raw, returned]
    rfl
  · rw [if_neg enough, raw, ByteArray.read, if_pos (by omega)]
    rfl

theorem ends_readFixed (n : Nat) (b : ByteArray) : ends (readFixed order n b) = ends (raw (ByteArray.read n) b) :=
  ends_bind fun _ t => ⟨_, t, rfl⟩

theorem fixed_sound (positive : 1 ≤ base) (rep : Rep base b) (some_bytes : 1 ≤ n) :
    Sound (n ≤ b.unread.length) b (ends (raw (ByteArray.read n) b)) := by
  rw [ends_raw positive rep some_bytes]
  by_cases enough : n ≤ b.unread.length
  · exact .inl ⟨if_pos enough, enough⟩
  · exact .inr ⟨_, b, if_neg enough, enough, .refl b⟩

/-- A read that was not complete has kept the state exactly if it has consumed nothing. -/
theorem sound_incomplete {complete : Prop} {t : ByteArray} {what : String} {k : Nat} (rep : Rep base b)
    (rep' : Rep base t) (kept : t.capacity = b.capacity) (moved : t.flat = b.flat.advance k)
    (incomplete : ¬ complete) : Sound complete b (some (.fault (.outOfRange what), t)) ↔ k = 0 := by
  have pos : t.pos = b.pos + k := congrArg Flat.pos moved
  constructor
  · rintro (⟨none, _⟩ | ⟨_, u, ended, _, alike⟩)
    · cases none
    · cases ended
      have := alike.pos
      omega
  · rintro rfl
    refine .inr ⟨what, t, rfl, incomplete, (alike_iff rep rep' moved.symm).mpr ?_⟩
    rw [pos, kept]
    exact Iff.rfl

theorem varint_sound_iff (positive : 1 ≤ base) (rep : Rep base b) {w turns : Nat}
    (width : ∀ j, j < turns ↔ 7 * j < w) :
    Sound (varintLength turns b.unread).isSome b (ends (readVarint w b)) ↔
      (b.unread ≠ [] → (varintLength turns b.unread).isSome) := by
  have enough : turns ≤ w := by
    by_contra more
    have := width (turns - 1)
    omega
  obtain ⟨returns, throws⟩ := Typed.readGroups_eq (s := b.stream) (i := 0) (r := 0#w) enough
    (fun j => by rw [Nat.zero_add]; exact width j)
  have follows := readGroups_follows positive w 0 0#w b rep
  cases found : varintLength turns b.unread with
  | some k =>
    obtain ⟨v, spec⟩ := returns k found
    rw [spec] at follows
    rcases follows with ⟨v, t, returned, _⟩ | ⟨f, t, _, _, _, _, same⟩
    · exact iff_of_true (.inl ⟨by rw [readVarint, returned]; rfl, rfl⟩) (fun _ => rfl)
    · cases same
  | none =>
    have spec := throws found
    rw [spec] at follows
    rcases follows with ⟨v, t, _, _, _, same⟩ | ⟨f, t, thrown, _, rep', kept, same⟩
    · cases same
    · obtain ⟨fault, moved⟩ := EStateM.Result.error.inj same
      cases fault
      have moved : t.flat = b.flat.advance b.unread.length := (congrArg Stream.flat moved).symm
      have ended : ends (readVarint w b) = some (.fault (.outOfRange "not enough len"), t) := by
        rw [readVarint, thrown]
        rfl
      rw [ended, sound_incomplete rep rep' kept moved (by simp)]
      simp

theorem readFixed_returns (positive : 1 ≤ base) (rep : Rep base b) (some_bytes : 1 ≤ n)
    (enough : n ≤ b.unread.length) :
    ∃ v t, readFixed order n b = .ok v t ∧ v.toNat = lengthAt order n b ∧ Rep base t ∧
      t.capacity = b.capacity ∧ t.flat = b.flat.advance n := by
  rcases readFixed_follows order positive some_bytes b rep with
    ⟨v, t, returned, rep', kept, same⟩ | ⟨f, t, thrown, _⟩
  · obtain ⟨_, stream, value⟩ := Typed.readFixed_ok same
    exact ⟨v, t, returned, by rw [value]; rfl, rep', kept, congrArg Stream.flat stream⟩
  · have ended := ends_readFixed order n b
    rw [ends_raw positive rep some_bytes, if_pos enough, thrown] at ended
    cases ended

theorem length_advance {t : ByteArray} (moved : t.flat = b.flat.advance n) :
    t.unread.length = b.unread.length - n := by
  have contents : t.flat.contents = b.flat.contents := by rw [moved]; rfl
  have pos : t.pos = b.pos + n := congrArg Flat.pos moved
  rw [unread, unread, List.length_drop, List.length_drop, contents, pos]
  omega

theorem payload_sound_iff {t : ByteArray} (positive : 1 ≤ base) (rep : Rep base b) (rep' : Rep base t)
    (len : Nat) (kept : t.capacity = b.capacity) (moved : t.flat = b.flat.advance n) (some_bytes : 1 ≤ n)
    (enough : n ≤ b.unread.length) :
    Sound (n + len ≤ b.unread.length) b (ends (raw (ByteArray.read len) t)) ↔
      n + len ≤ b.unread.length ∧ (len = 0 → b.pos + n ≠ b.capacity) := by
  have pos : t.pos = b.pos + n := congrArg Flat.pos moved
  have left := length_advance moved
  -- `read` of no bytes is the one that looks at the current node only.
  by_cases empty : len = 0
  · subst empty
    rw [raw, read_zero positive rep', pos, kept]
    by_cases last : b.pos + n = b.capacity
    · rw [if_pos last]
      refine iff_of_false ?_ fun clean => clean.2 rfl last
      rintro (⟨none, _⟩ | ⟨_, _, ended, _⟩)
      · cases none
      · cases ended
    · rw [if_neg last]
      exact iff_of_true (.inl ⟨rfl, enough⟩) ⟨enough, fun _ => last⟩
  · rw [ends_raw positive rep' (by omega), left]
    by_cases there : n + len ≤ b.unread.length
    · rw [if_pos (by omega)]
      exact iff_of_true (.inl ⟨rfl, there⟩) ⟨there, fun zero => absurd zero empty⟩
    · rw [if_neg (by omega), sound_incomplete rep rep' kept moved there]
      exact iff_of_false (by omega) fun clean => there clean.1

theorem string_sound_iff (positive : 1 ≤ base) (rep : Rep base b) (some_bytes : 1 ≤ n) :
    Sound (n ≤ b.unread.length ∧ n + lengthAt order n b ≤ b.unread.length) b
        (ends (readString order allocates n b)) ↔
      (n ≤ b.unread.length →
        n + lengthAt order n b ≤ b.unread.length ∧ allocates (lengthAt order n b) = true ∧
          (lengthAt order n b = 0 → b.pos + n ≠ b.capacity)) := by
  by_cases enough : n ≤ b.unread.length
  · obtain ⟨v, t, returned, value, rep', kept, moved⟩ := readFixed_returns order positive rep some_bytes enough
    have run : readString order allocates n b =
        (if allocates (lengthAt order n b) = true then raw (ByteArray.read (lengthAt order n b))
          else throw .resize : Direct (List UInt8)) t := by
      show EStateM.bind (readFixed order n) _ b = _
      rw [EStateM.bind, returned, ← value]
    rw [run]
    by_cases memory : allocates (lengthAt order n b) = true
    · rw [if_pos memory]
      have payload := payload_sound_iff positive rep rep' (lengthAt order n b) kept moved some_bytes enough
      simp only [enough, memory, true_and, forall_const]
      exact payload
    · rw [if_neg memory]
      refine iff_of_false ?_ fun clean => memory (clean enough).2.1
      rintro (⟨none, _⟩ | ⟨_, _, ended, _⟩)
      · cases none
      · cases ended
  · have ended : ends (readString order allocates n b) = some (.fault (.outOfRange "not enough len"), b) := by
      refine ends_bind_error ?_
      rw [ends_readFixed, ends_raw positive rep some_bytes, if_neg enough]
    rw [ended]
    exact iff_of_true (.inr ⟨_, b, rfl, fun complete => enough complete.1, .refl b⟩)
      fun there => absurd there enough

end Direct

/-- A typed read returns, or throws and changes nothing, exactly when it consumes nothing before it is known
to succeed. -/
theorem typed_read_iff (positive : 1 ≤ base) (rep : Rep base b) (order : Endian) (allocates : Nat → Bool)
    (k : Kind) :
    Sound (Complete order b k.shape) b (ends (Direct.ofKind order allocates k b)) ↔
      Clean order allocates b k.shape := by
  have fixed {α : Type} {act : Direct α} {n : Nat} (some_bytes : 1 ≤ n)
      (same : ends (act b) = ends (Direct.raw (ByteArray.read n) b)) :
      Sound (n ≤ b.unread.length) b (ends (act b)) ↔ True := by
    rw [same]
    exact iff_true_intro (Direct.fixed_sound positive rep some_bytes)
  have decoded {α β : Type} {act : Direct α} (f : α → β) :
      ends ((act >>= fun v => pure (f v)) b) = ends (act b) :=
    Direct.ends_bind fun v t => ⟨f v, t, rfl⟩
  cases k with
  | fint8 => exact fixed (Nat.le_refl 1) (decoded _)
  | fuint8 => exact fixed (Nat.le_refl 1) (decoded _)
  | fint16 => exact fixed (by decide) (Direct.ends_readFixed order 2 b)
  | fuint16 => exact fixed (by decide) (Direct.ends_readFixed order 2 b)
  | fint32 => exact fixed (by decide) (Direct.ends_readFixed order 4 b)
  | fuint32 => exact fixed (by decide) (Direct.ends_readFixed order 4 b)
  | fint64 => exact fixed (by decide) (Direct.ends_readFixed order 8 b)
  | fuint64 => exact fixed (by decide) (Direct.ends_readFixed order 8 b)
  | float => exact fixed (by decide) (Direct.ends_readFixed order 4 b)
  | double => exact fixed (by decide) (Direct.ends_readFixed order 8 b)
  | int32 =>
    rw [Direct.ofKind, Direct.readInt32, decoded]
    exact Direct.varint_sound_iff positive rep (by omega)
  | uint32 => exact Direct.varint_sound_iff positive rep (by omega)
  | int64 =>
    rw [Direct.ofKind, Direct.readInt64, decoded]
    exact Direct.varint_sound_iff positive rep (by omega)
  | uint64 => exact Direct.varint_sound_iff positive rep (by omega)
  | stringF16 => exact Direct.string_sound_iff order allocates positive rep (by decide)
  | stringF32 => exact Direct.string_sound_iff order allocates positive rep (by decide)
  | stringF64 => exact Direct.string_sound_iff order allocates positive rep (by decide)

theorem typed_read_iff_rewound : Sound (Complete .little (rewound 4 [7]) (.fixed 2)) (rewound 4 [7])
    (ends (Direct.ofKind .little (fun _ => true) .fint16 (rewound 4 [7]))) :=
  (typed_read_iff (by decide) (rewound_rep (by decide) (by decide)) .little (fun _ => true) .fint16).mpr
    trivial

/-- A varint that ends early, a string that does, a length without memory for it, and an empty string at the
end of the chain. -/
theorem typed_read_consumes :
    (Rep 4 (rewound 4 [128]) ∧ ∃ t, ends (Direct.readUint32 (rewound 4 [128])) =
      some (.fault (.outOfRange "not enough len"), t) ∧ t.pos = 1) ∧
    (Rep 4 (rewound 4 [0, 5, 65]) ∧ ∃ t, ends (Direct.readStringF16 .little (fun _ => true) (rewound 4 [0, 5, 65])) =
      some (.fault (.outOfRange "not enough len"), t) ∧ t.pos = 2) ∧
    (∃ t, ends (Direct.readStringF16 .little (· < 5) (rewound 4 [0, 5, 65])) = some (.resize, t) ∧ t.pos = 2) ∧
    (Rep 2 (rewound 2 [0, 0]) ∧ ∃ t, ends (Direct.readStringF16 .little (fun _ => true) (rewound 2 [0, 0])) =
      some (.fault .nullNode, t)) :=
  ⟨⟨rewound_rep (by decide) (by decide), _, rfl, rfl⟩,
    ⟨rewound_rep (by decide) (by decide), _, rfl, rfl⟩, ⟨_, rfl, rfl⟩,
    ⟨rewound_rep (by decide) (by decide), _, rfl⟩⟩

end Cool.ByteArray
