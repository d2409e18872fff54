import Cool.ByteArray.Capacity

/-!
# Reading without moving the cursor

`to_string` and `getReadBuffers(buffers, len)` look at the unread bytes from the cursor on. The positioned
`read` and `getReadBuffers` take an address of their own, but clamp to what is unread behind the cursor, and
the positioned `read` also starts in the cursor's node.
-/

namespace Cool.ByteArray

open Foundation (Run)

/-- The `n` bytes of the chain from address `a` on. -/
def bytesAt (b : ByteArray) (a n : Nat) : List UInt8 := ((memory b.nodes).drop a).take n

/-- The address at which the positioned `read` starts. -/
def startOf (b : ByteArray) (pos : Nat) : Nat := b.pos / b.baseSize * b.baseSize + pos % b.baseSize

/-- The positioned `read` passes its check, has a current node, stays in the chain, and finds there the bytes
at `pos`. -/
structure Lands (b : ByteArray) (pos size : Nat) : Prop where
  unread : size ≤ b.getReadSize
  current : b.pos < b.capacity
  room : b.startOf pos + size ≤ b.capacity
  same : b.bytesAt (b.startOf pos) size = b.bytesAt pos size

variable {base : Nat} {b : ByteArray} {pos size len : Nat}

theorem contents_slice (within : pos + size ≤ b.size) :
    (b.flat.contents.drop pos).take size = b.bytesAt pos size := by
  rw [flat, bytesAt, List.drop_take, List.take_take, Nat.min_eq_left (by omega)]

/-! ### The positioned `read` -/

theorem readAt_eq (positive : 1 ≤ base) (rep : Rep base b) (unread : size ≤ b.getReadSize)
    (current : b.pos < b.capacity) :
    readAt size pos b = if b.startOf pos + size ≤ b.capacity then .ok (b.bytesAt (b.startOf pos) size) b
      else .error .nullNode b := by
  have bound := rep.div_lt positive current
  have inside : pos % base < base := Nat.mod_lt _ (by omega)
  have start : b.startOf pos = b.pos / base * base + pos % base := by rw [startOf, rep.base_eq]
  rw [readAt, if_neg (by omega), rep.cur_eq, if_neg (by omega), rep.base_eq, start]
  dsimp only
  by_cases room : b.pos / base * base + pos % base + size ≤ b.capacity
  · obtain ⟨pieces, walked, covers, _⟩ := rep.walk_covers bound inside room
    rw [walked, if_pos room]
    dsimp only
    rw [loadPieces_covers rep.sized covers, Nat.add_sub_cancel_left, bytesAt]
  · have some_bytes : 1 ≤ size := by
      -- The cursor's node is in the chain, so a walk over no bytes has room.
      have block : (b.pos / base + 1) * base ≤ b.nodes.length * base := Nat.mul_le_mul_right base bound
      rw [Nat.succ_mul, ← rep.capacity_eq] at block
      omega
    rw [rep.walk_short bound inside some_bytes (by omega), if_neg room]

theorem readAt_delivers (positive : 1 ≤ base) (rep : Rep base b) (within : pos + size ≤ b.size) :
    readAt size pos b = .ok ((b.flat.contents.drop pos).take size) b ↔ b.Lands pos size := by
  rw [contents_slice within]
  constructor
  · intro delivered
    have unread : size ≤ b.getReadSize := by
      by_contra short
      rw [readAt, if_pos (by omega)] at delivered
      cases delivered
    have current : b.pos < b.capacity := by
      by_contra past
      have last : b.pos = b.capacity := by have := rep.pos_le; have := rep.size_le; omega
      rw [readAt, if_neg (by omega), rep.cur_eq, if_pos last] at delivered
      cases delivered
    rw [readAt_eq positive rep unread current] at delivered
    split at delivered
    · rename_i room
      exact ⟨unread, current, room, (EStateM.Result.ok.inj delivered).1⟩
    · cases delivered
  · intro lands
    rw [readAt_eq positive rep lands.unread lands.current, if_pos lands.room, lands.same]

/-- In the cursor's node the positioned `read` starts where it should. -/
theorem Rep.lands (rep : Rep base b) (node : pos / base = b.pos / base)
    (current : b.pos < b.capacity) (unread : size ≤ b.getReadSize) (within : pos + size ≤ b.size) :
    b.Lands pos size := by
  have start : b.startOf pos = pos := by rw [startOf, rep.base_eq, ← node, Nat.div_add_mod']
  have size_le := rep.size_le
  exact ⟨unread, current, by rw [start]; omega, by rw [start]⟩

/-- The positioned `read` delivers the bytes at `pos` exactly when it lands there. In the cursor's node that is when
there is one and its check passes. -/
theorem readAt_iff_lands (positive : 1 ≤ base) (rep : Rep base b) (within : pos + size ≤ b.size) :
    (readAt size pos b = .ok ((b.flat.contents.drop pos).take size) b ↔ b.Lands pos size) ∧
      (pos / base = b.pos / base → (b.Lands pos size ↔ b.pos < b.capacity ∧ size ≤ b.getReadSize)) := by
  refine ⟨readAt_delivers positive rep within, fun node => ⟨fun lands => ⟨lands.current, lands.unread⟩, ?_⟩⟩
  intro ⟨current, unread⟩
  exact rep.lands node current unread within

/-- Three nodes of 2 bytes, full, with the cursor in the second. -/
def inSecond : ByteArray :=
  (Op.position 2).exec ((Op.write (fun _ _ => 0) [1, 2, 3, 4, 5, 6]).exec (new 2 fun _ => 0))

theorem inSecond_rep : Rep 2 inSecond :=
  reachable_rep (by decide)
    ((Run.nil.snoc (.op (.write (fun _ _ => 0) [1, 2, 3, 4, 5, 6]) (by decide))).snoc
      (.op (.position 2) (by decide)))

theorem readAt_iff_lands_inSecond : readAt 2 3 inSecond = .ok [4, 5] inSecond := by
  have lands : inSecond.Lands 3 2 :=
    ((readAt_iff_lands (by decide) inSecond_rep (by decide)).2 (by decide)).mpr (by decide)
  exact (readAt_iff_lands (by decide) inSecond_rep (by decide)).1.mpr lands

/-- For an address behind the cursor's node or before it the bytes of the cursor's node are delivered, and
the check refuses a size that is there from address 0 on. -/
theorem readAt_misses :
    Rep 2 inSecond ∧ inSecond.flat.contents = [1, 2, 3, 4, 5, 6] ∧
      readAt 1 4 inSecond = .ok [3] inSecond ∧ readAt 1 0 inSecond = .ok [3] inSecond ∧
      readAt 6 0 inSecond = .error (.outOfRange "not enough len") inSecond :=
  ⟨inSecond_rep, by decide, rfl, rfl, rfl⟩

/-! ### The unread bytes -/

/-- What the two views give, whatever the state. -/
structure Views (b : ByteArray) : Prop where
  string : toString b = .ok (b.flat.peek b.getReadSize) b
  buffers (len : Nat) : ∃ pieces, getReadBuffers len b = .ok (min len b.getReadSize, pieces) b ∧
    loadPieces b.nodes pieces = b.flat.peek (min len b.getReadSize) ∧ ∀ p ∈ pieces, 0 < p.len

/-- The two views give what `read` returns. -/
structure Agrees (b : ByteArray) : Prop where
  string : ∃ bytes t, read b.getReadSize b = .ok bytes t ∧ toString b = .ok bytes b
  buffers (len : Nat) : ∃ bytes t pieces, read (min len b.getReadSize) b = .ok bytes t ∧
    getReadBuffers len b = .ok (min len b.getReadSize, pieces) b ∧
    loadPieces b.nodes pieces = bytes ∧ ∀ p ∈ pieces, 0 < p.len

theorem Rep.peek_eq (rep : Rep base b) (unread : size ≤ b.getReadSize) :
    b.flat.peek size = b.bytesAt b.pos size := by
  have pos_le := rep.pos_le
  rw [getReadSize] at unread
  exact contents_slice (show b.pos + size ≤ b.size by omega)

theorem clamp_eq (len unread : Nat) : (if len > unread then unread else len) = min len unread := by
  split <;> omega

theorem toString_eq (positive : 1 ≤ base) (rep : Rep base b) :
    toString b = .ok (b.flat.peek b.getReadSize) b := by
  have pos_le := rep.pos_le
  have size_le := rep.size_le
  by_cases empty : b.getReadSize = 0
  · rw [toString, if_pos empty, empty]
    rfl
  · have unread : b.getReadSize = b.size - b.pos := rfl
    have lands := rep.lands rfl (by omega) (Nat.le_refl b.getReadSize) (by omega : b.pos + _ ≤ _)
    rw [toString, if_neg empty]
    exact (readAt_delivers positive rep (by omega)).mpr lands

theorem getReadBuffers_eq (positive : 1 ≤ base) (rep : Rep base b) (len : Nat) :
    ∃ pieces, getReadBuffers len b = .ok (min len b.getReadSize, pieces) b ∧
      loadPieces b.nodes pieces = b.flat.peek (min len b.getReadSize) ∧ ∀ p ∈ pieces, 0 < p.len := by
  rw [getReadBuffers, clamp_eq]
  by_cases empty : min len b.getReadSize = 0
  · rw [if_pos empty, empty]
    exact ⟨[], rfl, rfl, by simp⟩
  · have unread : min len b.getReadSize ≤ b.size - b.pos := Nat.min_le_right ..
    have size_le := rep.size_le
    obtain ⟨pieces, walked, covers, nonempty⟩ := walkCur_covers positive rep (by omega)
      (by omega : b.pos + min len b.getReadSize ≤ b.capacity)
    rw [if_neg empty, walked]
    refine ⟨pieces, rfl, ?_, nonempty⟩
    rw [loadPieces_covers rep.sized covers, rep.peek_eq unread, Nat.add_sub_cancel_left, bytesAt]

theorem rep_views (positive : 1 ≤ base) (rep : Rep base b) : b.Views :=
  ⟨toString_eq positive rep, getReadBuffers_eq positive rep⟩

theorem read_current (positive : 1 ≤ base) (rep : Rep base b) (current : b.pos < b.capacity)
    (unread : size ≤ b.getReadSize) : ∃ t, read size b = .ok (b.flat.peek size) t := by
  by_cases some_bytes : 1 ≤ size
  · obtain ⟨t, returned, _⟩ := read_spec positive rep some_bytes unread
    exact ⟨t, returned⟩
  · obtain rfl : size = 0 := by omega
    exact ⟨b, by rw [read_zero positive rep, if_neg (by omega)]; rfl⟩

/-- The views always give the unread bytes, and `read` returns the same exactly when there is a current
node: without one, a `read` of no bytes dereferences it. -/
theorem views_agree_iff (positive : 1 ≤ base) (rep : Rep base b) :
    b.Views ∧ (b.Agrees ↔ b.pos < b.capacity) := by
  have views := rep_views positive rep
  refine ⟨views, ?_, ?_⟩
  · intro agrees
    by_contra past
    have last : b.pos = b.capacity := by have := rep.pos_le; have := rep.size_le; omega
    obtain ⟨bytes, t, _, returned, _⟩ := agrees.buffers 0
    rw [Nat.zero_min, read_zero positive rep, if_pos last] at returned
    cases returned
  · intro current
    refine ⟨?_, fun len => ?_⟩
    · obtain ⟨t, returned⟩ := read_current positive rep current (Nat.le_refl b.getReadSize)
      exact ⟨_, t, returned, views.string⟩
    · obtain ⟨t, returned⟩ := read_current positive rep current (Nat.min_le_right len b.getReadSize)
      obtain ⟨pieces, gathered, loaded, nonempty⟩ := views.buffers len
      exact ⟨_, t, pieces, returned, gathered, loaded, nonempty⟩

theorem views_agree_iff_inSecond : inSecond.Agrees :=
  (views_agree_iff (by decide) inSecond_rep).2.mpr (by decide)

/-- One node of 1 byte, full: the cursor has left the chain. -/
def pastLast : ByteArray := (Op.write (fun _ _ => 0) [7]).exec (new 1 fun _ => 0)

theorem pastLast_rep : Rep 1 pastLast :=
  reachable_rep (by decide) (Run.nil.snoc (.op (.write (fun _ _ => 0) [7]) (by decide)))

theorem pastLast_disagrees :
    Rep 1 pastLast ∧ pastLast.getReadSize = 0 ∧ toString pastLast = .ok [] pastLast ∧
      read 0 pastLast = .error .nullNode pastLast :=
  ⟨pastLast_rep, by decide, rfl, rfl⟩

/-! ### The positioned `getReadBuffers` -/

/-- The `iovec`s cover `[pos, pos + n)` for the `n` bytes that are there. -/
def Exposes (base : Nat) (b : ByteArray) (len pos : Nat) : Prop :=
  ∃ pieces, getReadBuffersAt len pos b = .ok (min len (b.size - pos), pieces) b ∧
    Covers base b.nodes.length pos pieces (pos + min len (b.size - pos))

/-- The clamp is right exactly when it makes no difference that it is taken behind the cursor. -/
theorem exposes_iff (positive : 1 ≤ base) (rep : Rep base b) (within : pos ≤ b.size) :
    Exposes base b len pos ↔ min len (b.size - b.pos) = min len (b.size - pos) := by
  have size_le := rep.size_le
  have unread : b.getReadSize = b.size - b.pos := rfl
  rw [Exposes, getReadBuffersAt, clamp_eq, rep.base_eq, unread]
  by_cases empty : min len (b.size - b.pos) = 0
  · rw [if_pos empty, empty]
    constructor
    · rintro ⟨pieces, returned, _⟩
      exact (Prod.mk.inj (EStateM.Result.ok.inj returned).1).1
    · intro same
      exact ⟨[], by rw [same], by rw [← same]; rfl⟩
  · rw [if_neg empty]
    constructor
    · rintro ⟨pieces, returned, _⟩
      split at returned
      · cases returned
      · split at returned
        · cases returned
        · exact (Prod.mk.inj (EStateM.Result.ok.inj returned).1).1
    · intro same
      rw [same] at empty ⊢
      have inside : pos < b.capacity := by omega
      have split : pos / base * base + pos % base = pos := Nat.div_add_mod' _ _
      obtain ⟨pieces, walked, covers, _⟩ := rep.walk_covers (n := min len (b.size - pos))
        (rep.div_lt positive inside) (Nat.mod_lt pos (by omega)) (by omega)
      rw [split] at covers
      rw [rep.cur_at positive (Nat.le_of_lt inside), if_neg (by omega)]
      dsimp only
      rw [walked]
      exact ⟨pieces, rfl, covers⟩

theorem exposes_iff_inSecond : Exposes 2 inSecond 2 1 :=
  (exposes_iff (by decide) inSecond_rep (by decide)).mpr (by decide)

/-- From address 1 the third byte is one that was never written, and from address 2 the walk leaves the
chain. -/
theorem rewound_overexposed :
    Rep 4 (rewound 4 [1, 2, 3]) ∧ (rewound 4 [1, 2, 3]).size = 3 ∧
      getReadBuffersAt 3 1 (rewound 4 [1, 2, 3]) = .ok (3, [⟨0, 1, 3⟩]) (rewound 4 [1, 2, 3]) ∧
      getReadBuffersAt 3 2 (rewound 4 [1, 2, 3]) = .error .nullNode (rewound 4 [1, 2, 3]) :=
  ⟨rewound_rep (by decide) (by decide), by decide, rfl, rfl⟩

end Cool.ByteArray
