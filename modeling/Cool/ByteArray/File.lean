import Cool.ByteArray.Scatter
import Cool.ByteArray.Views
import Mathlib.Data.BitVec

/-!
# Files

`writeToFile` walks the chain with a loop of its own. It takes the offset into the node off the length of every
piece, and not only off that of a whole node, so a piece that ends inside the node it starts in is too short.
`readFromFile` writes blocks of `m_base_size` bytes until one of them is not full.
-/

namespace Cool.ByteArray

open Foundation

/-- What the loop of `writeToFile` can end in. -/
inductive FileFault where
  | nullNode
  /-- `ofs.write` of a negative length. -/
  | negative
  /-- A piece that does not lie in its node. -/
  | outside
  deriving DecidableEq, Repr

/-- The loop of `writeToFile` from the first of `nodes` on, giving what it hands to the stream. A turn that goes on
has a length that is not negative, so `pos` and `read_size` are not either. -/
def writeNodes (base : Nat) : List Node → Nat → Nat → Except FileFault (List UInt8)
  | [], _, readSize => if readSize = 0 then .ok [] else .error .nullNode
  | node :: next, pos, readSize =>
    if readSize = 0 then .ok []
    else
      -- `int diff`
      let diff : Int := (BitVec.ofNat 32 (pos % base)).toInt
      let len : Int := (if readSize > base then base else readSize : Nat) - diff
      if len < 0 then .error .negative
      else if diff < 0 ∨ node.size < diff + len then .error .outside
      else (writeNodes base next (pos + len.toNat) (readSize - len.toNat)).map (node.load diff.toNat len.toNat ++ ·)

/-- `writeToFile(name)`: `none` is the return of `false` when the file cannot be opened, and otherwise the contents
of the file are given. -/
def writeToFile (b : ByteArray) (opens : Bool) : Except FileFault (Option (List UInt8)) :=
  if opens then (writeNodes b.baseSize (b.cur.elim [] b.nodes.drop) b.pos b.getReadSize).map some else .ok none

/-- The blocks that `ifs.read(buf, base)` delivers until `eof()`: the last one is short or empty. -/
def fileBlocks (base : Nat) (file : List UInt8) : List (List UInt8) :=
  (List.range (file.length / base + 1)).map fun i => (file.drop (i * base)).take base

def writeBlocks (fill : Nat → Nat → Nat → UInt8) : List (List UInt8) → Action Unit
  | [] => return ()
  | block :: rest => do
    write (fill rest.length) block
    writeBlocks fill rest

/-- `readFromFile(name)`, with the contents of the file if it can be opened. -/
def readFromFile (fill : Nat → Nat → Nat → UInt8) : Option (List UInt8) → Action Bool
  | none => return false
  | some file => do
    writeBlocks fill (fileBlocks (← get).baseSize file)
    return true

/-- The loop gets along: nothing is unread, the cursor is at the start of its node, or a node's worth of bytes is
unread. The offset also has to fit an `int`. -/
def Straight (b : ByteArray) : Prop :=
  b.getReadSize = 0 ∨ b.pos % b.baseSize < 2 ^ 31 ∧ (b.pos % b.baseSize = 0 ∨ b.baseSize ≤ b.getReadSize)

instance (b : ByteArray) : Decidable b.Straight := inferInstanceAs (Decidable (_ ∨ _ ∧ (_ ∨ _)))

/-- What is expected of `writeToFile`: the contents of the file are what `to_string` gives. -/
def Saves (b : ByteArray) : Prop := ∃ bytes, toString b = .ok bytes b ∧ b.writeToFile true = .ok (some bytes)

variable {base : Nat} {b : ByteArray} {nodes : List Node} {node : Node} {pos readSize : Nat}

/-! ### The loop of `writeToFile` -/

theorem toInt_of_lt {n : Nat} (small : n < 2 ^ 31) : (BitVec.ofNat 32 n).toInt = n := by
  have value : (BitVec.ofNat 32 n).toNat = n := by
    rw [BitVec.toNat_ofNat]
    omega
  rw [BitVec.toInt_eq_toNat_of_lt (by omega), value]

theorem writeNodes_cons (here : node.size = base) (some_bytes : readSize ≠ 0) (inside : pos % base < 2 ^ 31) :
    writeNodes base (node :: nodes) pos readSize =
      if min readSize base < pos % base then .error .negative
      else (writeNodes base nodes (pos + (min readSize base - pos % base))
        (readSize - (min readSize base - pos % base))).map
          (node.load (pos % base) (min readSize base - pos % base) ++ ·) := by
  have least : (if readSize > base then base else readSize) = min readSize base := by
    split <;> omega
  rw [writeNodes, if_neg some_bytes, toInt_of_lt inside, least]
  by_cases negative : min readSize base < pos % base
  · rw [if_pos negative, if_pos (by omega)]
  · have length : ((min readSize base : Nat) - (pos % base : Nat) : Int).toNat = min readSize base - pos % base := by
      omega
    rw [if_neg negative, if_neg (by omega), if_neg (by omega), length, Int.toNat_natCast]

theorem writeNodes_done (base : Nat) (nodes : List Node) (pos : Nat) : writeNodes base nodes pos 0 = .ok [] := by
  cases nodes <;> rfl

/-- From the start of a node on the loop writes what is there. -/
theorem writeNodes_aligned (sized : Sized base nodes) (aligned : pos % base = 0)
    (within : readSize ≤ nodes.length * base) :
    writeNodes base nodes pos readSize = .ok ((memory nodes).take readSize) := by
  induction nodes generalizing pos readSize with
  | nil =>
    obtain rfl : readSize = 0 := by simpa using within
    rfl
  | cons node nodes ih =>
    have here : node.size = base := sized node List.mem_cons_self
    have length : node.ptr.length = base := node.alloc.trans here
    by_cases done : readSize = 0
    · rw [done, writeNodes_done]
      rfl
    · rw [List.length_cons, Nat.succ_mul] at within
      rw [writeNodes_cons here done (by omega), aligned, if_neg (Nat.not_lt_zero _), Nat.sub_zero, Node.load,
        List.drop_zero, memory_cons]
      by_cases last : readSize ≤ base
      · have none_left : readSize - min readSize base = 0 := by omega
        rw [none_left, writeNodes_done, Nat.min_eq_left last, List.take_append_of_le_length (by omega)]
        exact congrArg Except.ok (List.append_nil _)
      · have whole : min readSize base = base := by omega
        have block : node.ptr.take base = node.ptr := List.take_of_length_le (by omega)
        have covered : node.ptr.take readSize = node.ptr := List.take_of_length_le (by omega)
        rw [whole, ih sized.tail (by rw [Nat.add_mod_right]; exact aligned) (by omega), List.take_append, length, block, covered]
        rfl

theorem writeNodes_straight (sized : Sized base nodes) (inside : pos % base < base) (small : pos % base < 2 ^ 31)
    (straight : pos % base = 0 ∨ base ≤ readSize) (within : pos % base + readSize ≤ nodes.length * base) :
    writeNodes base nodes pos readSize = .ok (((memory nodes).drop (pos % base)).take readSize) := by
  rcases straight with aligned | whole
  · rw [aligned, List.drop_zero]
    exact writeNodes_aligned sized aligned (by omega)
  · -- The first turn reaches the end of its node.
    cases nodes with
    | nil =>
      rw [List.length_nil, Nat.zero_mul] at within
      omega
    | cons node nodes =>
      have here : node.size = base := sized node List.mem_cons_self
      have length : node.ptr.length = base := node.alloc.trans here
      have least : min readSize base = base := by omega
      have next : (pos + (base - pos % base)) % base = 0 := by
        have split := Nat.div_add_mod' pos base
        have start : pos + (base - pos % base) = (pos / base + 1) * base := by
          rw [Nat.succ_mul]
          omega
        rw [start, Nat.mul_mod_left]
      have rest : (node.ptr.drop (pos % base)).length = base - pos % base := by rw [List.length_drop, length]
      have block : (node.ptr.drop (pos % base)).take (base - pos % base) = node.ptr.drop (pos % base) :=
        List.take_of_length_le (by omega)
      have covered : (node.ptr.drop (pos % base)).take readSize = node.ptr.drop (pos % base) :=
        List.take_of_length_le (by omega)
      rw [List.length_cons, Nat.succ_mul] at within
      rw [writeNodes_cons here (by omega) small, least, if_neg (by omega),
        writeNodes_aligned sized.tail next (by omega), Node.load,
        memory_cons, List.drop_append_of_le_length (by omega), List.take_append, rest, block, covered]
      rfl

/-- A piece without bytes comes back in every node, up to the end of the chain. -/
theorem writeNodes_stuck (sized : Sized base nodes) (some_bytes : readSize ≠ 0) (same : pos % base = readSize)
    (small : readSize < 2 ^ 31) (short : readSize < base) : writeNodes base nodes pos readSize = .error .nullNode := by
  induction nodes with
  | nil => exact if_neg some_bytes
  | cons node nodes ih =>
    have here : node.size = base := sized node List.mem_cons_self
    have least : min readSize base - pos % base = 0 := by omega
    rw [writeNodes_cons here some_bytes (by omega), if_neg (by omega), least, Nat.add_zero, Nat.sub_zero,
      ih sized.tail]
    rfl

theorem writeNodes_negative (sized : Sized base nodes) (some_bytes : readSize ≠ 0) (past : readSize < pos % base)
    (small : pos % base < 2 ^ 31) : ∃ f, writeNodes base nodes pos readSize = .error f := by
  cases nodes with
  | nil => exact ⟨_, if_neg some_bytes⟩
  | cons node nodes =>
    have here : node.size = base := sized node List.mem_cons_self
    rw [writeNodes_cons here some_bytes small, if_pos (by omega)]
    exact ⟨_, rfl⟩

/-- Inside a node, less than a node's worth of bytes is never written. -/
theorem writeNodes_fails (sized : Sized base nodes) (some_bytes : readSize ≠ 0) (inside : pos % base ≠ 0)
    (short : readSize < base) (small : base ≤ 2 ^ 31) : ∃ f, writeNodes base nodes pos readSize = .error f := by
  have offset : pos % base < base := Nat.mod_lt _ (by omega)
  rcases Nat.lt_trichotomy readSize (pos % base) with past | same | before
  · exact writeNodes_negative sized some_bytes past (by omega)
  · exact ⟨_, writeNodes_stuck sized some_bytes same.symm (by omega) short⟩
  · cases nodes with
    | nil => exact ⟨_, if_neg some_bytes⟩
    | cons node nodes =>
      have here : node.size = base := sized node List.mem_cons_self
      have least : min readSize base = readSize := by omega
      -- The next turn takes the offset off again, and there is less left than that.
      have next : (pos + (readSize - pos % base)) % base = readSize := by
        have split := Nat.div_add_mod' pos base
        have start : pos + (readSize - pos % base) = pos / base * base + readSize := by omega
        rw [start, Nat.mul_comm, Nat.mul_add_mod, Nat.mod_eq_of_lt short]
      have past : readSize - (readSize - pos % base) < (pos + (readSize - pos % base)) % base := by omega
      obtain ⟨f, failed⟩ := writeNodes_negative sized.tail (by omega) past (by omega)
      rw [writeNodes_cons here some_bytes (by omega), least, if_neg (by omega), failed]
      exact ⟨f, rfl⟩

theorem memory_drop (sized : Sized base nodes) (i : Nat) : memory (nodes.drop i) = (memory nodes).drop (i * base) := by
  induction i generalizing nodes with
  | zero => rw [List.drop_zero, Nat.zero_mul, List.drop_zero]
  | succ i ih =>
    cases nodes with
    | nil => simp [memory]
    | cons node nodes =>
      have length : node.ptr.length = base := node.alloc.trans (sized node List.mem_cons_self)
      have past : node.ptr.drop (i * base + base) = [] := List.drop_of_length_le (by omega)
      rw [List.drop_succ_cons, ih sized.tail, memory_cons,
        Nat.succ_mul, List.drop_append, length, past, List.nil_append, Nat.add_sub_cancel]

theorem Straight.saves (positive : 1 ≤ base) (rep : Rep base b) (straight : b.Straight) :
    b.writeToFile true = .ok (some (b.flat.peek b.getReadSize)) := by
  have pos_le := rep.pos_le
  have size_le := rep.size_le
  have base_eq := rep.base_eq
  rw [writeToFile, if_pos rfl, rep.peek_eq (Nat.le_refl _), bytesAt]
  by_cases empty : b.getReadSize = 0
  · rw [empty, writeNodes_done]
    rfl
  · have unread : b.getReadSize = b.size - b.pos := rfl
    have current : b.cur.elim [] b.nodes.drop = b.nodes.drop (b.pos / base) := by
      rw [rep.cur_eq, if_neg (by omega)]
      rfl
    have split := Nat.div_add_mod' b.pos base
    have left := rep.length_drop (b.pos / base)
    obtain ⟨small, whole⟩ := straight.resolve_left empty
    rw [base_eq] at small whole
    rw [current, base_eq, writeNodes_straight (rep.sized.drop _) (Nat.mod_lt _ (by omega)) small whole (by omega),
      memory_drop rep.sized, List.drop_drop, split]
    rfl

theorem straight_of_saves {bytes : List UInt8} (positive : 1 ≤ base) (rep : Rep base b) (small : base ≤ 2 ^ 31)
    (saved : b.writeToFile true = .ok (some bytes)) : b.Straight := by
  by_contra crooked
  have base_eq := rep.base_eq
  rw [Straight, base_eq] at crooked
  have sized : Sized base (b.cur.elim [] b.nodes.drop) := by
    cases b.cur with
    | none => exact fun node member => absurd member List.not_mem_nil
    | some i => exact rep.sized.drop i
  have offset : b.pos % base < base := Nat.mod_lt _ (by omega)
  obtain ⟨f, failed⟩ :=
    writeNodes_fails sized (by omega : b.getReadSize ≠ 0) (by omega : b.pos % base ≠ 0) (by omega) small
  rw [writeToFile, if_pos rfl, base_eq, failed] at saved
  cases saved

/-- `writeToFile` saves what is unread if it gets along, and with nodes of at most 2^31 bytes only then. -/
theorem writeToFile_iff (positive : 1 ≤ base) (rep : Rep base b) :
    (b.Straight → b.Saves) ∧ (base ≤ 2 ^ 31 → (b.Saves ↔ b.Straight)) := by
  have saves (straight : b.Straight) : b.Saves := ⟨_, toString_eq positive rep, straight.saves positive rep⟩
  refine ⟨saves, fun small => ⟨?_, saves⟩⟩
  rintro ⟨bytes, _, saved⟩
  exact straight_of_saves positive rep small saved

/-- Three nodes of 2 bytes, with four bytes unread from the second on. -/
theorem writeToFile_iff_inSecond : inSecond.writeToFile true = .ok (some [3, 4, 5, 6]) := by
  obtain ⟨bytes, string, saved⟩ := (writeToFile_iff (by decide) inSecond_rep).1 (by decide)
  obtain rfl : _ = bytes := (EStateM.Result.ok.inj (string.symm.trans (toString_eq (by decide) inSecond_rep))).1.symm
  exact saved.trans (by decide)

/-- Two nodes of 4 bytes, of which `size` are in use, with the cursor at `pos`. -/
def inFirst (pos size : Nat) : ByteArray :=
  (Op.position pos).exec ((Op.position size).exec ((Op.getWriteBuffers (fun _ _ => 0) 8).exec (new 4 fun _ => 0)))

/-- Three bytes are unread. From offset 1 the second piece has a negative length, and from offset 3 the pieces are
empty up to the end of the chain. -/
theorem inFirst_fails :
    Rep 4 (inFirst 1 4) ∧ (inFirst 1 4).writeToFile true = .error .negative ∧
      Rep 4 (inFirst 3 6) ∧ (inFirst 3 6).writeToFile true = .error .nullNode ∧
      toString (inFirst 3 6) = .ok [0, 0, 0] (inFirst 3 6) := by
  have rep (pos size : Nat) : Rep 4 (inFirst pos size) := by
    have allocates : Step (new 4 fun _ => 0) (.getWriteBuffers (fun _ _ => 0) 8) _ := ⟨by simp [Admissible]; decide, rfl⟩
    have allocated := step_rep (by decide) (new_rep (by decide) _) allocates
    have moved := step_rep (by decide) allocated (show Step _ (.position size) _ from ⟨trivial, rfl⟩)
    exact step_rep (by decide) moved (show Step _ (.position pos) _ from ⟨trivial, rfl⟩)
  exact ⟨rep 1 4, by decide, rep 3 6, by decide, rfl⟩

/-! ### `readFromFile` -/

theorem flatten_blocks (base k : Nat) (file : List UInt8) :
    ((List.range k).map fun i => (file.drop (i * base)).take base).flatten = file.take (k * base) := by
  induction k with
  | zero => rw [List.range_zero, Nat.zero_mul, List.take_zero]; rfl
  | succ k ih =>
    rw [List.range_succ, List.map_append, List.flatten_append, ih, List.map_singleton, List.flatten_singleton,
      Nat.succ_mul, List.take_add]

/-- Full blocks and a short one, which together are the file. -/
theorem fileBlocks_eq (positive : 1 ≤ base) (file : List UInt8) :
    ∃ full last, fileBlocks base file = full ++ [last] ∧ (∀ block ∈ full, block.length = base) ∧ last.length < base ∧
      full.flatten ++ last = file := by
  have split := Nat.div_add_mod' file.length base
  have short : file.length % base < base := Nat.mod_lt _ (by omega)
  have rest : (file.drop (file.length / base * base)).length = file.length % base := by
    rw [List.length_drop]
    omega
  refine ⟨(List.range (file.length / base)).map fun i => (file.drop (i * base)).take base,
    (file.drop (file.length / base * base)).take base, ?_, ?_, ?_, ?_⟩
  · rw [fileBlocks, List.range_succ, List.map_append, List.map_singleton]
  · intro block member
    obtain ⟨i, below, rfl⟩ := List.mem_map.mp member
    have inside : (i + 1) * base ≤ file.length / base * base := Nat.mul_le_mul_right base (List.mem_range.mp below)
    rw [Nat.succ_mul] at inside
    rw [List.length_take, List.length_drop]
    omega
  · rw [List.length_take, rest]
    omega
  · have whole : (file.drop (file.length / base * base)).take base = file.drop (file.length / base * base) :=
      List.take_of_length_le (by omega)
    rw [flatten_blocks, whole, List.take_append_drop]

/-- Where a block is written, the chain ends at the cursor or the cursor's node is empty. -/
theorem roomy_block {n : Nat} (rep : Rep base b) (room : b.getCapacity = 0 ∨ b.getCapacity = base)
    (fits : n ≤ base) : b.Roomy n := by
  rw [Roomy, rep.base_eq]
  rcases room with none | whole
  · rw [none, Nat.sub_zero]
    rcases Nat.lt_or_eq_of_le fits with short | full
    · rw [Nat.mod_eq_of_lt short]
      omega
    · rw [full, Nat.mod_self]
      exact .inr (.inl rfl)
  · exact .inl (by omega)

theorem write_block {block : List UInt8} (positive : 1 ≤ base) (rep : Rep base b)
    (room : b.getCapacity = 0 ∨ b.getCapacity = base) (fits : block.length ≤ base) (fill : Nat → Nat → UInt8) :
    ∃ t, write fill block b = .ok () t ∧ Rep base t ∧ t.flat = b.flat.write block ∧
      (block.length = base → t.getCapacity = 0) := by
  have roomy := roomy_block rep room fits
  obtain ⟨t, written, rep', flat⟩ := write_spec positive rep fill block ((addCapacity_roomy positive rep fill).mpr roomy)
  refine ⟨t, written, rep', flat, fun full => ?_⟩
  have pos : t.pos = b.pos + block.length := congrArg Flat.pos flat
  have inside := Nat.le_trans rep.pos_le rep.size_le
  have unused : b.getCapacity = b.capacity - b.pos := rfl
  rw [getCapacity, write_capacity written, pos, full]
  rcases room with none | whole
  · -- One node is added, and filled.
    rw [addCapacity_capacity (by omega), none, Nat.sub_zero, rep.base_eq, Nat.div_self (by omega), Nat.mod_self,
      if_neg (Nat.lt_irrefl 0), Nat.add_zero, Nat.one_mul]
    omega
  · have same : b.addCapacity fill base = b := by
      rw [addCapacity, if_neg (by omega), if_pos (by omega)]
    rw [same]
    omega

theorem writeBlocks_spec {full : List (List UInt8)} {last : List UInt8} (positive : 1 ≤ base) (rep : Rep base b)
    (room : b.getCapacity = 0 ∨ b.getCapacity = base) (whole : ∀ block ∈ full, block.length = base)
    (short : last.length < base) (fill : Nat → Nat → Nat → UInt8) :
    ∃ t, writeBlocks fill (full ++ [last]) b = .ok () t ∧ Rep base t ∧ t.flat = b.flat.write (full.flatten ++ last) := by
  induction full generalizing b with
  | nil =>
    obtain ⟨t, written, rep', flat, _⟩ := write_block positive rep room (Nat.le_of_lt short) (fill 0)
    refine ⟨t, ?_, rep', flat⟩
    show EStateM.bind (write (fill 0) last) _ b = _
    rw [EStateM.bind, written]
    rfl
  | cons block full ih =>
    have length := whole block List.mem_cons_self
    obtain ⟨u, written, rep', flat, none⟩ := write_block positive rep room (Nat.le_of_eq length) (fill (full ++ [last]).length)
    obtain ⟨t, others, rep'', flat'⟩ :=
      ih rep' (.inl (none length)) fun block member => whole block (List.mem_cons_of_mem _ member)
    refine ⟨t, ?_, rep'', ?_⟩
    · show EStateM.bind (write (fill (full ++ [last]).length) block) _ b = _
      rw [EStateM.bind, written]
      exact others
    · rw [flat', flat, Flat.write_write _ rep.pos_le_contents, List.flatten_cons, List.append_assoc]

/-- What is saved from the start of one `ByteArray` is loaded into another, whatever their nodes. -/
theorem file_roundTrip {base' : Nat} (positive : 1 ≤ base) (positive' : 1 ≤ base') (rep : Rep base b) (start : b.pos = 0)
    (fill : Nat → UInt8) (fill' : Nat → Nat → Nat → UInt8) :
    ∃ file t u, b.writeToFile true = .ok (some file) ∧ readFromFile fill' (some file) (new base' fill) = .ok true t ∧
      position 0 t = .ok () u ∧ toString u = .ok b.flat.contents u ∧ u.getReadSize = b.flat.contents.length := by
  have straight : b.Straight := by
    refine .inr ⟨?_, .inl ?_⟩ <;> rw [start, Nat.zero_mod]
    decide
  have whole : b.flat.peek b.getReadSize = b.flat.contents := by
    have length := rep.length_contents
    have unread : b.getReadSize = b.size := by rw [getReadSize, start, Nat.sub_zero]
    rw [Flat.peek, show b.flat.pos = 0 from start, List.drop_zero, unread, ← length, List.take_length]
  have saved := straight.saves positive rep
  rw [whole] at saved
  generalize b.flat.contents = file at saved ⊢
  obtain ⟨full, last, blocks, lengths, short, same⟩ := fileBlocks_eq positive' file
  have capacity : (new base' fill).getCapacity = 0 ∨ (new base' fill).getCapacity = base' := .inr (Nat.sub_zero _)
  obtain ⟨t, loaded, rep', flat⟩ :=
    writeBlocks_spec positive' (new_rep positive' fill) capacity lengths short fill'
  obtain ⟨u, gap, moved, rep'', none, flat'⟩ := position_spec positive' rep' (Nat.zero_le _)
  have contents : u.flat = ⟨file, 0⟩ := by
    rw [Nat.zero_sub, List.length_eq_zero_iff] at none
    rw [flat', flat, same, none]
    simp [Flat.seek, Flat.write, new, ByteArray.flat]
  have size : u.getReadSize = file.length := by
    have length := rep''.length_contents
    rw [contents] at length
    rw [getReadSize, show u.pos = 0 from congrArg Flat.pos contents, Nat.sub_zero]
    exact length.symm
  refine ⟨file, t, u, saved, ?_, moved, ?_, size⟩
  · show EStateM.bind (writeBlocks fill' (fileBlocks base' file)) _ (new base' fill) = _
    rw [EStateM.bind, blocks, loaded]
    rfl
  · rw [toString_eq positive' rep'', size, contents, Flat.peek, List.drop_zero, List.take_length]

theorem file_roundTrip_rewound : ∃ t u, readFromFile (fun _ _ _ => 0) (some [1, 2, 3]) (new 2 fun _ => 0) = .ok true t ∧
    position 0 t = .ok () u ∧ toString u = .ok [1, 2, 3] u := by
  have rep : Rep 4 (rewound 4 [1, 2, 3]) := rewound_rep (by decide) (by decide)
  obtain ⟨file, t, u, saved, loaded, moved, string, _⟩ :=
    file_roundTrip (by decide) (by decide : 1 ≤ 2) rep rfl (fun _ => 0) fun _ _ _ => 0
  have written : (rewound 4 [1, 2, 3]).writeToFile true = .ok (some [1, 2, 3]) := by decide
  obtain rfl : file = [1, 2, 3] := Option.some.inj (Except.ok.inj (saved.symm.trans written))
  exact ⟨t, u, loaded, moved, string⟩

end Cool.ByteArray
