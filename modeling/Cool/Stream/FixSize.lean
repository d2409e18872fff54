import Cool.ByteArray.File

/-!
# Transfers of a fixed size

The loops of `Stream::readFixSize` and `Stream::writeFixSize` over any answers of the underlying calls. They keep a
result in a `size_t`, so that a negative one is a large length: the loop moves back by it and goes on. What was asked
for comes back as an `int`.
-/

namespace Cool.Stream

open Foundation Cool.ByteArray

/-- What a call of `SocketStream::read` or `SocketStream::write` returns: -1 without a call of the socket, or what that
call returns. -/
inductive Answer where
  | disconnected
  | result (rt : BitVec 32)
  deriving DecidableEq, Repr

def Answer.value : Answer → Int
  | .disconnected => -1
  | .result rt => rt.toInt

inductive Fault where
  /-- A transfer from or into memory that is not in the buffer. -/
  | outside
  | array (fault : ByteArray.Fault)
  deriving DecidableEq, Repr

/-- A `size_t` returned as an `int`. -/
def toInt (n : Nat) : Int := (BitVec.ofNat 32 n).toInt

/-! ### The loops -/

section Loop

variable {σ ε : Type}

/-- The loop of the four functions. `transfer` is the call it makes, with the offset and the length it passes. The
result is what the loop returns, unless it still waits for an answer, and the answers it has not asked for. -/
def fixSize (transfer : Nat → Nat → Answer → σ → Except ε σ) (length : Nat) :
    Nat → Nat → List Answer → σ → Except ε (Option Int × List Answer × σ)
  | _, left, [], s => .ok (if left = 0 then some (toInt length) else none, [], s)
  | offset, left, a :: rest, s =>
    if left = 0 then .ok (some (toInt length), a :: rest, s)
    else
      match transfer offset left a s with
      | .error e => .error e
      | .ok s' =>
        let len := (a.value % 2 ^ 64).toNat
        if len = 0 then .ok (some (toInt len), rest, s')
        else fixSize transfer length ((offset + len) % 2 ^ 64) ((left + (2 ^ 64 - len)) % 2 ^ 64) rest s'

end Loop

/-- The `n` bytes of a stream behind the first `start`. -/
def bytes (input : Nat → UInt8) (start n : Nat) : List UInt8 := (List.range n).map fun i => input (start + i)

/-- `read(buffer + offset, left)`, with the buffer and the number of bytes received so far. -/
def read (input : Nat → UInt8) (offset left : Nat) (a : Answer) (s : List UInt8 × Nat) : Except Fault (List UInt8 × Nat) :=
  match a with
  | .disconnected => .ok s
  | .result rt =>
    if s.1.length < offset + left then .error .outside
    else .ok (overwrite s.1 offset (bytes input s.2 rt.toInt.toNat), s.2 + rt.toInt.toNat)

/-- `write(buffer + offset, left)`, with the bytes sent so far. -/
def write (buffer : List UInt8) (offset left : Nat) (a : Answer) (sent : List UInt8) : Except Fault (List UInt8) :=
  match a with
  | .disconnected => .ok sent
  | .result rt =>
    if buffer.length < offset + left then .error .outside
    else .ok (sent ++ (buffer.drop offset).take rt.toInt.toNat)

/-- `read(ba, left)`, with the array and the number of bytes received so far. -/
def readArray (input : Nat → UInt8) (fill : Nat → Nat → Nat → UInt8) (_offset left : Nat) (a : Answer)
    (s : ByteArray × Nat) : Except Fault (ByteArray × Nat) :=
  match a with
  | .disconnected => .ok s
  | .result rt =>
    if 0 < rt.toInt then
      match receive (fill left) left (bytes input s.2 rt.toInt.toNat) s.1 with
      | .error f _ => .error (.array f)
      | .ok _ t => .ok (t, s.2 + rt.toInt.toNat)
    else
      match getWriteBuffers (fill left) left s.1 with
      | .error f _ => .error (.array f)
      | .ok _ t => .ok (t, s.2)

/-- `write(ba, left)`, with the array and the bytes sent so far. -/
def writeArray (_offset left : Nat) (a : Answer) (s : ByteArray × List UInt8) : Except Fault (ByteArray × List UInt8) :=
  match a with
  | .disconnected => .ok s
  | .result rt =>
    match getReadBuffers left s.1 with
    | .error f _ => .error (.array f)
    | .ok (_, pieces) b =>
      if 0 < rt.toInt then
        match position (b.pos + rt.toInt.toNat) b with
        | .error f _ => .error (.array f)
        | .ok _ t => .ok (t, s.2 ++ (loadPieces b.nodes pieces).take rt.toInt.toNat)
      else .ok (b, s.2)

/-- `readFixSize(buffer, length)`. -/
def readFixSize (input : Nat → UInt8) (length : Nat) (answers : List Answer) (buffer : List UInt8) :
    Except Fault (Option Int × List Answer × List UInt8 × Nat) :=
  fixSize (read input) length 0 length answers (buffer, 0)

/-- `writeFixSize(buffer, length)`. -/
def writeFixSize (length : Nat) (answers : List Answer) (buffer : List UInt8) :
    Except Fault (Option Int × List Answer × List UInt8) :=
  fixSize (write buffer) length 0 length answers []

/-- `readFixSize(ba, length)`. -/
def readFixSizeArray (input : Nat → UInt8) (fill : Nat → Nat → Nat → UInt8) (length : Nat) (answers : List Answer)
    (b : ByteArray) : Except Fault (Option Int × List Answer × ByteArray × Nat) :=
  fixSize (readArray input fill) length 0 length answers (b, 0)

/-- `writeFixSize(ba, length)`. -/
def writeFixSizeArray (length : Nat) (answers : List Answer) (b : ByteArray) :
    Except Fault (Option Int × List Answer × ByteArray × List UInt8) :=
  fixSize writeArray length 0 length answers (b, [])

/-! ### What is expected -/

/-- The number of bytes transferred, what is returned, and the answers that are not asked for. -/
structure Plan where
  done : Nat
  ret : Option Int
  rest : List Answer

/-- Pieces are transferred until `length` bytes are, or up to the first answer that is not positive. -/
def plan (length : Nat) : Nat → List Answer → Plan
  | done, [] => ⟨done, if length ≤ done then some length else none, []⟩
  | done, a :: rest =>
    if length ≤ done then ⟨done, some length, a :: rest⟩
    else if a.value ≤ 0 then ⟨done, some a.value, rest⟩
    else plan length (done + a.value.toNat) rest

/-- What is to be returned is not negative and fits an `int`. -/
def Plan.Clean (p : Plan) : Prop := ∀ ret, p.ret = some ret → 0 ≤ ret ∧ ret < 2 ^ 31

variable {σ ε : Type} {transfer : Nat → Nat → Answer → σ → Except ε σ} {length limit done : Nat} {answers : List Answer}
  {s s' : σ}

theorem le_plan (length done : Nat) (answers : List Answer) : done ≤ (plan length done answers).done := by
  induction answers generalizing done with
  | nil => exact Nat.le_refl _
  | cons a rest ih =>
    rw [plan]
    split
    · exact Nat.le_refl _
    · split
      · exact Nat.le_refl _
      · exact Nat.le_trans (Nat.le_add_right ..) (ih _)

theorem toInt_eq_iff : toInt length = length ↔ length < 2 ^ 31 := by
  constructor
  · intro same
    have below : (BitVec.ofNat 32 length).toInt < 2 ^ 31 := BitVec.toInt_lt
    rw [toInt] at same
    omega
  · exact toInt_of_lt

theorem Answer.value_bounds (a : Answer) : -2 ^ 31 ≤ a.value ∧ a.value < 2 ^ 31 := by
  cases a with
  | disconnected => decide
  | result rt => exact ⟨BitVec.le_toInt rt, BitVec.toInt_lt⟩

/-- A positive answer moves the loop on by as many bytes, without wrapping. -/
theorem fixSize_next {a : Answer} {rest : List Answer} (small : length < 2 ^ 64) (positive : 0 < a.value)
    (fits : done + a.value.toNat ≤ length) (moved : transfer done (length - done) a s = .ok s') :
    fixSize transfer length done (length - done) (a :: rest) s =
      fixSize transfer length (done + a.value.toNat) (length - (done + a.value.toNat)) rest s' := by
  have bounds := a.value_bounds
  have len : (a.value % 2 ^ 64).toNat = a.value.toNat := by omega
  have offset : (done + a.value.toNat) % 2 ^ 64 = done + a.value.toNat := by omega
  have remaining : (length - done + (2 ^ 64 - a.value.toNat)) % 2 ^ 64 = length - (done + a.value.toNat) := by omega
  rw [fixSize, if_neg (by omega), moved]
  dsimp only
  rw [len, if_neg (by omega), offset, remaining]

/-- If every piece that fits moves the state along `I`, the loop does what is expected. -/
theorem fixSize_plan {I : Nat → σ → Prop} (within : limit ≤ length) (small : length < 2 ^ 64)
    (moves : ∀ done a s, I done s → done < length → 0 ≤ a.value → done + a.value.toNat ≤ limit →
      ∃ s', transfer done (length - done) a s = .ok s' ∧ I (done + a.value.toNat) s')
    (clean : (plan length done answers).Clean) (fits : (plan length done answers).done ≤ limit)
    (inside : done ≤ length) (start : I done s) :
    ∃ s', fixSize transfer length done (length - done) answers s =
        .ok ((plan length done answers).ret, (plan length done answers).rest, s') ∧
      I (plan length done answers).done s' := by
  induction answers generalizing done s with
  | nil =>
    refine ⟨s, ?_, start⟩
    rw [fixSize]
    unfold plan at clean ⊢
    dsimp only at clean ⊢
    by_cases all : length ≤ done
    · have returned := (clean length (if_pos all)).2
      rw [if_pos all, if_pos (by omega), toInt_eq_iff.mpr (by omega)]
    · rw [if_neg all, if_neg (by omega)]
  | cons a rest ih =>
    unfold plan at clean fits ⊢
    by_cases all : length ≤ done
    · rw [if_pos all] at clean fits ⊢
      have returned := (clean length rfl).2
      rw [fixSize, if_pos (by omega), toInt_eq_iff.mpr (by omega)]
      exact ⟨s, rfl, start⟩
    · rw [if_neg all] at clean fits ⊢
      by_cases stops : a.value ≤ 0
      · rw [if_pos stops] at clean fits ⊢
        have zero : a.value = 0 := Int.le_antisymm stops (clean _ rfl).1
        obtain ⟨s', moved, after⟩ := moves done a s start (by omega) (by omega) (by rw [zero]; exact fits)
        rw [fixSize, if_neg (by omega), moved, zero]
        rw [zero] at after
        exact ⟨s', rfl, after⟩
      · rw [if_neg stops] at clean fits ⊢
        have further := le_plan length (done + a.value.toNat) rest
        obtain ⟨s', moved, after⟩ := moves done a s start (by omega) (by omega) (by omega)
        obtain ⟨s'', ran, final⟩ := ih clean fits (by omega) after
        exact ⟨s'', (fixSize_next small (by omega) (by omega) moved).trans ran, final⟩

theorem fixSize_rest {offset left : Nat} {ret : Option Int} {rest : List Answer}
    (ran : fixSize transfer length offset left answers s = .ok (ret, rest, s')) : rest.length ≤ answers.length := by
  induction answers generalizing offset left s with
  | nil =>
    cases ran
    exact Nat.le_refl _
  | cons a answers ih =>
    rw [fixSize] at ran
    split at ran
    · cases ran
      exact Nat.le_refl _
    · split at ran
      · cases ran
      · dsimp only at ran
        split at ran
        · cases ran
          exact Nat.le_succ _
        · exact Nat.le_succ_of_le (ih ran)

theorem fixSize_asks {offset left : Nat} {ret : Option Int} {rest : List Answer} (some_left : left ≠ 0)
    (ran : fixSize transfer length offset left answers s = .ok (ret, rest, s')) :
    rest.length < answers.length ∨ ret = none := by
  cases answers with
  | nil =>
    rw [fixSize, if_neg some_left] at ran
    cases ran
    exact .inr rfl
  | cons a answers =>
    rw [fixSize, if_neg some_left] at ran
    split at ran
    · cases ran
    · dsimp only at ran
      split at ran
      · cases ran
        exact .inl (Nat.lt_succ_self _)
      · exact .inl (Nat.lt_succ_of_le (fixSize_rest ran))

/-- The loop does what is expected only where nothing negative or too large is to be returned. -/
theorem clean_of_fixSize (small : length < 2 ^ 63) (fits : (plan length done answers).done ≤ length)
    (ran : fixSize transfer length done (length - done) answers s =
      .ok ((plan length done answers).ret, (plan length done answers).rest, s')) :
    (plan length done answers).Clean := by
  -- Where all bytes are transferred, the `int` has to be the length.
  have finished {ret : Int} (same : some (toInt length) = some ret) (returned : ret = length) :
      0 ≤ ret ∧ ret < 2 ^ 31 := by
    have exact_length : toInt length = length := (Option.some.inj same).trans returned
    have := toInt_eq_iff.mp exact_length
    omega
  induction answers generalizing done s with
  | nil =>
    rw [fixSize] at ran
    unfold plan at ran ⊢
    dsimp only at ran ⊢
    intro ret returned
    dsimp only at returned
    by_cases all : length ≤ done
    · rw [if_pos all] at ran returned
      rw [if_pos (by omega)] at ran
      exact finished ((Prod.mk.inj (Except.ok.inj ran)).1.trans returned) (Option.some.inj returned).symm
    · rw [if_neg all] at returned
      cases returned
  | cons a rest ih =>
    unfold plan at ran fits ⊢
    by_cases all : length ≤ done
    · rw [if_pos all] at ran ⊢
      rw [fixSize, if_pos (by omega)] at ran
      intro ret returned
      exact finished ((Prod.mk.inj (Except.ok.inj ran)).1.trans returned) (Option.some.inj returned).symm
    · have left : length - done ≠ 0 := by omega
      have bounds := a.value_bounds
      rw [if_neg all] at ran fits ⊢
      cases moved : transfer done (length - done) a s with
      | error e =>
        rw [fixSize, if_neg left, moved] at ran
        cases ran
      | ok s₁ =>
        by_cases stops : a.value ≤ 0
        · rw [if_pos stops] at ran ⊢
          intro ret returned
          obtain rfl : a.value = ret := Option.some.inj returned
          by_cases negative : a.value < 0
          · -- A negative answer moves the loop back, and it asks for another one.
            have len : (a.value % 2 ^ 64).toNat ≠ 0 := by omega
            have remaining : (length - done + (2 ^ 64 - (a.value % 2 ^ 64).toNat)) % 2 ^ 64 ≠ 0 := by omega
            rw [fixSize, if_neg left, moved] at ran
            dsimp only at ran
            rw [if_neg len] at ran
            rcases fixSize_asks remaining ran with asked | waits
            · exact absurd asked (Nat.lt_irrefl _)
            · cases waits
          · omega
        · rw [if_neg stops] at ran fits ⊢
          have further := le_plan length (done + a.value.toNat) rest
          rw [fixSize_next (by omega) (by omega) (by omega) moved] at ran
          exact ih fits ran

/-! ### The raw buffer -/

section Buffer

variable {input : Nat → UInt8} {buffer : List UInt8}

@[simp] theorem length_bytes (input : Nat → UInt8) (start n : Nat) : (bytes input start n).length = n := by
  simp [bytes]

theorem bytes_append (input : Nat → UInt8) (n k : Nat) : bytes input 0 n ++ bytes input n k = bytes input 0 (n + k) := by
  simp only [bytes, Nat.zero_add, List.range_add, List.map_append, List.map_map]
  rfl

/-- The pieces stand in the buffer one behind the other. -/
def Reads (input : Nat → UInt8) (length : Nat) (answers : List Answer) (buffer : List UInt8) : Prop :=
  let p := plan length 0 answers
  readFixSize input length answers buffer = .ok (p.ret, p.rest, overwrite buffer 0 (bytes input 0 p.done), p.done)

/-- The pieces are those of the buffer, one behind the other. -/
def Writes (length : Nat) (answers : List Answer) (buffer : List UInt8) : Prop :=
  let p := plan length 0 answers
  writeFixSize length answers buffer = .ok (p.ret, p.rest, buffer.take p.done)

theorem read_moves {a : Answer} (whole : buffer.length = length) (room : done < length) (positive : 0 ≤ a.value)
    (fits : done + a.value.toNat ≤ length) :
    read input done (length - done) a (overwrite buffer 0 (bytes input 0 done), done) =
      .ok (overwrite buffer 0 (bytes input 0 (done + a.value.toNat)), done + a.value.toNat) := by
  cases a with
  | disconnected => exact absurd positive (by decide)
  | result rt =>
    change done + rt.toInt.toNat ≤ length at fits
    have joined : overwrite (overwrite buffer 0 (bytes input 0 done)) (0 + (bytes input 0 done).length)
        (bytes input done rt.toInt.toNat) = _ := overwrite_overwrite (by rw [length_bytes, length_bytes]; omega)
    rw [length_bytes, Nat.zero_add, bytes_append] at joined
    show (if _ < _ then _ else _) = _
    rw [if_neg (by rw [length_overwrite]; omega), joined]
    rfl

theorem reads_of_clean (whole : buffer.length = length) (small : length < 2 ^ 64)
    (fits : (plan length 0 answers).done ≤ length) (clean : (plan length 0 answers).Clean) :
    Reads input length answers buffer := by
  have start : (buffer, 0) = (overwrite buffer 0 (bytes input 0 0), 0) := by
    rw [show bytes input 0 0 = [] from rfl, overwrite_nil]
  obtain ⟨s, ran, rfl⟩ := fixSize_plan (I := fun done s => s = (overwrite buffer 0 (bytes input 0 done), done))
    (Nat.le_refl length) small
    (fun done a s here room positive fits => ⟨_, here ▸ read_moves whole room positive fits, rfl⟩)
    clean fits (Nat.zero_le _) start
  exact ran

theorem write_moves {a : Answer} (whole : buffer.length = length) (room : done < length) (positive : 0 ≤ a.value) :
    write buffer done (length - done) a (buffer.take done) = .ok (buffer.take (done + a.value.toNat)) := by
  cases a with
  | disconnected => exact absurd positive (by decide)
  | result rt =>
    show (if _ < _ then _ else _) = _
    rw [if_neg (by omega), ← List.take_add]
    rfl

theorem writes_of_clean (whole : buffer.length = length) (small : length < 2 ^ 64)
    (fits : (plan length 0 answers).done ≤ length) (clean : (plan length 0 answers).Clean) :
    Writes length answers buffer := by
  obtain ⟨s, ran, rfl⟩ := fixSize_plan (I := fun done sent => sent = buffer.take done) (Nat.le_refl length) small
    (fun done a sent here room positive _ => ⟨_, here ▸ write_moves whole room positive, rfl⟩)
    clean fits (Nat.zero_le _) rfl
  exact ran

end Buffer

/-! ### The `ByteArray` -/

section Array

variable {base : Nat} {b t : ByteArray} {input : Nat → UInt8} {fill : Nat → Nat → Nat → UInt8} {sent : List UInt8}

/-- The pieces are written to the array one behind the other. -/
def ReadsArray (input : Nat → UInt8) (fill : Nat → Nat → Nat → UInt8) (length : Nat) (answers : List Answer)
    (b : ByteArray) : Prop :=
  let p := plan length 0 answers
  ∃ t, readFixSizeArray input fill length answers b = .ok (p.ret, p.rest, t, p.done) ∧
    t.flat = b.flat.write (bytes input 0 p.done)

/-- The pieces are read from the array one behind the other. -/
def WritesArray (length : Nat) (answers : List Answer) (b : ByteArray) : Prop :=
  let p := plan length 0 answers
  ∃ t, writeFixSizeArray length answers b = .ok (p.ret, p.rest, t, b.flat.peek p.done) ∧ t.flat = b.flat.advance p.done

/-- After `done` bytes received: there is room for the others. -/
structure Receiving (base : Nat) (b : ByteArray) (input : Nat → UInt8) (length done : Nat) (s : ByteArray × Nat) : Prop where
  rep : Rep base s.1
  flat : s.1.flat = b.flat.write (bytes input 0 done)
  roomy : s.1.Roomy (length - done)
  count : s.2 = done

theorem Receiving.moves {a : Answer} {s : ByteArray × Nat} (some_base : 1 ≤ base) (rep : Rep base b)
    (receiving : Receiving base b input length done s) (room : done < length) (positive : 0 ≤ a.value)
    (fits : done + a.value.toNat ≤ length) :
    ∃ s', readArray input fill done (length - done) a s = .ok s' ∧
      Receiving base b input length (done + a.value.toNat) s' := by
  obtain ⟨t, count⟩ := s
  obtain ⟨rep', flat, roomy, rfl⟩ := receiving
  dsimp only at rep' flat roomy
  have enough := (addCapacity_roomy some_base rep' (fill (length - count))).mpr roomy
  cases a with
  | disconnected => exact absurd positive (by decide)
  | result rt =>
    unfold readArray
    dsimp only [Answer.value] at fits ⊢
    by_cases some_bytes : 0 < rt.toInt
    · obtain ⟨u, received, rep_u, flat_u, capacity⟩ := receive_spec (d := bytes input count rt.toInt.toNat) some_base rep'
        (fill (length - count)) roomy (by rw [length_bytes]; omega) (by rw [length_bytes]; omega)
      have pos : u.pos = t.pos + rt.toInt.toNat := by
        have := congrArg Flat.pos flat_u
        rwa [Flat.write, length_bytes] at this
      rw [if_pos some_bytes, received]
      refine ⟨_, rfl, rep_u, ?_, .inl ?_, rfl⟩
      · rw [flat_u, flat, Flat.write_write _ rep.pos_le_contents, bytes_append]
      · rw [getCapacity, capacity, pos]
        omega
    · have none : rt.toInt.toNat = 0 := by omega
      obtain ⟨pieces, gathered, _⟩ :=
        getWriteBuffers_covers some_base rep' (fill (length - count)) roomy (by omega)
      rw [if_neg some_bytes, gathered, none, Nat.add_zero]
      refine ⟨_, rfl, (addCapacity_rep some_base rep' _ _).1, ?_, .inl ?_, rfl⟩
      · rw [addCapacity_flat some_base rep', flat]
      · rw [getCapacity, (addCapacity_pos _ _ t).1]
        exact enough

theorem readArray_capacity {offset left : Nat} {rt : BitVec 32} {s s' : ByteArray × Nat} (some_bytes : 0 < rt.toInt)
    (moved : readArray input fill offset left (.result rt) s = .ok s') :
    s'.1.capacity = (s.1.addCapacity (fill left) left).capacity := by
  unfold readArray at moved
  dsimp only at moved
  rw [if_pos some_bytes] at moved
  split at moved
  · cases moved
  · rename_i received
    cases moved
    exact receive_capacity received

theorem readsArray_of_clean (some_base : 1 ≤ base) (rep : Rep base b) (small : length < 2 ^ 64)
    (fits : (plan length 0 answers).done ≤ length) (clean : (plan length 0 answers).Clean) (roomy : b.Roomy length) :
    ReadsArray input fill length answers b := by
  have start : Receiving base b input length 0 (b, 0) := by
    refine ⟨rep, ?_, roomy, rfl⟩
    simp [bytes, Flat.write, ByteArray.flat]
  obtain ⟨⟨t, _⟩, ran, received⟩ := fixSize_plan (I := Receiving base b input length) (Nat.le_refl length) small
    (fun done a s here room positive fits => here.moves some_base rep room positive fits) clean fits (Nat.zero_le _) start
  obtain rfl : _ = _ := received.count
  exact ⟨t, ran, received.flat⟩

/-- Without room the first call that reaches the socket faults. -/
theorem roomy_of_readArray {a : Answer} {s : ByteArray × Nat} (some_base : 1 ≤ base)
    (rep : Rep base b) (positive : 0 ≤ a.value) (moved : readArray input fill 0 length a (b, 0) = .ok s) : b.Roomy length := by
  by_contra short
  obtain ⟨some_bytes, lost⟩ := walkCur_addCapacity some_base rep (fill length) short
  have faulted : getWriteBuffers (fill length) length b = .error .nullNode (b.addCapacity (fill length) length) := by
    rw [getWriteBuffers, if_neg (by omega)]
    dsimp only
    rw [lost]
  cases a with
  | disconnected => exact absurd positive (by decide)
  | result rt =>
    unfold readArray at moved
    dsimp only at moved
    by_cases some_bytes : 0 < rt.toInt
    · have failed : receive (fill length) length (bytes input 0 rt.toInt.toNat) b =
          .error .nullNode (b.addCapacity (fill length) length) := by
        show EStateM.bind (getWriteBuffers (fill length) length) _ b = _
        rw [EStateM.bind, faulted]
      rw [if_pos some_bytes, failed] at moved
      cases moved
    · rw [if_neg some_bytes, faulted] at moved
      cases moved

/-- After `done` bytes sent. -/
structure Sending (base : Nat) (b : ByteArray) (done : Nat) (s : ByteArray × List UInt8) : Prop where
  rep : Rep base s.1
  flat : s.1.flat = b.flat.advance done
  sent : s.2 = b.flat.peek done

theorem Sending.moves {a : Answer} {s : ByteArray × List UInt8} (some_base : 1 ≤ base) (rep : Rep base b)
    (sending : Sending base b done s) (room : done < length) (positive : 0 ≤ a.value)
    (fits : done + a.value.toNat ≤ min length b.getReadSize) :
    ∃ s', writeArray done (length - done) a s = .ok s' ∧ Sending base b (done + a.value.toNat) s' := by
  obtain ⟨t, sent⟩ := s
  obtain ⟨rep', flat, rfl⟩ := sending
  dsimp only at rep' flat
  have pos : t.pos = b.pos + done := congrArg Flat.pos flat
  have contents : t.flat.contents = b.flat.contents := by
    rw [flat]
    rfl
  have size : t.size = b.size := by rw [← rep'.length_contents, ← rep.length_contents, contents]
  have unread : b.getReadSize = b.size - b.pos := rfl
  have unread' : t.getReadSize = t.size - t.pos := rfl
  obtain ⟨pieces, gathered, loaded, _⟩ := getReadBuffers_eq some_base rep' (length - done)
  cases a with
  | disconnected => exact absurd positive (by decide)
  | result rt =>
    unfold writeArray
    dsimp only [Answer.value] at fits ⊢
    rw [gathered]
    dsimp only
    by_cases some_bytes : 0 < rt.toInt
    · have size_le := rep'.size_le
      obtain ⟨u, gap, moved, rep_u, empty, flat_u⟩ :=
        position_spec some_base rep' (by omega : t.pos + rt.toInt.toNat ≤ t.capacity)
      have none : gap = [] := List.eq_nil_of_length_eq_zero (by omega)
      rw [if_pos some_bytes, moved]
      refine ⟨_, rfl, rep_u, ?_, ?_⟩
      · rw [flat_u, none, flat, pos]
        simp [Flat.seek, Flat.advance, ByteArray.flat, Nat.add_assoc]
      · have least : min rt.toInt.toNat (min (length - done) t.getReadSize) = rt.toInt.toNat := by omega
        dsimp only
        rw [loaded, flat, Flat.peek, Flat.peek, Flat.peek, Flat.advance, List.take_take, least, ← List.drop_drop,
          ← List.take_add]
    · have none : rt.toInt.toNat = 0 := by omega
      rw [if_neg some_bytes, none, Nat.add_zero]
      exact ⟨_, rfl, rep', flat, rfl⟩

theorem writesArray_of_clean (some_base : 1 ≤ base) (rep : Rep base b) (small : length < 2 ^ 64)
    (fits : (plan length 0 answers).done ≤ length) (unread : (plan length 0 answers).done ≤ b.getReadSize)
    (clean : (plan length 0 answers).Clean) : WritesArray length answers b := by
  have start : Sending base b 0 (b, []) := ⟨rep, rfl, rfl⟩
  obtain ⟨⟨t, _⟩, ran, sending⟩ := fixSize_plan (I := Sending base b) (Nat.min_le_left length b.getReadSize) small
    (fun done a s here room positive fits => here.moves some_base rep room positive fits) clean
    (Nat.le_min.mpr ⟨fits, unread⟩) (Nat.zero_le _) start
  obtain rfl : _ = _ := sending.sent
  exact ⟨t, ran, sending.flat⟩

theorem roomy_of_readsArray (some_base : 1 ≤ base) (rep : Rep base b) (asked : answers ≠ [])
    (clean : (plan length 0 answers).Clean) (reads : ReadsArray input fill length answers b) : b.Roomy length := by
  obtain ⟨t, ran, _⟩ := reads
  by_cases empty : length = 0
  · exact .inl (by omega)
  · cases answers with
    | nil => exact absurd rfl asked
    | cons a rest =>
      have positive : 0 ≤ a.value := by
        rw [plan, if_neg (by omega)] at clean
        by_cases stops : a.value ≤ 0
        · rw [if_pos stops] at clean
          exact (clean _ rfl).1
        · omega
      rw [readFixSizeArray, fixSize, if_neg empty] at ran
      cases moved : readArray input fill 0 length a (b, 0) with
      | error f =>
        rw [moved] at ran
        cases ran
      | ok s => exact roomy_of_readArray some_base rep positive moved

end Array

/-- `expected` holds under `condition` and, for a length that memory can have, only then. -/
structure Exact (length : Nat) (condition expected : Prop) : Prop where
  holds : condition → expected
  only : length < 2 ^ 63 → expected → condition

/-- For every length and all answers that fit, the four functions do what is expected exactly when nothing negative or
too large for an `int` is to be returned. Into a `ByteArray` they also need room for all bytes, once a call is made. -/
theorem fixSize_exact (small : length < 2 ^ 64) (fits : (plan length 0 answers).done ≤ length) :
    (∀ input buffer, buffer.length = length →
      Exact length (plan length 0 answers).Clean (Reads input length answers buffer)) ∧
    (∀ buffer, buffer.length = length → Exact length (plan length 0 answers).Clean (Writes length answers buffer)) ∧
    (∀ input fill base b, 1 ≤ base → Rep base b → answers ≠ [] →
      Exact length ((plan length 0 answers).Clean ∧ b.Roomy length) (ReadsArray input fill length answers b)) ∧
    ∀ base b, 1 ≤ base → Rep base b → (plan length 0 answers).done ≤ b.getReadSize →
      Exact length (plan length 0 answers).Clean (WritesArray length answers b) := by
  refine ⟨fun input buffer whole => ?_, fun buffer whole => ?_, fun input fill base b some_base rep asked => ?_,
    fun base b some_base rep unread => ?_⟩
  · exact ⟨reads_of_clean whole small fits, fun memory reads => clean_of_fixSize memory fits reads⟩
  · exact ⟨writes_of_clean whole small fits, fun memory writes => clean_of_fixSize memory fits writes⟩
  · refine ⟨fun ⟨clean, roomy⟩ => readsArray_of_clean some_base rep small fits clean roomy, fun memory reads => ?_⟩
    obtain ⟨t, ran, flat⟩ := reads
    have clean := clean_of_fixSize memory fits ran
    exact ⟨clean, roomy_of_readsArray some_base rep asked clean ⟨t, ran, flat⟩⟩
  · refine ⟨writesArray_of_clean some_base rep small fits unread, fun memory writes => ?_⟩
    obtain ⟨t, ran, _⟩ := writes
    exact clean_of_fixSize memory fits ran

/-- Two bytes and then two more. -/
theorem fixSize_exact_pieces :
    readFixSize (fun i => i.toUInt8) 4 [.result 2, .result 2] [9, 9, 9, 9] = .ok (some 4, [], [0, 1, 2, 3], 4) := by
  have clean : (plan 4 0 [.result 2, .result 2]).Clean := by
    intro ret returned
    obtain rfl : 4 = ret := Option.some.inj returned
    decide
  have fits : (plan 4 0 [.result 2, .result 2]).done ≤ 4 := by decide
  obtain ⟨reads, _⟩ := fixSize_exact (by decide) fits
  exact (reads (fun i => i.toUInt8) [9, 9, 9, 9] rfl).holds clean

/-- After an error the loop goes on. It waits for another answer, stores the next piece over the one before, or in
front of the buffer. -/
theorem fixSize_goes_on :
    readFixSize (fun i => i.toUInt8) 4 [.disconnected] [9, 9, 9, 9] = .ok (none, [], [9, 9, 9, 9], 0) ∧
      readFixSize (fun i => i.toUInt8) 4 [.result 2, .result (-1), .result 3] [9, 9, 9, 9] =
        .ok (some 4, [], [0, 2, 3, 4], 5) ∧
      readFixSize (fun i => i.toUInt8) 4 [.result (-1), .result 1] [9, 9, 9, 9] = .error .outside ∧
      writeFixSize 4 [.result 2, .result (-1), .result 3] [1, 2, 3, 4] = .ok (some 4, [], [1, 2, 2, 3, 4]) :=
  ⟨rfl, rfl, rfl, rfl⟩

end Cool.Stream
