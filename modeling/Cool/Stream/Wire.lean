import Cool.ByteArray.Values
import Cool.Foundation.Run
import Cool.Stream.FixSize

/-!
# From one `ByteArray` to another

`writeFixSize` of a `ByteArray` at one end of a connection and `readFixSize` at the other, call by call and in
any order. The connection takes and gives some of the bytes it is offered or asked for, in order, unless a call
passes more `iovec`s than the system takes. What typed calls have written at one end, typed calls read from the
chain at the other.
-/

namespace Cool.Stream

open Foundation Cool.ByteArray

/-- The two loops: the array of the sender with what it has sent, the array of the receiver with the number of
bytes received, and the two locals `left`. -/
structure Wire where
  source : ByteArray × List UInt8
  sink : ByteArray × Nat
  toSend : Nat
  toReceive : Nat

namespace Wire

def new (a b : ByteArray) (length : Nat) : Wire := ⟨(a, []), (b, 0), length, length⟩

/-- A call of the socket that transfers bytes. -/
inductive Move where
  | send (rt : BitVec 32)
  | recv (rt : BitVec 32)
  deriving DecidableEq, Repr

/-- `left -= len`. -/
def less (left : Nat) (rt : BitVec 32) : Nat := (left + (2 ^ 64 - (rt.toInt % 2 ^ 64).toNat)) % 2 ^ 64

/-- One round of the loop whose call returns. -/
def step (fill : Nat → Nat → Nat → UInt8) (s : Wire) : Move → Except Fault Wire
  | .send rt =>
    match writeArray 0 s.toSend (.result rt) s.source with
    | .error fault => .error fault
    | .ok source => .ok { s with source := source, toSend := less s.toSend rt }
  | .recv rt =>
    match readArray (fun i => s.source.2.getD i 0) fill 0 s.toReceive (.result rt) s.sink with
    | .error fault => .error fault
    | .ok sink => .ok { s with sink := sink, toReceive := less s.toReceive rt }

/-- `IOV_MAX`. `sendmsg` and `recvmsg` fail with `EMSGSIZE` when there are more `iovec`s. -/
def iovMax : Nat := 1024

/-- The number of `iovec`s in the next call of the sender. -/
def sendVectors (s : Wire) : Nat :=
  match getReadBuffers s.toSend s.source.1 with
  | .error _ _ => 0
  | .ok (_, pieces) _ => pieces.length

def recvVectors (fill : Nat → Nat → Nat → UInt8) (s : Wire) : Nat :=
  match getWriteBuffers (fill s.toReceive) s.toReceive s.sink.1 with
  | .error _ _ => 0
  | .ok pieces _ => pieces.length

/-- A loop calls while something is left. The connection takes some of what is offered, and gives some of what
is on its way. -/
def allowed (fill : Nat → Nat → Nat → UInt8) (s : Wire) : Move → Bool
  | .send rt => s.sendVectors ≤ iovMax ∧ 0 < rt.toInt ∧ rt.toInt ≤ min s.toSend s.source.1.getReadSize
  | .recv rt => s.recvVectors fill ≤ iovMax ∧ 0 < rt.toInt ∧ rt.toInt ≤ min s.toReceive (s.source.2.length - s.sink.2)

def turn (fill : Nat → Nat → Nat → UInt8) (s : Wire) (m : Move) : Except (Option Fault) Wire :=
  guarded (s.allowed fill m) (s.step fill m)

/-! ### The bytes on their way -/

variable {base base' length sent received : Nat} {a b : ByteArray} {fill : Nat → Nat → Nat → UInt8} {s t : Wire} {m : Move}
  {allocates : Nat → Bool}

/-- What the receiver is to get. -/
def input (a : ByteArray) (length : Nat) : Nat → UInt8 := fun i => (a.flat.peek length).getD i 0

structure Carrying (base base' : Nat) (a b : ByteArray) (length sent received : Nat) (s : Wire) : Prop where
  sending : Sending base a sent s.source
  receiving : Receiving base' b (input a length) length received s.sink
  ordered : received ≤ sent
  inside : sent ≤ length
  toSend : s.toSend = length - sent
  toReceive : s.toReceive = length - received
  /-- Room is made once. -/
  reach : ∀ fill, (s.sink.1.addCapacity fill (length - received)).capacity = (b.addCapacity fill length).capacity

theorem bytes_getD {l : List UInt8} : bytes (fun i => l.getD i 0) 0 l.length = l := by
  apply List.ext_getElem
  · simp
  · intro i _ there
    simp [bytes, List.getD_eq_getElem?_getD, List.getElem?_eq_getElem there]

theorem length_peek (rep : Rep base a) (unread : sent ≤ a.getReadSize) : (a.flat.peek sent).length = sent := by
  have contents := rep.length_contents
  have pos_le := rep.pos_le
  rw [getReadSize] at unread
  rw [Flat.peek, List.length_take, List.length_drop, contents]
  show min sent (a.size - a.pos) = sent
  omega

/-- The bytes that have been sent are the first of those that are to be sent. -/
theorem getD_peek {i : Nat} (inside : sent ≤ length) (before : i < sent) :
    (a.flat.peek sent).getD i 0 = input a length i := by
  simp only [input, Flat.peek, List.getD_eq_getElem?_getD]
  rw [List.getElem?_take_of_lt before, List.getElem?_take_of_lt (by omega)]

theorem bytes_congr {f g : Nat → UInt8} {start n : Nat} (same : ∀ i, i < start + n → f i = g i) :
    bytes f start n = bytes g start n := by
  apply List.map_congr_left
  intro i member
  exact same _ (by have := List.mem_range.mp member; omega)

theorem readArray_congr {f g : Nat → UInt8} {left : Nat} {rt : BitVec 32} {sink : ByteArray × Nat}
    (same : ∀ i, i < sink.2 + rt.toInt.toNat → f i = g i) :
    readArray f fill 0 left (.result rt) sink = readArray g fill 0 left (.result rt) sink := by
  simp only [readArray, bytes_congr same]

theorem less_eq {left : Nat} {rt : BitVec 32} (small : left < 2 ^ 64) (positive : 0 < rt.toInt) (fits : rt.toInt ≤ left) :
    less left rt = left - rt.toInt.toNat := by
  have bound := BitVec.toInt_lt (x := rt)
  rw [less]
  omega

/-! ### The vectors of a call -/

theorem sendVectors_le (some_base : 1 ≤ base) (rep : Rep base s.source.1) (left : 1 ≤ s.toSend)
    (unread : s.toSend ≤ s.source.1.getReadSize) (k : Nat) :
    s.sendVectors ≤ k ↔ s.source.1.pos % base + s.toSend ≤ k * base := by
  have size_le := rep.size_le
  have room : s.source.1.pos + s.toSend ≤ s.source.1.capacity := by
    rw [getReadSize] at unread
    omega
  obtain ⟨pieces, walked, _⟩ := walkCur_covers some_base rep left room
  rw [sendVectors, getReadBuffers, clamp_eq, Nat.min_eq_left unread, if_neg (by omega), walked]
  exact walkCur_length_le some_base rep left walked

theorem recvVectors_le (some_base : 1 ≤ base) (rep : Rep base s.sink.1) (left : 1 ≤ s.toReceive)
    (roomy : s.sink.1.Roomy s.toReceive) (k : Nat) :
    s.recvVectors fill ≤ k ↔ s.sink.1.pos % base + s.toReceive ≤ k * base := by
  have same_pos := (addCapacity_pos (fill s.toReceive) s.toReceive s.sink.1).1
  have rep' := (addCapacity_rep some_base rep (fill s.toReceive) s.toReceive).1
  have room := (addCapacity_roomy some_base rep (fill s.toReceive)).mpr roomy
  obtain ⟨pieces, walked, _⟩ := walkCur_covers some_base rep' left (by omega)
  rw [recvVectors, getWriteBuffers, if_neg (by omega)]
  dsimp only
  rw [walked, ← same_pos]
  exact walkCur_length_le some_base rep' left walked

/-- A part of what starts at `pos` spans no more than the whole. -/
theorem mod_add_le {pos done : Nat} (inside : done ≤ length) (few : pos % base + length ≤ iovMax * base) :
    (pos + done) % base + (length - done) ≤ iovMax * base := by
  have sum : (pos + done) % base ≤ pos % base + done := by
    rw [← Nat.mod_add_mod]
    exact Nat.mod_le _ _
  omega

/-! ### Steps -/

theorem addCapacity_enough {n : Nat} (enough : n ≤ b.getCapacity) (fill : Nat → Nat → UInt8) :
    b.addCapacity fill n = b := by
  unfold addCapacity
  split
  · rfl
  · rw [if_pos enough]

theorem addCapacity_capacity_eq (fill fill' : Nat → Nat → UInt8) (n : Nat) (b : ByteArray) :
    (b.addCapacity fill n).capacity = (b.addCapacity fill' n).capacity := by
  unfold addCapacity
  dsimp only
  split
  · rfl
  · split <;> rfl

theorem Carrying.send {rt : BitVec 32} (some_base : 1 ≤ base) (rep : Rep base a) (unread : length ≤ a.getReadSize)
    (small : length < 2 ^ 31) (carrying : Carrying base base' a b length sent received s)
    (allowed : s.allowed fill (.send rt) = true) :
    ∃ t, s.step fill (.send rt) = .ok t ∧ Carrying base base' a b length (sent + rt.toInt.toNat) received t := by
  obtain ⟨sending, receiving, ordered, inside, toSend, toReceive, reach⟩ := carrying
  have ⟨_, positive, fits⟩ := of_decide_eq_true allowed
  rw [toSend] at fits
  obtain ⟨source, moved, sending⟩ := sending.moves (a := .result rt) some_base rep (by omega : sent < length)
    (Int.le_of_lt positive) (by dsimp only [Answer.value]; omega)
  refine ⟨{ s with source := source, toSend := less s.toSend rt }, ?_, sending, receiving, ?_, ?_, ?_, toReceive,
    reach⟩
  · have moved : writeArray 0 s.toSend (.result rt) s.source = .ok source := by
      rw [toSend]
      exact moved
    simp only [step, moved]
  · omega
  · omega
  · show less s.toSend rt = _
    rw [toSend, less_eq (by omega) positive (by omega)]
    omega

theorem Carrying.recv {rt : BitVec 32} (some_base : 1 ≤ base') (rep : Rep base' b) (unread : length ≤ a.getReadSize)
    (rep_a : Rep base a) (small : length < 2 ^ 31) (carrying : Carrying base base' a b length sent received s)
    (allowed : s.allowed fill (.recv rt) = true) :
    ∃ t, s.step fill (.recv rt) = .ok t ∧ Carrying base base' a b length sent (received + rt.toInt.toNat) t := by
  obtain ⟨sending, receiving, ordered, inside, toSend, toReceive, reach⟩ := carrying
  have ⟨_, positive, fits⟩ := of_decide_eq_true allowed
  have count := receiving.count
  have way : s.source.2.length = sent := by
    rw [sending.sent, length_peek rep_a (by omega)]
  rw [toReceive, way, count] at fits
  obtain ⟨sink, moved, receiving'⟩ : ∃ sink,
      readArray (input a length) fill received (length - received) (.result rt) s.sink = .ok sink ∧
        Receiving base' b (input a length) length (received + rt.toInt.toNat) sink :=
    receiving.moves some_base rep (by omega) (Int.le_of_lt positive) (by dsimp only [Answer.value]; omega)
  have same : ∀ i, i < s.sink.2 + rt.toInt.toNat → s.source.2.getD i 0 = input a length i := by
    intro i before
    rw [sending.sent]
    exact getD_peek inside (by omega)
  have capacity : sink.1.capacity = (s.sink.1.addCapacity (fill (length - received)) (length - received)).capacity :=
    readArray_capacity positive moved
  refine ⟨{ s with sink := sink, toReceive := less s.toReceive rt }, ?_, sending, receiving', ?_, inside, toSend, ?_, ?_⟩
  · have moved : readArray (fun i => s.source.2.getD i 0) fill 0 s.toReceive (.result rt) s.sink = .ok sink := by
      rw [readArray_congr same, toReceive]
      exact moved
    simp only [step, moved]
  · omega
  · show less s.toReceive rt = _
    rw [toReceive, less_eq (by omega) positive (by omega)]
    omega
  · intro fill'
    -- The first call has made room for all that is still to come.
    have room := (addCapacity_roomy some_base receiving.rep (fill (length - received))).mpr receiving.roomy
    have pos : sink.1.pos = b.pos + (received + rt.toInt.toNat) := by
      have := congrArg Flat.pos receiving'.flat
      rwa [Flat.write, length_bytes] at this
    have before : s.sink.1.pos = b.pos + received := by
      have := congrArg Flat.pos receiving.flat
      rwa [Flat.write, length_bytes] at this
    have enough : length - (received + rt.toInt.toNat) ≤ sink.1.getCapacity := by
      rw [getCapacity, capacity, pos]
      omega
    rw [addCapacity_enough enough, capacity, addCapacity_capacity_eq _ fill', reach]

theorem carrying_new (rep : Rep base a) (rep' : Rep base' b) (roomy : b.Roomy length) :
    Carrying base base' a b length 0 0 (new a b length) where
  sending := ⟨rep, rfl, rfl⟩
  receiving := ⟨rep', by simp [bytes, Flat.write, ByteArray.flat, new], roomy, rfl⟩
  ordered := Nat.le_refl _
  inside := Nat.zero_le _
  toSend := rfl
  toReceive := rfl
  reach _ := rfl

section

variable (some_base : 1 ≤ base) (some_base' : 1 ≤ base') (rep : Rep base a) (rep' : Rep base' b)
  (unread : length ≤ a.getReadSize) (small : length < 2 ^ 31)

include some_base some_base' rep rep' unread small

theorem Carrying.step (carrying : Carrying base base' a b length sent received s) (allowed : s.allowed fill m = true) :
    ∃ t sent received, s.step fill m = .ok t ∧ Carrying base base' a b length sent received t := by
  cases m with
  | send rt =>
    obtain ⟨t, moved, next⟩ := carrying.send some_base rep unread small allowed
    exact ⟨t, _, _, moved, next⟩
  | recv rt =>
    obtain ⟨t, moved, next⟩ := carrying.recv some_base' rep' unread rep small allowed
    exact ⟨t, _, _, moved, next⟩

theorem carrying_of_run (roomy : b.Roomy length) {moves : List Move}
    (run : Run (fun s m t => s.turn fill m = .ok t) (new a b length) moves s) :
    ∃ sent received, Carrying base base' a b length sent received s := by
  refine run.invariant (I := fun s => ∃ sent received, Carrying base base' a b length sent received s) ?_
    ⟨0, 0, carrying_new rep rep' roomy⟩
  rintro s m t ⟨sent, received, carrying⟩ moved
  obtain ⟨allowed, stepped⟩ := guarded_eq_ok_iff.mp moved
  obtain ⟨u, sent, received, same, next⟩ := carrying.step some_base some_base' rep rep' unread small allowed
  cases same.symm.trans stepped
  exact ⟨sent, received, next⟩

theorem Carrying.faultless (carrying : Carrying base base' a b length sent received s) (m : Move) (fault : Fault) :
    s.turn fill m ≠ .error (some fault) := by
  intro failed
  obtain ⟨allowed, failed⟩ := guarded_eq_error_iff.mp failed
  obtain ⟨u, sent, received, moved, _⟩ := carrying.step some_base some_base' rep rep' unread small allowed
  cases moved.symm.trans failed

omit some_base some_base' rep' small in
theorem Carrying.source (carrying : Carrying base base' a b length sent received s) :
    s.source.1.pos = a.pos + sent ∧ s.source.1.getReadSize = a.getReadSize - sent ∧ s.source.2.length = sent := by
  have inside := carrying.inside
  have flat := carrying.sending.flat
  have pos : s.source.1.pos = a.pos + sent := congrArg Flat.pos flat
  have size : s.source.1.size = a.size := by
    rw [← carrying.sending.rep.length_contents, ← rep.length_contents, flat]
    rfl
  refine ⟨pos, ?_, ?_⟩
  · rw [getReadSize, getReadSize, size, pos]
    omega
  · rw [carrying.sending.sent, length_peek rep (by omega)]

/-- While bytes are to be received, there are some on their way or some to be sent. -/
theorem Carrying.goes_on (few : a.pos % base + length ≤ iovMax * base) (few' : b.pos % base' + length ≤ iovMax * base')
    (carrying : Carrying base base' a b length sent received s) (more : s.toReceive ≠ 0) :
    ∃ m t, s.turn fill m = .ok t := by
  have allowed : ∃ m, s.allowed fill m = true := by
    have toSend := carrying.toSend
    have toReceive := carrying.toReceive
    have inside := carrying.inside
    have ordered := carrying.ordered
    obtain ⟨pos, left, way⟩ := carrying.source rep unread
    have count := carrying.receiving.count
    have one : (1 : BitVec 32).toInt = 1 := by decide
    by_cases here : received < sent
    · refine ⟨.recv 1, decide_eq_true ⟨?_, by decide, by rw [one]; omega⟩⟩
      have pos' : s.sink.1.pos = b.pos + received := by
        have := congrArg Flat.pos carrying.receiving.flat
        rwa [Flat.write, length_bytes] at this
      rw [recvVectors_le some_base' carrying.receiving.rep (by omega) (toReceive ▸ carrying.receiving.roomy), pos',
        toReceive]
      exact mod_add_le (by omega) few'
    · refine ⟨.send 1, decide_eq_true ⟨?_, by decide, by rw [one]; omega⟩⟩
      rw [sendVectors_le some_base carrying.sending.rep (by omega) (by omega), pos, toSend]
      exact mod_add_le inside few
  obtain ⟨m, allowed⟩ := allowed
  obtain ⟨t, _, _, moved, _⟩ := carrying.step some_base some_base' rep rep' unread small allowed
  exact ⟨m, t, guarded_eq_ok_iff.mpr ⟨allowed, moved⟩⟩

omit some_base some_base' rep' small in
theorem Carrying.delivered (carrying : Carrying base base' a b length sent received s) (done : s.toReceive = 0) :
    Rep base' s.sink.1 ∧ s.sink.1.flat = b.flat.write (a.flat.peek length) ∧
      ∀ fill, s.sink.1.capacity = (b.addCapacity fill length).capacity := by
  have toReceive := carrying.toReceive
  have ordered := carrying.ordered
  have inside := carrying.inside
  obtain rfl : received = length := by omega
  have all : bytes (input a received) 0 received = a.flat.peek received := by
    have whole := bytes_getD (l := a.flat.peek received)
    rwa [length_peek rep unread] at whole
  refine ⟨carrying.receiving.rep, carrying.receiving.flat.trans (by rw [all]), ?_⟩
  intro fill
  rw [← carrying.reach fill, Nat.sub_self, addCapacity, if_pos rfl]

/-! ### Where it fails -/

omit some_base' in
/-- The whole of `a` can be sent in one call. -/
theorem send_all (few : a.pos % base + length ≤ iovMax * base) (some_bytes : 1 ≤ length) (roomy : b.Roomy length)
    (fill : Nat → Nat → Nat → UInt8) :
    ∃ s, Run (fun s m t => s.turn fill m = .ok t) (new a b length) [.send (BitVec.ofNat 32 length)] s ∧
      Carrying base base' a b length length 0 s := by
  have start := carrying_new rep rep' roomy
  have whole : (BitVec.ofNat 32 length).toInt = length := toInt_of_lt small
  have allowed : (new a b length).allowed fill (.send (BitVec.ofNat 32 length)) = true := by
    refine decide_eq_true ⟨?_, ?_, ?_⟩
    · rw [sendVectors_le some_base (s := new a b length) rep some_bytes unread]
      exact few
    · rw [whole]
      omega
    · rw [whole]
      show (length : Int) ≤ min length a.getReadSize
      omega
  obtain ⟨t, moved, carrying⟩ := start.send some_base rep unread small allowed
  rw [whole, Int.toNat_natCast, Nat.zero_add] at carrying
  exact ⟨t, (.nil : Run _ _ [] _).snoc (guarded_eq_ok_iff.mpr ⟨allowed, moved⟩), carrying⟩

/-- Everything arrives in some run. -/
theorem arrives (few : a.pos % base + length ≤ iovMax * base) (few' : b.pos % base' + length ≤ iovMax * base')
    (roomy : b.Roomy length) (fill : Nat → Nat → Nat → UInt8) :
    ∃ moves s, Run (fun s m t => s.turn fill m = .ok t) (new a b length) moves s ∧ s.toReceive = 0 ∧
      Carrying base base' a b length length length s := by
  by_cases none : length = 0
  · subst none
    exact ⟨[], _, .nil, rfl, carrying_new rep rep' roomy⟩
  · obtain ⟨s, run, carrying⟩ := send_all some_base rep rep' unread small few (by omega) roomy fill
    have whole : (BitVec.ofNat 32 length).toInt = length := toInt_of_lt small
    obtain ⟨_, _, way⟩ := carrying.source rep unread
    have toReceive : s.toReceive = length := carrying.toReceive
    have pos : s.sink.1.pos = b.pos := congrArg Flat.pos carrying.receiving.flat
    have allowed : s.allowed fill (.recv (BitVec.ofNat 32 length)) = true := by
      refine decide_eq_true ⟨?_, ?_, ?_⟩
      · rw [recvVectors_le some_base' carrying.receiving.rep (by omega) (toReceive ▸ carrying.receiving.roomy), pos,
          toReceive]
        exact few'
      · rw [whole]
        omega
      · rw [whole, toReceive, way, carrying.receiving.count]
        omega
    obtain ⟨t, moved, carrying⟩ := carrying.recv some_base' rep' unread rep small allowed
    rw [whole, Int.toNat_natCast, Nat.zero_add] at carrying
    refine ⟨_, t, run.snoc (guarded_eq_ok_iff.mpr ⟨allowed, moved⟩), ?_, carrying⟩
    rw [carrying.toReceive, Nat.sub_self]

omit some_base' rep' in
/-- A sender with too many nodes sends nothing. -/
theorem send_stuck (many : ¬ a.pos % base + length ≤ iovMax * base) (m : Move) (t : Wire) :
    (new a b length).turn fill m ≠ .ok t := by
  intro moved
  obtain ⟨allowed, _⟩ := guarded_eq_ok_iff.mp moved
  cases m with
  | recv rt =>
    have ⟨_, positive, fits⟩ := of_decide_eq_true allowed
    have none : rt.toInt ≤ (min length (0 - 0) : Nat) := fits
    omega
  | send rt =>
    have ⟨vectors, positive, fits⟩ := of_decide_eq_true allowed
    have fits : rt.toInt ≤ min length a.getReadSize := fits
    exact many ((sendVectors_le some_base (s := new a b length) rep (show 1 ≤ length by omega) unread iovMax).mp vectors)

omit some_base rep rep' unread in
/-- A receiver with too many nodes receives nothing, and the sender comes to its end. -/
theorem recv_stuck (many : ¬ b.pos % base' + length ≤ iovMax * base')
    (carrying : Carrying base base' a b length length 0 s) (m : Move) (t : Wire) : s.turn fill m ≠ .ok t := by
  intro moved
  obtain ⟨allowed, _⟩ := guarded_eq_ok_iff.mp moved
  have toReceive : s.toReceive = length := carrying.toReceive
  have toSend : s.toSend = 0 := carrying.toSend.trans (Nat.sub_self length)
  cases m with
  | send rt =>
    have ⟨_, positive, fits⟩ := of_decide_eq_true allowed
    rw [toSend] at fits
    omega
  | recv rt =>
    have ⟨vectors, positive, fits⟩ := of_decide_eq_true allowed
    have pos : s.sink.1.pos = b.pos := congrArg Flat.pos carrying.receiving.flat
    rw [recvVectors_le some_base' carrying.receiving.rep (by omega) (toReceive ▸ carrying.receiving.roomy), pos,
      toReceive] at vectors
    exact many vectors

omit some_base' in
/-- Without room in the array of the receiver the first byte that arrives ends the program. -/
theorem recv_faults (few : a.pos % base + length ≤ iovMax * base) (some_base' : 1 ≤ base') (short : ¬ b.Roomy length)
    (fill : Nat → Nat → Nat → UInt8) :
    ∃ s, Run (fun s m t => s.turn fill m = .ok t) (new a b length) [.send 1] s ∧
      ∃ fault, s.turn fill (.recv 1) = .error (some fault) := by
  have some_bytes : 1 ≤ length := by
    by_contra none
    exact short (.inl (by omega))
  have one : (1 : BitVec 32).toInt = 1 := by decide
  have start : Sending base a 0 (a, []) := ⟨rep, rfl, rfl⟩
  obtain ⟨source, moved, sending⟩ := start.moves (a := .result 1) some_base rep (by omega : 0 < length) (by decide)
    (by dsimp only [Answer.value]; rw [one]; omega)
  have sent : source.2.length = 1 := by
    rw [sending.sent]
    exact length_peek rep (by rw [Answer.value, one]; omega)
  have first : (new a b length).turn fill (.send 1) = .ok ⟨source, (b, 0), less length 1, length⟩ := by
    refine guarded_eq_ok_iff.mpr ⟨decide_eq_true ⟨?_, by decide, ?_⟩, ?_⟩
    · rw [sendVectors_le some_base (s := new a b length) rep some_bytes unread]
      exact few
    · rw [one]
      show (1 : Int) ≤ min length a.getReadSize
      omega
    · have moved : writeArray 0 length (.result 1) (a, []) = .ok source := moved
      simp only [step, new, moved]
  refine ⟨_, (.nil : Run _ _ [] _).snoc first, ?_⟩
  have faulted : recvVectors fill ⟨source, (b, 0), less length 1, length⟩ = 0 := by
    obtain ⟨_, lost⟩ := walkCur_addCapacity some_base' rep' (fill length) short
    rw [recvVectors, getWriteBuffers, if_neg (by dsimp only; omega)]
    dsimp only
    rw [lost]
  cases got : readArray (fun i => source.2.getD i 0) fill 0 length (.result 1) (b, 0) with
  | ok sink => exact absurd (roomy_of_readArray some_base' rep' (by decide) got) short
  | error fault =>
    refine ⟨fault, guarded_eq_error_iff.mpr ⟨decide_eq_true ⟨?_, by decide, ?_⟩, ?_⟩⟩
    · rw [faulted]
      exact Nat.zero_le _
    · rw [one, sent]
      show (1 : Int) ≤ min length (1 - 0)
      omega
    · simp only [step, got]

end

/-! ### Typed values -/

/-- The values that arrived are read back exactly when all of them can come. -/
theorem values_return_iff {order : Endian} {items : List Item} {e : Endian} {written : ByteArray.Stream}
    (serialised : Typed.writeAll order items (.empty e) = .ok () written) (some_base' : 1 ≤ base') (rep : Rep base a)
    (loaded : a.flat = ⟨written.flat.contents, 0⟩) (empty : b.flat = ⟨[], 0⟩)
    (carrying : Carrying base base' a b a.size sent received s) (done : s.toReceive = 0) (fill : Nat → Nat → UInt8)
    (allocates : Nat → Bool) :
    ∃ t, position 0 s.sink.1 = .ok () t ∧
      ((∃ u, Direct.readAll order allocates (items.map Item.call) t = .ok (items.map Item.value) u ∧ u.getReadSize = 0) ↔
        Direct.AllCome allocates items a.size (b.addCapacity fill a.size).capacity) := by
  have start : a.pos = 0 := congrArg Flat.pos loaded
  have unread : a.size ≤ a.getReadSize := by rw [getReadSize, start, Nat.sub_zero]
  obtain ⟨rep_s, flat, capacity⟩ := carrying.delivered rep unread done
  have length := rep.length_contents
  rw [loaded] at length
  have whole : a.flat.peek a.size = written.flat.contents := by
    rw [loaded, Flat.peek, List.drop_zero, ← length, List.take_length]
  have arrived : s.sink.1.flat = ⟨written.flat.contents, written.flat.contents.length⟩ := by
    rw [flat, whole, empty]
    simp [Flat.write]
  obtain ⟨t, gap, moved, rep_t, none, rewound⟩ := position_spec some_base' rep_s (Nat.zero_le _)
  obtain rfl : gap = [] := List.eq_nil_of_length_eq_zero (by omega)
  have kept : t.capacity = (b.addCapacity fill a.size).capacity := by
    have kept := position_capacity 0 s.sink.1
    rw [moved] at kept
    exact kept.trans (capacity fill)
  have before : Direct.Before base' [] written.flat.contents [] t :=
    ⟨rep_t, by rw [rewound, arrived, Flat.seek]; simp⟩
  obtain ⟨bs, appends, _⟩ := Typed.all_roundTrips order items
  obtain ⟨e', appends⟩ := appends e
  obtain rfl := (EStateM.Result.ok.inj ((appends []).symm.trans serialised)).2
  obtain ⟨iff, passes⟩ := Direct.readAll_iff some_base' items appends before allocates
  rw [List.length_nil, Nat.zero_add, kept] at iff
  have length : bs.length = a.size := length
  rw [length] at iff
  refine ⟨t, moved, Iff.trans ⟨?_, ?_⟩ iff⟩
  · rintro ⟨u, read, _⟩
    exact ⟨u, read⟩
  · rintro ⟨u, read⟩
    have passed := passes u read
    have pos : u.pos = bs.length := congrArg Flat.pos passed.flat
    have size := passed.rep.length_contents
    rw [passed.flat, List.append_nil] at size
    refine ⟨u, read, ?_⟩
    rw [getReadSize, ← size, pos]
    exact Nat.sub_self _

/-- Typed values that stand in one array reach an empty one and are read from its chain as they were written, however
the connection cuts them and in whatever order the two loops run, exactly when `addCapacity` makes room for all of
them in the second array, neither array has more nodes for them than a call takes, there is memory for every string,
and the last value is not an empty string at the end of the chain. -/
theorem values_cross_iff (order : Endian) (items : List Item) {e : Endian} {written : ByteArray.Stream}
    (serialised : Typed.writeAll order items (.empty e) = .ok () written) (some_base : 1 ≤ base) (some_base' : 1 ≤ base')
    (rep : Rep base a) (rep' : Rep base' b) (loaded : a.flat = ⟨written.flat.contents, 0⟩) (empty : b.flat = ⟨[], 0⟩)
    (small : a.size < 2 ^ 31) (fill : Nat → Nat → Nat → UInt8) (allocates : Nat → Bool) :
    (∀ (moves : List Move) (s : Wire), Run (fun s m t => s.turn fill m = .ok t) (new a b a.size) moves s →
      (∀ m fault, s.turn fill m ≠ .error (some fault)) ∧ (s.toReceive ≠ 0 → ∃ m t, s.turn fill m = .ok t) ∧
      (s.toReceive = 0 → ∃ t, position 0 s.sink.1 = .ok () t ∧ ∃ u,
        Direct.readAll order allocates (items.map Item.call) t = .ok (items.map Item.value) u ∧
          u.getReadSize = 0)) ↔
    b.Roomy a.size ∧ (a.size ≤ iovMax * base ∧ a.size ≤ iovMax * base') ∧
      Direct.AllCome allocates items a.size (b.addCapacity (fill a.size) a.size).capacity := by
  have start : a.pos = 0 := congrArg Flat.pos loaded
  have start' : b.pos = 0 := congrArg Flat.pos empty
  have unread : a.size ≤ a.getReadSize := by rw [getReadSize, start, Nat.sub_zero]
  have spans : a.pos % base + a.size ≤ iovMax * base ↔ a.size ≤ iovMax * base := by
    rw [start, Nat.zero_mod, Nat.zero_add]
  have spans' : b.pos % base' + a.size ≤ iovMax * base' ↔ a.size ≤ iovMax * base' := by
    rw [start', Nat.zero_mod, Nat.zero_add]
  constructor
  · intro crosses
    have few : a.size ≤ iovMax * base := by
      by_contra many
      obtain ⟨_, progress, _⟩ := crosses _ _ .nil
      obtain ⟨m, t, moved⟩ := progress (show a.size ≠ 0 by omega)
      exact send_stuck some_base rep unread small (fun fits => many (spans.mp fits)) m t moved
    have roomy : b.Roomy a.size := by
      by_contra short
      obtain ⟨s, run, fault, failed⟩ := recv_faults some_base rep rep' unread small (spans.mpr few)
        some_base' short fill
      exact (crosses _ s run).1 _ fault failed
    have few' : a.size ≤ iovMax * base' := by
      by_contra many
      obtain ⟨s, run, carrying⟩ := send_all some_base rep rep' unread small (spans.mpr few)
        (by omega) roomy fill
      obtain ⟨_, progress, _⟩ := crosses _ s run
      obtain ⟨m, t, moved⟩ := progress (by rw [carrying.toReceive]; omega)
      exact recv_stuck some_base' small (fun fits => many (spans'.mp fits)) carrying m t moved
    refine ⟨roomy, ⟨few, few'⟩, ?_⟩
    obtain ⟨moves, s, run, done, carrying⟩ := arrives some_base some_base' rep rep' unread small
      (spans.mpr few) (spans'.mpr few') roomy fill
    obtain ⟨t, moved, iff⟩ := values_return_iff serialised some_base' rep loaded empty carrying
      done (fill a.size) allocates
    obtain ⟨_, _, reads⟩ := crosses moves s run
    obtain ⟨t', moved', read⟩ := reads done
    obtain ⟨_, rfl⟩ := EStateM.Result.ok.inj (moved.symm.trans moved')
    exact iff.mp read
  · rintro ⟨roomy, ⟨few, few'⟩, come⟩ moves s run
    obtain ⟨sent, received, carrying⟩ := carrying_of_run some_base some_base' rep rep' unread small roomy run
    refine ⟨carrying.faultless some_base some_base' rep rep' unread small,
      carrying.goes_on some_base some_base' rep rep' unread small (spans.mpr few) (spans'.mpr few'), ?_⟩
    intro done
    obtain ⟨t, moved, iff⟩ := values_return_iff serialised some_base' rep loaded empty carrying
      done (fill a.size) allocates
    exact ⟨t, moved, iff.mpr come⟩

/-- A `uint16_t` in an array with one node of four bytes. -/
def loaded : ByteArray :=
  (Op.position 0).exec ((Op.write (fun _ _ => 0) [2, 1]).exec (ByteArray.new 4 fun _ => 0))

theorem loaded_rep : Rep 4 loaded :=
  reachable_rep (by decide)
    ((Run.nil.snoc (.op (.write (fun _ _ => 0) [2, 1]) (by decide))).snoc (.op (.position 0) (by decide)))

theorem values_cross_iff_short : (ByteArray.new 1 fun _ => 0).Roomy 2 ∧ ∀ (moves : List Move) (s : Wire),
    Run (fun s m t => s.turn (fun _ _ _ => 0) m = .ok t) (new loaded (.new 1 fun _ => 0) 2) moves s → s.toReceive = 0 →
      ∃ t, position 0 s.sink.1 = .ok () t ∧ ∃ u,
        Direct.readAll .little (fun _ => true) [(true, .fuint16)] t = .ok [⟨.fuint16, 0x0102#16⟩] u := by
  refine ⟨by decide, ?_⟩
  intro moves s run done
  have serialised : Typed.writeAll .little [⟨true, .fuint16, 0x0102#16, trivial⟩] (.empty .little) =
      .ok () ⟨⟨[2, 1], 2⟩, .little⟩ := rfl
  have fresh : Rep 1 (ByteArray.new 1 fun _ => 0) := new_rep (by decide) _
  have come : Direct.AllCome (fun _ => true) [⟨true, .fuint16, 0x0102#16, trivial⟩] 2
      ((ByteArray.new 1 fun _ => 0).addCapacity (fun _ _ => 0) 2).capacity := by
    refine ⟨fun _ _ _ _ => rfl, ?_⟩
    intro last found empty
    obtain rfl := Option.some.inj found
    cases empty
  have crosses := (values_cross_iff .little _ serialised (by decide) (by decide) loaded_rep fresh rfl rfl (by decide)
    (fun _ _ _ => 0) fun _ => true).mpr ⟨by decide, by decide, come⟩
  obtain ⟨_, _, arrives⟩ := crosses moves s run
  obtain ⟨t, rewound, u, read, _⟩ := arrives done
  exact ⟨t, rewound, u, read⟩

end Wire

end Cool.Stream
