import Cool.ByteArray.Direct

/-!
# Reading strings back from the chain

Strings written one after another come back, unless a length does not fit its prefix, a string has no memory,
or the last string is empty and its length ends where the chain ends: the `read` of its no bytes then
dereferences `nullptr`.
-/

namespace Cool.ByteArray

open Foundation

/-- The lengths of `write_string_f16`, `write_string_f32` and `write_string_f64`. -/
inductive Width where
  | f16 | f32 | f64
  deriving DecidableEq, Repr

def Width.bytes : Width → Nat
  | .f16 => 2
  | .f32 => 4
  | .f64 => 8

theorem Width.bytes_pos (width : Width) : 1 ≤ width.bytes := by cases width <;> decide

namespace Direct

variable (order : Endian) (heap : ByteArray → Nat → Nat → UInt8) (allocates : Nat → Bool)

/-- `write(buf, size)`; the memory of new nodes holds what `heap` says. -/
def write (buf : List UInt8) : Direct Unit := fun b => raw (ByteArray.write (heap b) buf) b

def writeFixed (n : Nat) (val : BitVec (8 * n)) : Direct Unit := do
  let b ← get
  write heap (Typed.memoryOf (if b.endian ≠ order then Typed.byteswap val else val))

/-- The length goes out as a signed integer, truncated to its width. -/
def writeString (n : Nat) (val : List UInt8) : Direct Unit := do
  writeFixed order heap n (BitVec.ofNat _ val.length)
  write heap val

def writeStringF16 (val : List UInt8) : Direct Unit := writeString order heap 2 val
def writeStringF32 (val : List UInt8) : Direct Unit := writeString order heap 4 val
def writeStringF64 (val : List UInt8) : Direct Unit := writeString order heap 8 val

def writeWidth : Width → List UInt8 → Direct Unit
  | .f16, val => writeStringF16 order heap val
  | .f32, val => writeStringF32 order heap val
  | .f64, val => writeStringF64 order heap val

def readWidth : Width → Direct (List UInt8)
  | .f16 => readStringF16 order allocates
  | .f32 => readStringF32 order allocates
  | .f64 => readStringF64 order allocates

def writeStrings : List (Width × List UInt8) → Direct Unit
  | [] => return
  | item :: rest => do
    writeWidth order heap item.1 item.2
    writeStrings rest

def readStrings : List Width → Direct (List (List UInt8))
  | [] => return []
  | width :: rest => do
    let val ← readWidth order allocates width
    return val :: (← readStrings rest)

theorem writeWidth_eq (width : Width) (val : List UInt8) :
    writeWidth order heap width val = writeString order heap width.bytes val := by
  cases width <;> rfl

theorem readWidth_eq (width : Width) : readWidth order allocates width = readString order allocates width.bytes := by
  cases width <;> rfl

/-! ### What is written -/

def encoded (e : Endian) (n : Nat) (val : List UInt8) : List UInt8 :=
  Typed.fixedBytes order e (n := n) (BitVec.ofNat _ val.length) ++ val

def encodedAll (e : Endian) (items : List (Width × List UInt8)) : List UInt8 :=
  items.flatMap fun item => encoded order e item.1.bytes item.2

theorem length_encoded (e : Endian) (n : Nat) (val : List UInt8) :
    (encoded order e n val).length = n + val.length := by
  rw [encoded, List.length_append, Typed.fixedBytes, Typed.length_memoryOf]

theorem encodedAll_cons (e : Endian) (item : Width × List UInt8) (items : List (Width × List UInt8)) :
    encodedAll order e (item :: items) = encoded order e item.1.bytes item.2 ++ encodedAll order e items :=
  List.flatMap_cons

variable {base : Nat} {b t : ByteArray}

structure Wrote (base : Nat) (b : ByteArray) (bs : List UInt8) (t : ByteArray) : Prop where
  rep : Rep base t
  flat : t.flat = b.flat.write bs
  endian : t.endian = b.endian

theorem Wrote.trans {u : ByteArray} {xs ys : List UInt8} (rep : Rep base b) (first : Wrote base b xs t)
    (second : Wrote base t ys u) : Wrote base b (xs ++ ys) u where
  rep := second.rep
  flat := by rw [second.flat, first.flat, b.flat.write_write rep.pos_le_contents]
  endian := second.endian.trans first.endian

theorem write_wrote (positive : 1 ≤ base) (rep : Rep base b) {buf : List UInt8}
    (returned : write heap buf b = .ok () t) : Wrote base b buf t := by
  have roomy : b.Roomy buf.length := by
    by_contra short
    have fault := fault_write positive rep (heap b) buf
    rw [if_neg short, Op.fault] at fault
    rw [write, raw] at returned
    cases run : ByteArray.write (heap b) buf b with
    | ok v u => rw [run] at fault; cases fault
    | error f u => rw [run] at returned; cases returned
  obtain ⟨u, written, rep', same⟩ :=
    write_stream positive rep (heap b) buf ((addCapacity_roomy positive rep (heap b)).mpr roomy)
  rw [write, raw, written] at returned
  cases returned
  have stream : t.stream = ⟨b.flat.write buf, b.endian⟩ := (EStateM.Result.ok.inj same).2.symm
  exact ⟨rep', congrArg Stream.flat stream, congrArg Stream.endian stream⟩

theorem writeString_wrote (positive : 1 ≤ base) (rep : Rep base b) {n : Nat} {val : List UInt8}
    (returned : writeString order heap n val b = .ok () t) : Wrote base b (encoded order b.endian n val) t := by
  obtain ⟨_, s, first, second⟩ := bind_returns returned
  have length := write_wrote heap positive rep first
  exact length.trans rep (write_wrote heap positive length.rep second)

theorem writeStrings_wrote (positive : 1 ≤ base) (items : List (Width × List UInt8)) (rep : Rep base b)
    (returned : writeStrings order heap items b = .ok () t) : Wrote base b (encodedAll order b.endian items) t := by
  induction items generalizing b with
  | nil =>
    cases returned
    exact ⟨rep, by simp [encodedAll, flat, Flat.write], rfl⟩
  | cons item items ih =>
    obtain ⟨_, s, first, second⟩ := bind_returns returned
    rw [writeWidth_eq] at first
    have here := writeString_wrote order heap positive rep first
    have later := ih here.rep second
    rw [here.endian] at later
    rw [encodedAll_cons]
    exact here.trans rep later

/-! ### What is read back -/

/-- The cursor stands behind `cs` in contents that go on with `bs`. -/
structure Before (base : Nat) (cs bs rest : List UInt8) (b : ByteArray) : Prop where
  rep : Rep base b
  flat : b.flat = ⟨cs ++ bs ++ rest, cs.length⟩

/-- `bs` has been read, and the chain is as long as it was. -/
structure Consumed (base : Nat) (cs bs rest : List UInt8) (b t : ByteArray) : Prop where
  rep : Rep base t
  flat : t.flat = ⟨cs ++ bs ++ rest, (cs ++ bs).length⟩
  capacity : t.capacity = b.capacity
  endian : t.endian = b.endian

variable {cs xs ys bs rest : List UInt8} {n : Nat} {val : List UInt8}

theorem Before.left (before : Before base cs (xs ++ ys) rest b) : Before base cs xs (ys ++ rest) b :=
  ⟨before.rep, by rw [before.flat]; simp⟩

theorem Before.length_le (before : Before base cs bs rest b) : cs.length + bs.length ≤ b.capacity := by
  have length := before.rep.length_contents
  have size_le := before.rep.size_le
  rw [before.flat] at length
  simp only [List.length_append] at length
  omega

theorem Consumed.before (first : Consumed base cs xs (ys ++ rest) b t) : Before base (cs ++ xs) ys rest t :=
  ⟨first.rep, by rw [first.flat]; simp⟩

theorem Consumed.trans {u : ByteArray} (first : Consumed base cs xs (ys ++ rest) b t)
    (second : Consumed base (cs ++ xs) ys rest t u) : Consumed base cs (xs ++ ys) rest b u :=
  ⟨second.rep, by rw [second.flat, List.append_assoc cs], second.capacity.trans first.capacity,
    second.endian.trans first.endian⟩

theorem Follows.consumed {α : Type} {act : Direct α} {spec : Typed α} {v : α} (follows : Follows base act spec)
    (consumes : Typed.Consumes b.endian spec bs v b.endian) (before : Before base cs bs rest b) :
    ∃ t, act b = .ok v t ∧ Consumed base cs bs rest b t := by
  have spec_run := consumes cs rest
  rw [← stream_eq before.flat rfl] at spec_run
  rcases follows b before.rep with ⟨u, t, returned, rep, kept, same⟩ | ⟨f, t, _, _, _, _, same⟩
  · obtain ⟨rfl, stream⟩ := EStateM.Result.ok.inj (same.symm.trans spec_run)
    exact ⟨t, returned, rep, congrArg Stream.flat stream, kept, congrArg Stream.endian stream⟩
  · rw [spec_run] at same
    cases same

theorem read_length (positive : 1 ≤ base) (rep : Rep base b) {n : Nat} {bytes : List UInt8}
    (returned : ByteArray.read n b = .ok bytes t) : bytes.length = n := by
  by_cases some_bytes : 1 ≤ n
  · rcases read_stream positive rep some_bytes with ⟨u, delivered, _, same⟩ | ⟨f, thrown, _⟩
    · rw [delivered] at returned
      cases returned
      obtain ⟨enough, _⟩ := Typed.read_ok same
      rw [Flat.peek, List.length_take, List.length_drop]
      exact Nat.min_eq_left enough
    · rw [thrown] at returned
      cases returned
  · obtain rfl : n = 0 := by omega
    rw [read_zero positive rep] at returned
    split at returned
    · cases returned
    · cases returned
      rfl

/-- The bytes of a string are read when there are some, or there is a current node. -/
theorem payload_consumed (positive : 1 ≤ base) (before : Before base cs val rest b)
    (current : val = [] → cs.length ≠ b.capacity) :
    ∃ t, raw (ByteArray.read val.length) b = .ok val t ∧ Consumed base cs val rest b t := by
  by_cases empty : val = []
  · subst empty
    have pos : b.pos = cs.length := congrArg Flat.pos before.flat
    refine ⟨b, ?_, before.rep, by rw [before.flat]; simp, rfl, rfl⟩
    rw [raw, List.length_nil, read_zero positive before.rep, if_neg (by rw [pos]; exact current rfl)]
  · have some_bytes : 1 ≤ val.length := List.length_pos_of_ne_nil empty
    exact (raw_follows positive some_bytes).consumed (Typed.read_consumes val) before

theorem readString_length (positive : 1 ≤ base) (some_bytes : 1 ≤ n)
    (before : Before base cs (encoded order b.endian n val) rest b) :
    ∃ s, Consumed base cs (Typed.fixedBytes order b.endian (n := n) (BitVec.ofNat _ val.length)) (val ++ rest) b s ∧
      readString order allocates n b =
        (if allocates (val.length % 2 ^ (8 * n)) = true then raw (ByteArray.read (val.length % 2 ^ (8 * n)))
          else throw .resize : Direct (List UInt8)) s := by
  obtain ⟨s, returned, consumed⟩ := (readFixed_follows order positive some_bytes).consumed
    (Typed.readFixed_consumes _) before.left
  refine ⟨s, consumed, ?_⟩
  rw [readString, bind_returned returned, BitVec.toNat_ofNat]

/-- What a string needs to come back: a length that fits, memory, and a current node if it is empty. -/
structure Returns (allocates : Nat → Bool) (capacity n start : Nat) (val : List UInt8) : Prop where
  fits : val.length < 2 ^ (8 * n)
  memory : allocates val.length = true
  current : val = [] → start + n ≠ capacity

theorem readString_consumed (positive : 1 ≤ base) (some_bytes : 1 ≤ n)
    (before : Before base cs (encoded order b.endian n val) rest b)
    (returns : Returns allocates b.capacity n cs.length val) :
    ∃ t, readString order allocates n b = .ok val t ∧ Consumed base cs (encoded order b.endian n val) rest b t := by
  obtain ⟨s, length, run⟩ := readString_length order allocates positive some_bytes before
  rw [Nat.mod_eq_of_lt returns.fits, if_pos returns.memory] at run
  have current : val = [] → (cs ++ Typed.fixedBytes order b.endian (n := n) (BitVec.ofNat _ val.length)).length ≠
      s.capacity := by
    intro empty
    rw [List.length_append, Typed.fixedBytes, Typed.length_memoryOf, length.capacity]
    exact returns.current empty
  obtain ⟨t, returned, payload⟩ := payload_consumed positive length.before current
  exact ⟨t, run.trans returned, length.trans payload⟩

theorem returns_of_readString (positive : 1 ≤ base) (some_bytes : 1 ≤ n)
    (before : Before base cs (encoded order b.endian n val) rest b)
    (returned : readString order allocates n b = .ok val t) : Returns allocates b.capacity n cs.length val := by
  obtain ⟨s, length, run⟩ := readString_length order allocates positive some_bytes before
  rw [run] at returned
  by_cases memory : allocates (val.length % 2 ^ (8 * n)) = true
  · rw [if_pos memory, raw] at returned
    cases read : ByteArray.read (val.length % 2 ^ (8 * n)) s with
    | error f u => rw [read] at returned; cases returned
    | ok bytes u =>
      rw [read] at returned
      cases returned
      have same := read_length positive length.rep read
      rw [← same] at memory
      refine ⟨?_, memory, ?_⟩
      · rw [same]
        exact Nat.mod_lt _ (Nat.two_pow_pos _)
      · rintro rfl last
        have pos : s.pos = cs.length + n := by
          have := congrArg Flat.pos length.flat
          rwa [List.length_append, Typed.fixedBytes, Typed.length_memoryOf] at this
        rw [List.length_nil, Nat.zero_mod, read_zero positive length.rep, if_pos (by rw [pos, last, length.capacity])]
          at read
        cases read
  · rw [if_neg memory] at returned
    cases returned

theorem consumed_of_readString (positive : 1 ≤ base) (some_bytes : 1 ≤ n)
    (before : Before base cs (encoded order b.endian n val) rest b)
    (returned : readString order allocates n b = .ok val t) : Consumed base cs (encoded order b.endian n val) rest b t := by
  have returns := returns_of_readString order allocates positive some_bytes before returned
  obtain ⟨u, returned', consumed⟩ := readString_consumed order allocates positive some_bytes before returns
  obtain ⟨_, rfl⟩ := EStateM.Result.ok.inj (returned.symm.trans returned')
  exact consumed

/-- Each value needs something, and the last one, if it is empty, that the chain goes on behind it. Behind any
other there is a byte of the next. -/
theorem all_last_cons {α : Type} {needs empty : α → Prop} {x : α} {xs : List α} {here stop capacity : Nat}
    (last : xs = [] → empty x → here = stop) (more : xs ≠ [] → here < stop) (inside : stop ≤ capacity) :
    ((∀ y ∈ x :: xs, needs y) ∧ ∀ y, (x :: xs).getLast? = some y → empty y → stop ≠ capacity) ↔
      (needs x ∧ (empty x → here ≠ capacity)) ∧
        (∀ y ∈ xs, needs y) ∧ ∀ y, xs.getLast? = some y → empty y → stop ≠ capacity := by
  rw [List.forall_mem_cons]
  cases xs with
  | nil =>
    have ends : (empty x → stop ≠ capacity) ↔ (empty x → here ≠ capacity) :=
      forall_congr' fun none => by rw [last rfl none]
    simp [ends]
  | cons next xs =>
    have before := more (List.cons_ne_nil next xs)
    have apart : here ≠ capacity := by omega
    rw [List.getLast?_cons_cons]
    simp only [apart, ne_eq, not_false_eq_true, implies_true, and_true, and_assoc]

/-- Every string has what it needs, the last one at the end of what is read. -/
def AllReturn (allocates : Nat → Bool) (items : List (Width × List UInt8)) (stop capacity : Nat) : Prop :=
  (∀ item ∈ items, item.2.length < 2 ^ (8 * item.1.bytes) ∧ allocates item.2.length = true) ∧
    ∀ last, items.getLast? = some last → last.2 = [] → stop ≠ capacity

theorem returns_iff {capacity start : Nat} : Returns allocates capacity n start val ↔
    (val.length < 2 ^ (8 * n) ∧ allocates val.length = true) ∧ (val = [] → start + n ≠ capacity) :=
  ⟨fun returns => ⟨⟨returns.fits, returns.memory⟩, returns.current⟩, fun ⟨⟨fits, memory⟩, current⟩ => ⟨fits, memory, current⟩⟩

theorem allReturn_cons {item : Width × List UInt8} {items : List (Width × List UInt8)} {start stop capacity : Nat}
    (e : Endian) (ends : stop = start + (encodedAll order e (item :: items)).length) (inside : stop ≤ capacity) :
    AllReturn allocates (item :: items) stop capacity ↔
      Returns allocates capacity item.1.bytes start item.2 ∧ AllReturn allocates items stop capacity := by
  rw [encodedAll_cons, List.length_append, length_encoded] at ends
  rw [returns_iff]
  refine all_last_cons ?_ ?_ inside
  · rintro rfl empty
    rw [ends, empty]
    rfl
  · intro some_items
    obtain ⟨next, later, rfl⟩ := List.exists_cons_of_ne_nil some_items
    have := next.1.bytes_pos
    rw [encodedAll_cons, List.length_append, length_encoded] at ends
    omega

theorem readStrings_iff (positive : 1 ≤ base) (items : List (Width × List UInt8))
    (before : Before base cs (encodedAll order b.endian items) rest b) :
    (∃ t, readStrings order allocates (items.map Prod.fst) b = .ok (items.map Prod.snd) t) ↔
      AllReturn allocates items (cs.length + (encodedAll order b.endian items).length) b.capacity := by
  induction items generalizing b cs with
  | nil => exact iff_of_true ⟨b, rfl⟩ ⟨by simp, by simp⟩
  | cons item items ih =>
    rw [allReturn_cons order allocates b.endian rfl before.length_le]
    rw [encodedAll_cons] at before ⊢
    have first := before.left
    rw [List.map_cons, List.map_cons, readStrings, readWidth_eq]
    -- Both sides give the first string, and with it the state from which the others are read.
    have later (s : ByteArray) (consumed : Consumed base cs (encoded order b.endian item.1.bytes item.2)
        (encodedAll order b.endian items ++ rest) b s) :
        (∃ t, readStrings order allocates (items.map Prod.fst) s = .ok (items.map Prod.snd) t) ↔
          AllReturn allocates items (cs.length + (encoded order b.endian item.1.bytes item.2 ++
            encodedAll order b.endian items).length) b.capacity := by
      have next := consumed.before
      rw [← consumed.endian] at next
      rw [ih next, consumed.endian, consumed.capacity, List.length_append, List.length_append, Nat.add_assoc]
    constructor
    · rintro ⟨t, returned⟩
      obtain ⟨val, s, here, rest_returned⟩ := bind_returns returned
      obtain ⟨vals, u, others, last⟩ := bind_returns rest_returned
      cases last
      exact ⟨returns_of_readString order allocates positive item.1.bytes_pos first here,
        (later s (consumed_of_readString order allocates positive item.1.bytes_pos first here)).mp ⟨t, others⟩⟩
    · rintro ⟨returns, all⟩
      obtain ⟨s, here, consumed⟩ := readString_consumed order allocates positive item.1.bytes_pos first returns
      obtain ⟨t, others⟩ := (later s consumed).mpr all
      refine ⟨t, ?_⟩
      rw [bind_returned here, bind_returned others]
      rfl

end Direct

open Direct

variable {base : Nat}

/-- Strings written from the start of an array come back after `position(0)` exactly when every length fits
its prefix, there is memory for every string, and the last one is not empty where the chain ends. -/
theorem strings_return_iff (positive : 1 ≤ base) {b w : ByteArray} (rep : Rep base b) (start : b.pos = 0)
    (order : Endian) (heap : ByteArray → Nat → Nat → UInt8) (allocates : Nat → Bool)
    (items : List (Width × List UInt8)) (written : writeStrings order heap items b = .ok () w) :
    ∃ r, position 0 w = .ok () r ∧
      ((∃ t, readStrings order allocates (items.map Prod.fst) r = .ok (items.map Prod.snd) t) ↔
        AllReturn allocates items w.pos w.capacity) := by
  have wrote := writeStrings_wrote order heap positive items rep written
  have pos : w.pos = (encodedAll order b.endian items).length := by
    have := congrArg Flat.pos wrote.flat
    rwa [Flat.write, show b.flat.pos = 0 from start, Nat.zero_add] at this
  obtain ⟨r, moved, rep', stream⟩ := position_stream positive wrote.rep
  have same : r.flat = w.flat.seek 0 [] := congrArg Stream.flat (EStateM.Result.ok.inj stream).2.symm
  have endian : r.endian = b.endian :=
    (congrArg Stream.endian (EStateM.Result.ok.inj stream).2.symm).trans wrote.endian
  have capacity : r.capacity = w.capacity := by
    have kept := position_capacity 0 w
    rwa [moved] at kept
  have before : Before base [] (encodedAll order r.endian items)
      (b.flat.contents.drop (encodedAll order r.endian items).length) r := ⟨rep', by
    rw [same, Flat.seek, wrote.flat, Flat.write, show b.flat.pos = 0 from start, endian]
    simp⟩
  have iff := readStrings_iff order allocates positive items before
  rw [List.length_nil, Nat.zero_add, endian, capacity, ← pos] at iff
  exact ⟨r, moved, iff⟩

/-- The call returns, with the cursor before the end of the chain. -/
def leavesRoom {ε : Type} : EStateM.Result ε ByteArray Unit → Bool
  | .ok _ w => w.pos ≠ w.capacity
  | .error _ _ => false

theorem ok_of_leavesRoom {ε : Type} {result : EStateM.Result ε ByteArray Unit} (leaves : leavesRoom result = true) :
    ∃ w, result = .ok () w ∧ w.pos ≠ w.capacity := by
  cases result with
  | ok _ w => exact ⟨w, rfl, of_decide_eq_true leaves⟩
  | error => cases leaves

/-- Two strings in a node of 8 bytes: the second is empty, and does not end the node. -/
theorem strings_return_iff_two : ∃ w r t,
    writeStrings .little (fun _ _ _ => 0) [(.f16, [65]), (.f16, [])] (new 8 fun _ => 0) = .ok () w ∧
      position 0 w = .ok () r ∧ readStrings .little (fun _ => true) [.f16, .f16] r = .ok [[65], []] t := by
  have rep : Rep 8 (new 8 fun _ => 0) := new_rep (by decide) _
  have leaves : leavesRoom (writeStrings .little (fun _ _ _ => 0) [(.f16, [65]), (.f16, [])] (new 8 fun _ => 0)) =
      true := by decide +kernel
  obtain ⟨w, written, room⟩ := ok_of_leavesRoom leaves
  obtain ⟨r, moved, iff⟩ := strings_return_iff (by decide) rep rfl .little (fun _ _ _ => 0) (fun _ => true) _ written
  obtain ⟨t, returned⟩ := iff.mpr ⟨by decide, fun _ _ _ => room⟩
  exact ⟨w, r, t, written, moved, returned⟩

/-- An empty string whose length fills the only node. -/
theorem empty_string_lost : ∃ w r t,
    writeStrings .little (fun _ _ _ => 0) [(.f16, [])] (new 2 fun _ => 0) = .ok () w ∧
      position 0 w = .ok () r ∧
      readStrings .little (fun _ => true) [.f16] r = .error (.fault .nullNode) t ∧ w.pos = w.capacity :=
  ⟨_, _, _, rfl, rfl, rfl, rfl⟩

end Cool.ByteArray
