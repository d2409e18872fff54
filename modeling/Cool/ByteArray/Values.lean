import Cool.ByteArray.Strings

/-!
# Reading typed values back from the chain

A list of typed values that stand in a chain comes back, unless there is no memory for a string or the last value
is an empty string whose length ends where the chain ends.
-/

namespace Cool.ByteArray

open Foundation

/-- The string, where a value is one. -/
def Kind.text : (k : Kind) → k.Carrier → Option (List UInt8)
  | stringF16, val | stringF32, val | stringF64, val => some val
  | _, _ => none

def Item.text (item : Item) : Option (List UInt8) := item.kind.text item.val

namespace Direct

def setIsLittleEndian (val : Bool) : Direct Unit :=
  modify fun b => { b with endian := if val then .little else .big }

def readAll (order : Endian) (allocates : Nat → Bool) : List (Bool × Kind) → Direct (List (Sigma Kind.Carrier))
  | [] => return []
  | (little, kind) :: rest => do
    setIsLittleEndian little
    let val ← ofKind order allocates kind
    return ⟨kind, val⟩ :: (← readAll order allocates rest)

/-! ### One value -/

/-- What a value that ends at `stop` needs: memory for a string, and a current node if it is empty. -/
structure Comes (allocates : Nat → Bool) (capacity stop : Nat) (text : Option (List UInt8)) : Prop where
  memory : ∀ val, text = some val → allocates val.length = true
  current : text = some [] → stop ≠ capacity

variable {base : Nat} {b t : ByteArray} {order e e' : Endian} {allocates : Nat → Bool} {cs bs xs ys rest : List UInt8}

/-- A read returns the value exactly when it can come, and then it has consumed the bytes of it. -/
structure Recovers {α : Type} (base : Nat) (allocates : Nat → Bool) (cs bs rest : List UInt8) (b : ByteArray)
    (text : Option (List UInt8)) (act : Direct α) (val : α) : Prop where
  iff : (∃ t, act b = .ok val t) ↔ Comes allocates b.capacity (cs.length + bs.length) text
  consumed : ∀ t, act b = .ok val t → Consumed base cs bs rest b t

theorem Follows.recovers {α : Type} {act : Direct α} {spec : Typed α} {val : α} (follows : Follows base act spec)
    (consumes : Typed.Consumes b.endian spec bs val b.endian) (before : Before base cs bs rest b) :
    Recovers base allocates cs bs rest b none act val := by
  obtain ⟨t, returned, consumed⟩ := follows.consumed consumes before
  refine ⟨iff_of_true ⟨t, returned⟩ ⟨nofun, nofun⟩, ?_⟩
  intro u returned'
  obtain ⟨_, rfl⟩ := EStateM.Result.ok.inj (returned.symm.trans returned')
  exact consumed

theorem unique_of_appends {act : Typed Unit} {e'' : Endian} (first : Typed.Appends e act xs e')
    (second : Typed.Appends e act ys e'') : xs = ys := by
  obtain ⟨_, same⟩ := EStateM.Result.ok.inj ((first []).symm.trans (second []))
  exact congrArg (fun s : Stream => s.flat.contents) same

theorem readString_recovers {n : Nat} {val : List UInt8} (positive : 1 ≤ base) (some_bytes : 1 ≤ n)
    (fits : val.length < 2 ^ (8 * n))
    (appends : Typed.Appends b.endian (Typed.writeFixed order n (BitVec.ofNat _ val.length) >>= fun _ => Typed.write val)
      bs b.endian) (before : Before base cs bs rest b) :
    Recovers base allocates cs bs rest b (some val) (readString order allocates n) val := by
  obtain rfl : bs = encoded order b.endian n val :=
    unique_of_appends appends ((Typed.writeFixed_appends _).seq (Typed.write_appends val))
  have stop : val = [] → cs.length + (encoded order b.endian n val).length = cs.length + n := by
    intro empty
    rw [length_encoded, empty]
    rfl
  refine ⟨⟨?_, ?_⟩, ?_⟩
  · intro ⟨t, returned⟩
    have returns := returns_of_readString order allocates positive some_bytes before returned
    refine ⟨?_, ?_⟩
    · intro other same
      obtain rfl := Option.some.inj same
      exact returns.memory
    · intro empty
      rw [stop (Option.some.inj empty)]
      exact returns.current (Option.some.inj empty)
  · intro comes
    have returns : Returns allocates b.capacity n cs.length val := by
      refine ⟨fits, comes.memory val rfl, ?_⟩
      intro empty
      rw [← stop empty]
      exact comes.current (congrArg some empty)
    obtain ⟨t, returned, _⟩ := readString_consumed order allocates positive some_bytes before returns
    exact ⟨t, returned⟩
  · intro t returned
    exact consumed_of_readString order allocates positive some_bytes before returned

theorem ofKind_recovers (positive : 1 ≤ base) (item : Item)
    (appends : Typed.Appends b.endian (item.kind.write order item.val) bs b.endian)
    (consumes : Typed.Consumes b.endian (item.kind.read order) bs item.val b.endian) (before : Before base cs bs rest b)
    (allocates : Nat → Bool) :
    Recovers base allocates cs bs rest b item.text (ofKind order allocates item.kind) item.val := by
  obtain ⟨little, kind, val, fits⟩ := item
  have byte : Follows base readFuint8 Typed.readFuint8 := readFuint8_follows positive
  have varint (w : Nat) : Follows base (readVarint w) (Typed.readVarint w) := readGroups_follows positive w 0 0#w
  cases kind with
  | fint8 | fuint8 => exact byte.recovers consumes before
  | fint16 | fuint16 => exact (readFixed_follows order positive (n := 2) (by decide)).recovers consumes before
  | fint32 | fuint32 | float => exact (readFixed_follows order positive (n := 4) (by decide)).recovers consumes before
  | fint64 | fuint64 | double => exact (readFixed_follows order positive (n := 8) (by decide)).recovers consumes before
  | uint32 => exact (varint 32).recovers consumes before
  | uint64 => exact (varint 64).recovers consumes before
  | int32 => exact ((varint 32).bind fun _ => pure_follows _).recovers consumes before
  | int64 => exact ((varint 64).bind fun _ => pure_follows _).recovers consumes before
  | stringF16 => exact readString_recovers positive (n := 2) (by decide) fits appends before
  | stringF32 => exact readString_recovers positive (n := 4) (by decide) fits appends before
  | stringF64 => exact readString_recovers positive (n := 8) (by decide) fits appends before

/-- No value is read from nothing. -/
theorem read_empty (k : Kind) (order e : Endian) : ∃ f s, k.read order ⟨⟨[], 0⟩, e⟩ = .error f s := by
  cases k <;> exact ⟨_, _, rfl⟩

theorem bytes_ne_nil {k : Kind} {val : k.Carrier} (consumes : Typed.Consumes e (k.read order) bs val e') : bs ≠ [] := by
  intro none
  subst none
  obtain ⟨f, s, failed⟩ := read_empty k order e
  cases failed.symm.trans (consumes [] [])

/-! ### A list of values -/

/-- Every string has memory, and the last value is not an empty string at the end of the chain. -/
def AllCome (allocates : Nat → Bool) (items : List Item) (stop capacity : Nat) : Prop :=
  (∀ item ∈ items, ∀ val, item.text = some val → allocates val.length = true) ∧
    ∀ last, items.getLast? = some last → last.text = some [] → stop ≠ capacity

theorem comes_iff {capacity stop : Nat} {text : Option (List UInt8)} : Comes allocates capacity stop text ↔
    (∀ val, text = some val → allocates val.length = true) ∧ (text = some [] → stop ≠ capacity) :=
  ⟨fun comes => ⟨comes.memory, comes.current⟩, fun ⟨memory, current⟩ => ⟨memory, current⟩⟩

theorem allCome_cons {item : Item} {items : List Item} {here stop capacity : Nat}
    (last : items = [] → here = stop) (more : items ≠ [] → here < stop) (inside : stop ≤ capacity) :
    AllCome allocates (item :: items) stop capacity ↔
      Comes allocates capacity here item.text ∧ AllCome allocates items stop capacity := by
  rw [comes_iff]
  exact all_last_cons (fun none _ => last none) more inside

/-- The cursor has moved over `bs`. -/
structure Passed (base : Nat) (cs bs rest : List UInt8) (t : ByteArray) : Prop where
  rep : Rep base t
  flat : t.flat = ⟨cs ++ bs ++ rest, (cs ++ bs).length⟩

theorem Before.setEndian (before : Before base cs bs rest b) (e : Endian) :
    Before base cs bs rest { b with endian := e } :=
  ⟨{ before.rep with }, before.flat⟩

/-- What was written by `writeAll` is made of the first value and the others. -/
theorem writeAll_split {item : Item} {items : List Item}
    (appends : Typed.Appends e (Typed.writeAll order (item :: items)) bs e') :
    ∃ xs ys e'', bs = xs ++ ys ∧
      Typed.Appends (if item.little then .little else .big) (item.kind.write order item.val) xs
        (if item.little then .little else .big) ∧
      Typed.Consumes (if item.little then .little else .big) (item.kind.read order) xs item.val
        (if item.little then .little else .big) ∧
      Typed.Appends (if item.little then .little else .big) (Typed.writeAll order items) ys e'' := by
  obtain ⟨xs, first, consumes⟩ := Typed.kind_roundTrips order (if item.little then .little else .big) item.kind
    item.val item.fits
  obtain ⟨ys, others, _⟩ := Typed.all_roundTrips order items
  obtain ⟨e'', others⟩ := others (if item.little then .little else .big)
  refine ⟨xs, ys, e'', ?_, first, consumes, others⟩
  exact unique_of_appends appends ((Typed.setIsLittleEndian_appends item.little).seq (first.seq others))

theorem writeAll_ne_nil {items : List Item} (some_items : items ≠ [])
    (appends : Typed.Appends e (Typed.writeAll order items) bs e') : 0 < bs.length := by
  cases items with
  | nil => exact absurd rfl some_items
  | cons item items =>
    obtain ⟨xs, ys, _, rfl, _, consumes, _⟩ := writeAll_split appends
    have some_bytes := List.length_pos_of_ne_nil (bytes_ne_nil consumes)
    rw [List.length_append]
    omega

theorem writeAll_nil (appends : Typed.Appends e (Typed.writeAll order []) bs e') : bs = [] :=
  unique_of_appends appends (fun cs => by rw [List.append_nil]; rfl : Typed.Appends e (Typed.writeAll order []) [] e)

theorem readAll_cons (item : Item) (items : List Item) :
    readAll order allocates ((item :: items).map Item.call) b = .ok ((item :: items).map Item.value) t ↔
      ∃ s, ofKind order allocates item.kind { b with endian := if item.little then .little else .big } =
          .ok item.val s ∧
        readAll order allocates (items.map Item.call) s = .ok (items.map Item.value) t := by
  constructor
  · intro returned
    obtain ⟨_, _, setting, returned⟩ := bind_returns returned
    cases setting
    obtain ⟨val, s, here, returned⟩ := bind_returns returned
    obtain ⟨vals, u, more, last⟩ := bind_returns returned
    cases last
    exact ⟨s, here, more⟩
  · intro ⟨s, here, more⟩
    have set : setIsLittleEndian item.little b = .ok () { b with endian := if item.little then .little else .big } := rfl
    rw [List.map_cons, Item.call, readAll, bind_returned set, bind_returned here, bind_returned more]
    rfl

/-- The values come back exactly when all of them can come, and then all of their bytes are read. -/
theorem readAll_iff (positive : 1 ≤ base) (items : List Item)
    (appends : Typed.Appends e (Typed.writeAll order items) bs e') (before : Before base cs bs rest b)
    (allocates : Nat → Bool) :
    ((∃ t, readAll order allocates (items.map Item.call) b = .ok (items.map Item.value) t) ↔
      AllCome allocates items (cs.length + bs.length) b.capacity) ∧
    ∀ t, readAll order allocates (items.map Item.call) b = .ok (items.map Item.value) t →
      Passed base cs bs rest t := by
  induction items generalizing b cs bs e e' with
  | nil =>
    obtain rfl := writeAll_nil appends
    refine ⟨iff_of_true ⟨b, rfl⟩ ⟨by simp, by simp⟩, ?_⟩
    intro t returned
    cases returned
    exact ⟨before.rep, by rw [before.flat]; simp⟩
  | cons item items ih =>
    obtain ⟨xs, ys, e'', rfl, first, consumes, others⟩ := writeAll_split appends
    have inside := before.length_le
    have set := before.left.setEndian (if item.little then .little else .big)
    have recovers := ofKind_recovers positive item first consumes set allocates
    have split : AllCome allocates (item :: items) (cs.length + (xs ++ ys).length) b.capacity ↔
        Comes allocates b.capacity (cs.length + xs.length) item.text ∧
          AllCome allocates items (cs.length + (xs ++ ys).length) b.capacity := by
      rw [List.length_append] at inside ⊢
      refine allCome_cons ?_ ?_ inside
      · rintro rfl
        rw [writeAll_nil others]
        rfl
      · intro some_items
        have := writeAll_ne_nil some_items others
        omega
    -- What the induction says of the state in which the first value has been read.
    have later {s : ByteArray} (here : ofKind order allocates item.kind
          { b with endian := if item.little then .little else .big } = .ok item.val s) :
        ((∃ t, readAll order allocates (items.map Item.call) s = .ok (items.map Item.value) t) ↔
          AllCome allocates items (cs.length + (xs ++ ys).length) b.capacity) ∧
        ∀ t, readAll order allocates (items.map Item.call) s = .ok (items.map Item.value) t →
          Passed base (cs ++ xs) ys rest t := by
      have consumed := recovers.consumed s here
      have both := ih others consumed.before
      rwa [consumed.capacity, List.length_append, Nat.add_assoc, ← List.length_append] at both
    refine ⟨?_, ?_⟩
    · rw [split, ← recovers.iff]
      constructor
      · rintro ⟨t, returned⟩
        obtain ⟨s, here, more⟩ := (readAll_cons item items).mp returned
        exact ⟨⟨s, here⟩, (later here).1.mp ⟨t, more⟩⟩
      · rintro ⟨⟨s, here⟩, come⟩
        obtain ⟨t, more⟩ := (later here).1.mpr come
        exact ⟨t, (readAll_cons item items).mpr ⟨s, here, more⟩⟩
    · intro t returned
      obtain ⟨s, here, more⟩ := (readAll_cons item items).mp returned
      have passed := (later here).2 t more
      exact ⟨passed.rep, by rw [passed.flat]; simp⟩

end Direct

end Cool.ByteArray
