import Cool.Address.Insert
import Cool.ByteArray.Vint
import Mathlib.Data.List.Forall2

/-!
# Reading the text of an IPv6 address

The text that `insert` prints has one of two forms: eight groups, or groups with two colons for the zeros that are
missing. `inet_pton` reads every text of these forms as its groups, so `Create` gives the address back.
-/

namespace Cool.Address.IPv6Address

open Foundation
open Cool.ByteArray.Typed (ofMemory byteswap byteswap_byteswap toNat_byteswap_ofMemory)

/-! ### The two forms -/

def Full (text : Text) (groups : List Nat) : Prop :=
  ∃ ts, List.Forall₂ (Numeral 16) ts groups ∧ text = joined ts

def Compressed (text : Text) (groups : List Nat) : Prop :=
  ∃ ts us front back, List.Forall₂ (Numeral 16) ts front ∧ List.Forall₂ (Numeral 16) us back ∧
    text = joined ts ++ [':', ':'] ++ joined us ∧ front.length + back.length < 8 ∧
    groups = front ++ List.replicate (8 - (front.length + back.length)) 0 ++ back

/-- The sixteen bytes as eight numbers. -/
def groupsOf : List (BitVec 8) → List Nat
  | x :: y :: rest => (256 * x.toNat + y.toNat) :: groupsOf rest
  | _ => []

def value (word : BitVec 16) : Nat := (byteswap (n := 2) word).toNat

theorem pairless {bytes : List (BitVec 8)} (short : ∀ x y rest, bytes = x :: y :: rest → False) :
    bytes = [] ∨ ∃ x, bytes = [x] := by
  rcases bytes with _ | ⟨x, _ | ⟨y, rest⟩⟩
  · exact .inl rfl
  · exact .inr ⟨x, rfl⟩
  · exact (short x y rest rfl).elim

theorem value_words (bytes : List (BitVec 8)) : (words bytes).map value = groupsOf bytes := by
  fun_induction words bytes with
  | case1 x y rest ih =>
    have pair := toNat_byteswap_ofMemory [UInt8.ofBitVec x, UInt8.ofBitVec y]
    rw [List.map_cons, ih, groupsOf, value]
    congr 1
    rw [show (256 * x.toNat + y.toNat) = ofOctets [UInt8.ofBitVec y, UInt8.ofBitVec x] by
      rw [ofOctets_cons, ofOctets_cons]
      simp [ofOctets]
      omega]
    exact pair
  | case2 bytes short =>
    obtain rfl | ⟨x, rfl⟩ := pairless short
    · rfl
    · rfl

theorem numeral_hexText (word : BitVec 16) : Numeral 16 (hexText word) (value word) :=
  numeral_toDigits (by decide) (by decide) _

theorem numerals (words : List (BitVec 16)) : List.Forall₂ (Numeral 16) (words.map hexText) (words.map value) := by
  rw [List.forall₂_map_left_iff, List.forall₂_map_right_iff, List.forall₂_same]
  exact fun word _ => numeral_hexText word

/-- Words with a zero are groups, a row of zeros, and groups. -/
theorem split_zeros {words : List (BitVec 16)} (zeros : words.dropWhile (· ≠ 0#16) ≠ []) :
    ∃ n, words = front words ++ List.replicate (n + 1) 0#16 ++ back words := by
  obtain ⟨word, rest, left⟩ := List.exists_cons_of_ne_nil zeros
  have head := List.head?_dropWhile_not (· ≠ 0#16) words
  rw [left] at head
  have zero : word = 0#16 := by simpa using head
  have row : rest.takeWhile (· = 0#16) = List.replicate (rest.takeWhile (· = 0#16)).length 0#16 := by
    apply List.eq_replicate_of_mem
    intro word member
    have found := List.mem_takeWhile_imp member
    exact of_decide_eq_true found
  have parts := List.takeWhile_append_dropWhile (p := (· = 0#16)) (l := rest)
  have all := List.takeWhile_append_dropWhile (p := (· ≠ 0#16)) (l := words)
  have behind : back words = rest.dropWhile (· = 0#16) := by
    rw [back, left, zero]
    simp
  rw [left, zero] at all
  refine ⟨(rest.takeWhile (· = 0#16)).length, ?_⟩
  calc words = front words ++ 0#16 :: rest := all.symm
    _ = front words ++ 0#16 :: (rest.takeWhile (· = 0#16) ++ rest.dropWhile (· = 0#16)) := by rw [parts]
    _ = front words ++ List.replicate ((rest.takeWhile (· = 0#16)).length + 1) 0#16 ++ back words := by
      rw [List.replicate_succ, ← row, behind, List.append_assoc, List.cons_append]

theorem printed_form {words : List (BitVec 16)} (eight : words.length = 8) :
    Full (printed words) (words.map value) ∨ Compressed (printed words) (words.map value) := by
  rw [printed]
  split
  · exact .inl ⟨_, numerals words, rfl⟩
  · rename_i zeros
    obtain ⟨n, split⟩ := split_zeros zeros
    have none : value 0#16 = 0 := by decide
    have length := congrArg List.length split
    have mapped := congrArg (List.map value) split
    simp only [List.length_append, List.length_replicate, eight] at length
    rw [List.map_append, List.map_append, List.map_replicate, none] at mapped
    refine .inr ⟨_, _, _, _, numerals (front words), numerals (back words), rfl, ?_, ?_⟩
    · rw [List.length_map, List.length_map]
      omega
    · rw [mapped, List.length_map, List.length_map,
        show 8 - ((front words).length + (back words).length) = n + 1 by omega]

/-! ### One pair of colons -/

def doubleColons (text : Text) : Nat := (text.zip text.tail).count (':', ':')

theorem doubleColons_cons (c : Char) (text : Text) :
    doubleColons (c :: text) = doubleColons text + if c = ':' ∧ text.head? = some ':' then 1 else 0 := by
  cases text with
  | nil => simp [doubleColons]
  | cons d text => simp [doubleColons, List.count_cons]

theorem doubleColons_append {t : Text} (free : ':' ∉ t) (rest : Text) : doubleColons (t ++ rest) = doubleColons rest := by
  induction t with
  | nil => rfl
  | cons c t ih =>
    obtain ⟨here, later⟩ := not_or.mp (mt List.mem_cons.mpr free)
    rw [List.cons_append, doubleColons_cons, ih later, if_neg fun both => here both.1.symm,
      Nat.add_zero]

/-- A text that colons may stand before. -/
def Starts (t : Text) : Prop := t ≠ [] ∧ ':' ∉ t

theorem starts_of_numerals {ts : List Text} {groups : List Nat} (all : List.Forall₂ (Numeral 16) ts groups) :
    ∀ t ∈ ts, Starts t := by
  induction all with
  | nil => simp
  | cons numeral _ ih =>
    exact List.forall_mem_cons.mpr ⟨⟨numeral.nonempty, numeral.notMem (by decide)⟩, ih⟩

theorem head_ne_colon {t : Text} (starts : Starts t) (rest : Text) : (t ++ rest).head? ≠ some ':' := by
  rw [List.head?_append_of_ne_nil _ starts.1]
  exact fun head => starts.2 (List.mem_of_head? head)

theorem doubleColons_joined {ts : List Text} (all : ∀ t ∈ ts, Starts t) (rest : Text) :
    doubleColons (joined ts ++ rest) = doubleColons rest := by
  have more (us : List Text) (starts : ∀ t ∈ us, Starts t) :
      doubleColons (us.flatMap (fun t => ':' :: t) ++ rest) = doubleColons rest := by
    induction us with
    | nil => rfl
    | cons u us ih =>
      obtain ⟨first, others⟩ := List.forall_mem_cons.mp starts
      rw [List.flatMap_cons, List.append_assoc, List.cons_append, doubleColons_cons,
        if_neg fun both => head_ne_colon first _ both.2, Nat.add_zero, doubleColons_append first.2, ih others]
  cases ts with
  | nil => rfl
  | cons t ts =>
    obtain ⟨first, others⟩ := List.forall_mem_cons.mp all
    rw [joined_cons, List.append_assoc, doubleColons_append first.2, more ts others]

theorem doubleColons_form {text : Text} {groups : List Nat} (form : Full text groups ∨ Compressed text groups) :
    doubleColons text ≤ 1 := by
  rcases form with ⟨ts, all, rfl⟩ | ⟨ts, us, front, back, before, behind, rfl, -⟩
  · have none := doubleColons_joined (starts_of_numerals all) []
    rw [List.append_nil] at none
    rw [none]
    decide
  · have none := doubleColons_joined (starts_of_numerals behind) []
    rw [List.append_nil] at none
    have first : (joined us).head? ≠ some ':' := by
      cases us with
      | nil => simp [joined]
      | cons u us =>
        rw [joined_cons]
        exact head_ne_colon (starts_of_numerals behind u List.mem_cons_self) _
    rw [List.append_assoc, doubleColons_joined (starts_of_numerals before)]
    show doubleColons (':' :: ':' :: joined us) ≤ 1
    rw [doubleColons_cons, doubleColons_cons, none, if_neg fun both => first both.2]
    simp [doubleColons]

/-! ### `inet_pton`

The function of the system for `AF_INET6`, as far as the texts without a dotted tail go. -/

/-- What the scan keeps: the groups stored so far, where the two colons stood, and the group that is being read. -/
structure Pton where
  tp : List Nat
  colonp : Option Nat
  val : Nat
  sawXdigit : Bool
  deriving DecidableEq, Repr

def xdigit (c : Char) : Option Nat := (digitValue c).or (digitValue c.toLower)

def ptonLoop : Text → Pton → Option Pton
  | [], s => some s
  | c :: src, s =>
    match xdigit c with
    | some d => if 16 * s.val + d > 0xffff then none else ptonLoop src { s with val := 16 * s.val + d, sawXdigit := true }
    | none =>
      if c ≠ ':' then none
      else if s.sawXdigit then
        if src = [] ∨ 8 ≤ s.tp.length then none
        else ptonLoop src { s with tp := s.tp ++ [s.val], val := 0, sawXdigit := false }
      else if s.colonp ≠ none then none
      else ptonLoop src { s with colonp := some s.tp.length }

/-- The last group is stored, and the groups behind the two colons move to the end. -/
def ptonEnd (s : Pton) : Option (List Nat) :=
  let tp := if s.sawXdigit then s.tp ++ [s.val] else s.tp
  if 8 < tp.length then none
  else
    match s.colonp with
    | none => if tp.length = 8 then some tp else none
    | some k => if tp.length = 8 then none else some (tp.take k ++ List.replicate (8 - tp.length) 0 ++ tp.drop k)

def inetPton (src : Text) : Option (List Nat) :=
  match src with
  | ':' :: rest => if rest.head? = some ':' then (ptonLoop rest ⟨[], none, 0, false⟩).bind ptonEnd else none
  | _ => (ptonLoop src ⟨[], none, 0, false⟩).bind ptonEnd

variable {tp : List Nat} {colonp : Option Nat} {src : Text}

theorem ptonLoop_digits {t : Text} (digits : ∀ c ∈ t, ∃ d < 16, digitValue c = some d) (s : Pton)
    (small : readOn 16 s.val t ≤ 0xffff) :
    ptonLoop (t ++ src) s =
      ptonLoop src { s with val := readOn 16 s.val t, sawXdigit := s.sawXdigit || !t.isEmpty } := by
  induction t generalizing s with
  | nil => simp [readOn]
  | cons c t ih =>
    obtain ⟨⟨d, _, digit⟩, rest⟩ := List.forall_mem_cons.mp digits
    have read : readOn 16 s.val (c :: t) = readOn 16 (16 * s.val + d) t := by
      rw [readOn, List.foldl_cons, digit]
      rfl
    have fits : ¬ 16 * s.val + d > 0xffff := by
      have grows := le_readOn (by decide : 0 < 16) (16 * s.val + d) t
      omega
    have found : xdigit c = some d := by rw [xdigit, digit, Option.some_or]
    rw [read] at small
    rw [List.cons_append, ptonLoop, found]
    simp only [if_neg fits]
    rw [ih rest _ small, read]
    simp

/-- A group is read from its first digit on. -/
theorem ptonLoop_numeral {t : Text} {n : Nat} (numeral : Numeral 16 t n) (small : n < 65536) :
    ptonLoop (t ++ src) ⟨tp, colonp, 0, false⟩ = ptonLoop src ⟨tp, colonp, n, true⟩ := by
  obtain ⟨nonempty, digits, -, value⟩ := numeral
  have filled : t.isEmpty = false := List.isEmpty_eq_false_iff.mpr nonempty
  rw [numeralValue] at value
  rw [ptonLoop_digits digits _ (by rw [value]; omega), value, filled]
  rfl

theorem ptonLoop_colon {n : Nat} (more : src ≠ []) (room : tp.length < 8) :
    ptonLoop (':' :: src) ⟨tp, colonp, n, true⟩ = ptonLoop src ⟨tp ++ [n], colonp, 0, false⟩ := by
  have other : xdigit ':' = none := by decide
  rw [ptonLoop, other]
  simp [more, Nat.not_le.mpr room]

theorem ptonLoop_colons : ptonLoop (':' :: src) ⟨tp, none, 0, false⟩ = ptonLoop src ⟨tp, some tp.length, 0, false⟩ := by
  have other : xdigit ':' = none := by decide
  rw [ptonLoop, other]
  simp

/-- Groups behind the one that has just been read. -/
theorem ptonLoop_later (tp : List Nat) (colonp : Option Nat) (src : Text) {ts : List Text} {groups : List Nat}
    (all : List.Forall₂ (Numeral 16) ts groups) (n : Nat)
    (small : ∀ g ∈ groups, g < 65536) (room : tp.length + groups.length < 8) :
    ∃ init last, n :: groups = init ++ [last] ∧
      ptonLoop (ts.flatMap (fun t => ':' :: t) ++ src) ⟨tp, colonp, n, true⟩ =
        ptonLoop src ⟨tp ++ init, colonp, last, true⟩ := by
  induction all generalizing n tp with
  | nil => exact ⟨[], n, rfl, by simp⟩
  | @cons t g ts groups numeral _ ih =>
    obtain ⟨here, others⟩ := List.forall_mem_cons.mp small
    rw [List.length_cons] at room
    obtain ⟨init, last, parts, ran⟩ := ih (tp ++ [n]) g others
      (by rw [List.length_append, List.length_singleton]; omega)
    have more : t ++ (ts.flatMap (fun t => ':' :: t) ++ src) ≠ [] := by simp [numeral.nonempty]
    refine ⟨n :: init, last, by rw [parts, List.cons_append], ?_⟩
    rw [List.flatMap_cons, List.append_assoc, List.cons_append, ptonLoop_colon more (by omega),
      ptonLoop_numeral numeral here, ran, List.append_assoc, List.singleton_append]

theorem ptonLoop_joined (tp : List Nat) (colonp : Option Nat) (src : Text) {ts : List Text} {groups : List Nat}
    (all : List.Forall₂ (Numeral 16) ts groups) (nonempty : groups ≠ []) (small : ∀ g ∈ groups, g < 65536) (room : tp.length + groups.length ≤ 8) :
    ∃ init last, groups = init ++ [last] ∧
      ptonLoop (joined ts ++ src) ⟨tp, colonp, 0, false⟩ = ptonLoop src ⟨tp ++ init, colonp, last, true⟩ := by
  cases all with
  | nil => exact absurd rfl nonempty
  | @cons t g ts groups numeral others =>
    obtain ⟨here, rest⟩ := List.forall_mem_cons.mp small
    rw [List.length_cons] at room
    obtain ⟨init, last, parts, ran⟩ := ptonLoop_later tp colonp src others g rest (by omega)
    refine ⟨init, last, parts, ?_⟩
    rw [joined_cons, List.append_assoc, ptonLoop_numeral numeral here, ran]

/-- Behind the two colons the groups go to the end. -/
theorem pton_behind {us : List Text} {front back : List Nat} (all : List.Forall₂ (Numeral 16) us back)
    (small : ∀ g ∈ back, g < 65536) (room : front.length + back.length < 8) :
    (ptonLoop (joined us) ⟨front, some front.length, 0, false⟩).bind ptonEnd =
      some (front ++ List.replicate (8 - (front.length + back.length)) 0 ++ back) := by
  by_cases nothing : back = []
  · subst nothing
    cases all
    have few : front.length < 8 := room
    simp [joined, ptonLoop, ptonEnd, Nat.ne_of_lt few, Nat.lt_asymm few]
  · obtain ⟨init, last, rfl, ran⟩ := ptonLoop_joined front (some front.length) [] all nothing small
      (Nat.le_of_lt room)
    rw [List.append_nil] at ran
    have length : (front ++ (init ++ [last])).length = front.length + (init ++ [last]).length := List.length_append
    rw [ran, ptonLoop, Option.bind_some, ptonEnd]
    simp only [if_true, List.append_assoc front]
    rw [length, if_neg (Nat.lt_asymm room), if_neg (Nat.ne_of_lt room), List.take_left, List.drop_left,
      List.append_assoc]

theorem inetPton_of_head (head : src.head? ≠ some ':') :
    inetPton src = (ptonLoop src ⟨[], none, 0, false⟩).bind ptonEnd := by
  rw [inetPton]
  rintro rest rfl
  exact head rfl

theorem head_joined {ts : List Text} {groups : List Nat} (all : List.Forall₂ (Numeral 16) ts groups)
    (nonempty : groups ≠ []) (rest : Text) : (joined ts ++ rest).head? ≠ some ':' := by
  have starts := starts_of_numerals all
  cases all with
  | nil => exact absurd rfl nonempty
  | cons numeral others =>
    rw [joined_cons, List.append_assoc]
    exact head_ne_colon (starts _ List.mem_cons_self) _

theorem inetPton_full {text : Text} {groups : List Nat} (form : Full text groups) (eight : groups.length = 8)
    (small : ∀ g ∈ groups, g < 65536) : inetPton text = some groups := by
  obtain ⟨ts, all, rfl⟩ := form
  have nonempty : groups ≠ [] := by
    rintro rfl
    cases eight
  have head := head_joined all nonempty []
  obtain ⟨init, last, rfl, ran⟩ := ptonLoop_joined [] none [] all nonempty small (by rw [eight]; decide)
  rw [List.append_nil] at head ran
  rw [inetPton_of_head head, ran, ptonLoop, Option.bind_some, ptonEnd]
  simp only [if_true, List.nil_append, eight, Nat.lt_irrefl, if_false]

theorem inetPton_compressed {text : Text} {groups : List Nat} (form : Compressed text groups)
    (small : ∀ g ∈ groups, g < 65536) : inetPton text = some groups := by
  obtain ⟨ts, us, front, back, before, behind, rfl, room, rfl⟩ := form
  have small_front : ∀ g ∈ front, g < 65536 := fun g member => small g (by simp [member])
  have small_back : ∀ g ∈ back, g < 65536 := fun g member => small g (by simp [member])
  have final := pton_behind behind small_back room
  by_cases nothing : front = []
  · subst nothing
    cases before
    show inetPton (':' :: ':' :: joined us) = _
    rw [inetPton, List.head?_cons, if_pos rfl, ptonLoop_colons]
    exact final
  · have head := head_joined before nothing ([':', ':'] ++ joined us)
    obtain ⟨init, last, rfl, ran⟩ := ptonLoop_joined [] none (':' :: ':' :: joined us) before nothing small_front
      (by rw [List.length_nil]; omega)
    have short : init.length < 8 := by
      rw [List.length_append, List.length_singleton] at room
      omega
    rw [List.append_assoc, inetPton_of_head head]
    rw [List.nil_append] at ran
    rw [← final, ← ptonLoop_colons, ← ptonLoop_colon (List.cons_ne_nil _ _) short, ← ran]
    rfl

theorem inetPton_form {text : Text} {groups : List Nat} (form : Full text groups ∨ Compressed text groups)
    (eight : groups.length = 8) (small : ∀ g ∈ groups, g < 65536) : inetPton text = some groups :=
  form.elim (fun full => inetPton_full full eight small) (fun compressed => inetPton_compressed compressed small)

/-! ### The address comes back -/

/-- The groups as `inet_pton` stores them. -/
def bytesOf (groups : List Nat) : List (BitVec 8) := groups.flatMap fun g => [BitVec.ofNat 8 (g / 256), BitVec.ofNat 8 g]

def create (address : Text) (port : BitVec 16) : Option SockaddrIn6 :=
  (inetPton address).map fun groups =>
    ⟨afInet6, byteswap (n := 2) port, 0, fun i => (bytesOf groups).getD i 0, 0⟩

theorem bytesOf_groupsOf {bytes : List (BitVec 8)} (even : 2 ∣ bytes.length) : bytesOf (groupsOf bytes) = bytes := by
  fun_induction groupsOf bytes with
  | case1 x y rest ih =>
    have high : BitVec.ofNat 8 ((256 * x.toNat + y.toNat) / 256) = x := by
      rw [Nat.mul_add_div (by decide), Nat.div_eq_of_lt y.isLt, Nat.add_zero, BitVec.ofNat_toNat, BitVec.setWidth_eq]
    have low : BitVec.ofNat 8 (256 * x.toNat + y.toNat) = y := by
      apply BitVec.eq_of_toNat_eq
      rw [BitVec.toNat_ofNat, Nat.mul_add_mod, Nat.mod_eq_of_lt y.isLt]
    rw [List.length_cons, List.length_cons] at even
    have rest_back := ih (by omega)
    rw [bytesOf] at rest_back ⊢
    rw [List.flatMap_cons, rest_back, high, low]
    rfl
  | case2 bytes short =>
    obtain rfl | ⟨x, rfl⟩ := pairless short
    · rfl
    · rw [List.length_singleton] at even
      omega

theorem groupsOf_lt (bytes : List (BitVec 8)) : ∀ g ∈ groupsOf bytes, g < 65536 := by
  fun_induction groupsOf bytes with
  | case1 x y rest ih =>
    refine List.forall_mem_cons.mpr ⟨?_, ih⟩
    have := x.isLt
    have := y.isLt
    omega
  | case2 => simp

theorem length_words (bytes : List (BitVec 8)) : (words bytes).length = bytes.length / 2 := by
  fun_induction words bytes with
  | case1 x y rest ih =>
    rw [List.length_cons, ih, List.length_cons, List.length_cons]
    omega
  | case2 bytes short =>
    obtain rfl | ⟨x, rfl⟩ := pairless short
    · rfl
    · simp

def groups (m : SockaddrIn6) : List Nat := groupsOf (List.ofFn m.s6Addr)

theorem length_groups (m : SockaddrIn6) : (groups m).length = 8 := by
  rw [groups, ← value_words, List.length_map, length_words, List.length_ofFn]

def addressText (m : SockaddrIn6) : Text := printed (words (List.ofFn m.s6Addr))

theorem addressText_form (m : SockaddrIn6) :
    Full (addressText m) (groups m) ∨ Compressed (addressText m) (groups m) := by
  rw [groups, ← value_words]
  apply printed_form
  rw [length_words, List.length_ofFn]

theorem insert_text (m : SockaddrIn6) (text : Text) :
    (insert m ⟨text, .dec⟩).text =
      text ++ '[' :: (addressText m ++ ']' :: ':' :: Nat.toDigits 10 (byteswap (n := 2) m.port).toNat) := by
  have eight : (words (List.ofFn m.s6Addr)).length = 8 := by rw [length_words, List.length_ofFn]
  have nonempty : words (List.ofFn m.s6Addr) ≠ [] := List.ne_nil_of_length_eq_add_one eight
  have last : (words (List.ofFn m.s6Addr))[7]? = (words (List.ofFn m.s6Addr)).getLast? := by
    rw [List.getLast?_eq_getElem?, eight]
  have dec : (Ostream.put ⟨text, .dec⟩ ['[']).base = .dec := rfl
  have pass := insertLoop_printed dec nonempty
  rw [insert]
  simp only [last, pass]
  simp [Ostream.put, Ostream.putNat, Base.radix, addressText]

theorem create_addressText (m : SockaddrIn6) (port : BitVec 16) :
    create (addressText m) port = some ⟨afInet6, byteswap (n := 2) port, 0, m.s6Addr, 0⟩ := by
  have read := inetPton_form (addressText_form m) (length_groups m) (groupsOf_lt _)
  have back : bytesOf (groups m) = List.ofFn m.s6Addr := bytesOf_groupsOf (by rw [List.length_ofFn]; decide)
  rw [create, read, Option.map_some, back]
  congr 2
  funext i
  rw [List.getD_eq_getElem?_getD, List.getElem?_ofFn, dif_pos i.isLt]
  rfl

theorem notMem_form {c : Char} (other : digitValue c = none) (different : c ≠ ':') {text : Text} {groups : List Nat}
    (form : Full text groups ∨ Compressed text groups) : c ∉ text := by
  have free {ts : List Text} {groups : List Nat} (all : List.Forall₂ (Numeral 16) ts groups) : c ∉ joined ts := by
    induction all with
    | nil => simp [joined]
    | @cons t g ts groups numeral others ih =>
      cases ts with
      | nil => simpa [joined] using numeral.notMem other
      | cons u us =>
        rw [joined, List.intercalate_cons_cons]
        rw [joined] at ih
        simp [numeral.notMem other, different, ih]
  rcases form with ⟨ts, all, rfl⟩ | ⟨ts, us, front, back, before, behind, rfl, -⟩
  · exact free all
  · simp [free before, free behind, different]

/-- An address is printed as `[A]:P`, where `A` is one of the two forms of its groups and is read back as the address.
Different addresses or ports have different texts. -/
theorem insert_form (m : SockaddrIn6) (text : Text) :
    (∃ A P, (insert m ⟨text, .dec⟩).text = text ++ '[' :: (A ++ ']' :: ':' :: P) ∧
      (Full A (groups m) ∨ Compressed A (groups m)) ∧ doubleColons A ≤ 1 ∧
      Numeral 10 P (byteswap (n := 2) m.port).toNat ∧
      ∀ port, create A port = some ⟨afInet6, byteswap (n := 2) port, 0, m.s6Addr, 0⟩) ∧
    ∀ m', (insert m' ⟨text, .dec⟩).text = (insert m ⟨text, .dec⟩).text → m'.s6Addr = m.s6Addr ∧ m'.port = m.port := by
  have decimal (port : BitVec 16) := numeral_toDigits (b := 10) (by decide) (by decide) (byteswap (n := 2) port).toNat
  constructor
  · exact ⟨_, _, insert_text m text, addressText_form m, doubleColons_form (addressText_form m), decimal m.port,
      create_addressText m⟩
  · intro m' same
    have closed (m : SockaddrIn6) : ']' ∉ addressText m := notMem_form (by decide) (by decide) (addressText_form m)
    have digits : ']' ∉ ':' :: Nat.toDigits 10 (byteswap (n := 2) m'.port).toNat := by
      simp [(decimal m'.port).notMem (c := ']') (by decide)]
    rw [insert_text, insert_text, List.append_cancel_left_eq, List.cons.injEq,
      List.append_cons_inj_of_notMem (closed m') digits] at same
    obtain ⟨-, address, -, port⟩ := same
    constructor
    · have recovered := create_addressText m' 0
      rw [address, create_addressText] at recovered
      simpa using recovered.symm
    · have value' := (decimal m'.port).value
      rw [List.tail_eq_of_cons_eq port, (decimal m.port).value] at value'
      have swapped := BitVec.eq_of_toNat_eq value'
      rw [← byteswap_byteswap (n := 2) m'.port, ← swapped, byteswap_byteswap]

end Cool.Address.IPv6Address
