import Cool.Address.Object
import Cool.Config.Registry
import Cool.Foundation.Digits
import Mathlib.Data.List.TakeWhile

/-!
# The text of an address

`insert` of the four classes on an output stream. An IPv6 address is printed in one pass that leaves out its first row
of zero groups.
-/

namespace Cool.Address

open Foundation
open Cool.ByteArray.Typed (memoryOf ofMemory byteswap length_memoryOf)

inductive Base where
  | dec | hex
  deriving DecidableEq, Repr

def Base.radix : Base → Nat
  | .dec => 10
  | .hex => 16

/-- The text of a stream, and the base in which it prints numbers. -/
structure Ostream where
  text : Text
  base : Base
  deriving DecidableEq, Repr

namespace Ostream

def put (os : Ostream) (t : Text) : Ostream := { os with text := os.text ++ t }

def putNat (os : Ostream) (n : Nat) : Ostream := os.put (Nat.toDigits os.base.radix n)

def set (os : Ostream) (base : Base) : Ostream := { os with base := base }

end Ostream

namespace IPv4Address

def insert (m : SockaddrIn) (os : Ostream) : Ostream :=
  let addr := byteswapOnLittleEndian m.sAddr
  let os := os.putNat ((addr >>> 24) &&& 0xff#32).toNat |>.put ['.']
  let os := os.putNat ((addr >>> 16) &&& 0xff#32).toNat |>.put ['.']
  let os := os.putNat ((addr >>> 8) &&& 0xff#32).toNat |>.put ['.']
  let os := os.putNat (addr &&& 0xff#32).toNat
  (os.put [':']).putNat (byteswap (n := 2) m.port).toNat

end IPv4Address

namespace IPv6Address

/-- The bytes seen through a `uint16_t *`. -/
def words : List (BitVec 8) → List (BitVec 16)
  | x :: y :: rest => ofMemory 2 [UInt8.ofBitVec x, UInt8.ofBitVec y] :: words rest
  | _ => []

/-- The loop of `insert` over the words that are left, `before` being `addr[i - 1]`. -/
def insertLoop : (i : Nat) → (before : BitVec 16) → List (BitVec 16) → (usedZeros : Bool) → Ostream → Bool × Ostream
  | _, _, [], usedZeros, os => (usedZeros, os)
  | i, before, word :: rest, usedZeros, os =>
    if word = 0#16 ∧ ¬ usedZeros then insertLoop (i + 1) word rest usedZeros os
    else
      let (usedZeros, os) := if i ≠ 0 ∧ before = 0#16 ∧ ¬ usedZeros then (true, os.put [':']) else (usedZeros, os)
      let os := if i ≠ 0 then os.put [':'] else os
      insertLoop (i + 1) word rest usedZeros (((os.set .hex).putNat (byteswap (n := 2) word).toNat).set .dec)

def insert (m : SockaddrIn6) (os : Ostream) : Ostream :=
  let addr := words (List.ofFn m.s6Addr)
  let (usedZeros, os) := insertLoop 0 0#16 addr false (os.put ['['])
  let os := if ¬ usedZeros ∧ addr[7]? = some 0#16 then os.put [':', ':'] else os
  (os.put [']', ':']).putNat (byteswap (n := 2) m.port).toNat

end IPv6Address

namespace Object

def chars (bytes : List UInt8) : Text := bytes.map fun b => Char.ofNat b.toNat

def insert (a : Object) (os : Ostream) : Ostream :=
  match a with
  | iPv4 m _ => IPv4Address.insert m os
  | iPv6 m => IPv6Address.insert m os
  | unix memory len _ =>
    -- behind the two bytes of the family stands the path, which is abstract if it starts with a NUL
    if 2 < len.toNat ∧ (memory.drop 2).head? = some 0 then
      (os.put ['\\', '0']).put (chars ((memory.drop 3).take (len.toNat - 3)))
    else os.put (chars ((memory.drop 2).takeWhile (· ≠ 0)))
  | unknow saFamily _ => ((os.put "[UnknowAddress family=".toList).putNat saFamily.toNat).put [']']

/-- `to_string`, with a new stream. -/
def toString (a : Object) : Text := (a.insert ⟨[], .dec⟩).text

end Object

/-! ### The pass over the words -/

namespace Ostream

variable {os : Ostream}

theorem put_put (os : Ostream) (s t : Text) : (os.put s).put t = os.put (s ++ t) := by
  simp only [put, List.append_assoc]

theorem put_nil (os : Ostream) : os.put [] = os := by
  simp only [put, List.append_nil]

theorem putHex (os : Ostream) (dec : os.base = .dec) (n : Nat) :
    ((os.set .hex).putNat n).set .dec = os.put (Nat.toDigits 16 n) := by
  simp only [set, putNat, put, Base.radix, ← dec]

end Ostream

namespace IPv6Address

variable {os : Ostream} {i : Nat} {before word : BitVec 16} {rest : List (BitVec 16)} {usedZeros : Bool}

def hexText (word : BitVec 16) : Text := Nat.toDigits 16 (byteswap (n := 2) word).toNat

/-- Groups that others stand before. -/
def later (words : List (BitVec 16)) : Text := words.flatMap fun word => ':' :: hexText word

/-- The groups before the first zero. -/
def front (words : List (BitVec 16)) : List (BitVec 16) := words.takeWhile (· ≠ 0#16)

/-- The groups behind the first row of zeros. -/
def back (words : List (BitVec 16)) : List (BitVec 16) := (words.dropWhile (· ≠ 0#16)).dropWhile (· = 0#16)

theorem insertLoop_zero (i : Nat) (before : BitVec 16) (rest : List (BitVec 16)) (os : Ostream) :
    insertLoop i before (0#16 :: rest) false os = insertLoop (i + 1) 0#16 rest false os := by
  rw [insertLoop, if_pos ⟨rfl, Bool.false_ne_true⟩]

theorem insertLoop_group (dec : os.base = .dec) (moved : i ≠ 0) (printed : word ≠ 0#16 ∨ usedZeros = true) :
    insertLoop i before (word :: rest) usedZeros os =
      if before = 0#16 ∧ ¬ usedZeros then insertLoop (i + 1) word rest true (os.put (':' :: ':' :: hexText word))
      else insertLoop (i + 1) word rest usedZeros (os.put (':' :: hexText word)) := by
  have kept : ¬ (word = 0#16 ∧ ¬ usedZeros = true) := by tauto
  rw [insertLoop, if_neg kept]
  by_cases first : before = 0#16 ∧ ¬ usedZeros = true
  · rw [if_pos first, if_pos ⟨moved, first⟩]
    simp only [if_pos moved]
    rw [Ostream.putHex _ (show ((os.put [':']).put [':']).base = .dec from dec), Ostream.put_put, Ostream.put_put]
    rfl
  · rw [if_neg first, if_neg fun all => first all.2]
    simp only [if_pos moved]
    rw [Ostream.putHex _ (show (os.put [':']).base = .dec from dec), Ostream.put_put]
    rfl

/-- Behind the two colons every group is printed. -/
theorem insertLoop_used (dec : os.base = .dec) (moved : i ≠ 0) (before : BitVec 16) (rest : List (BitVec 16)) :
    insertLoop i before rest true os = (true, os.put (later rest)) := by
  induction rest generalizing i before os with
  | nil => rw [insertLoop, later, List.flatMap_nil, os.put_nil]
  | cons word rest ih =>
    have next : (os.put (':' :: hexText word)).base = .dec := dec
    rw [insertLoop_group dec moved (.inr rfl), if_neg (by simp), ih next (by omega), Ostream.put_put]
    rfl

/-- In the first row of zeros nothing is printed. -/
theorem insertLoop_zeros (dec : os.base = .dec) (moved : i ≠ 0) (rest : List (BitVec 16)) :
    insertLoop i 0#16 rest false os =
      if rest.dropWhile (· = 0#16) = [] then (false, os)
      else (true, os.put (':' :: later (rest.dropWhile (· = 0#16)))) := by
  induction rest generalizing i with
  | nil => rfl
  | cons word rest ih =>
    by_cases zero : word = 0#16
    · rw [zero, insertLoop_zero, ih (by omega)]
      simp
    · have next : (os.put (':' :: ':' :: hexText word)).base = .dec := dec
      rw [insertLoop_group dec moved (.inl zero), if_pos ⟨rfl, Bool.false_ne_true⟩, insertLoop_used next (by omega),
        Ostream.put_put]
      simp [zero, later]

theorem insertLoop_front (dec : os.base = .dec) (moved : i ≠ 0) (after_group : before ≠ 0#16)
    (rest : List (BitVec 16)) :
    insertLoop i before rest false os =
      if back rest = [] then (false, os.put (later (front rest)))
      else (true, os.put (later (front rest) ++ ':' :: later (back rest))) := by
  induction rest generalizing i before os with
  | nil => simp [insertLoop, back, front, later, os.put_nil]
  | cons word rest ih =>
    by_cases zero : word = 0#16
    · rw [zero, insertLoop_zero, insertLoop_zeros dec (by omega)]
      simp [back, front, later, os.put_nil]
    · have step : back (word :: rest) = back rest ∧ front (word :: rest) = word :: front rest := by
        simp [back, front, zero]
      have next : (os.put (':' :: hexText word)).base = .dec := dec
      rw [insertLoop_group dec moved (.inl zero), if_neg fun both => after_group both.1, ih next (by omega) zero,
        Ostream.put_put, Ostream.put_put, step.1, step.2]
      simp [later]

theorem insertLoop_first (dec : os.base = .dec) (nonzero : word ≠ 0#16) :
    insertLoop 0 before (word :: rest) false os = insertLoop 1 word rest false (os.put (hexText word)) := by
  rw [insertLoop, if_neg fun both => nonzero both.1]
  simp only [ne_eq, not_true_eq_false, false_and, if_false]
  rw [Ostream.putHex _ dec]
  rfl

def joined (ts : List Text) : Text := [':'].intercalate ts

theorem joined_cons (t : Text) (ts : List Text) : joined (t :: ts) = t ++ ts.flatMap fun t => ':' :: t := by
  induction ts generalizing t with
  | nil => simp [joined]
  | cons u ts ih =>
    have rest := ih u
    rw [joined] at rest ⊢
    rw [List.intercalate_cons_cons, rest]
    simp

theorem joined_hexText (word : BitVec 16) (rest : List (BitVec 16)) :
    joined ((word :: rest).map hexText) = hexText word ++ later rest := by
  rw [List.map_cons, joined_cons, List.flatMap_map]
  rfl

/-- The text between the brackets. -/
def printed (words : List (BitVec 16)) : Text :=
  if words.dropWhile (· ≠ 0#16) = [] then joined (words.map hexText)
  else joined ((front words).map hexText) ++ [':', ':'] ++ joined ((back words).map hexText)

/-- Without groups behind the zeros the last word tells whether there are zeros. -/
theorem getLast_eq_zero_iff {words : List (BitVec 16)} (none_behind : back words = []) :
    words.getLast? = some 0#16 ↔ words.dropWhile (· ≠ 0#16) ≠ [] := by
  constructor
  · intro last all
    have nonzero := List.dropWhile_eq_nil_iff.mp all 0#16 (List.mem_of_getLast? last)
    simp at nonzero
  · intro zeros
    have split := List.takeWhile_append_dropWhile (p := (· ≠ 0#16)) (l := words)
    have all := List.dropWhile_eq_nil_iff.mp none_behind
    rw [← split, List.getLast?_append_of_ne_nil _ zeros, List.getLast?_eq_some_getLast zeros]
    exact congrArg some (of_decide_eq_true (all _ (List.getLast_mem zeros)))

theorem later_eq_joined {words : List (BitVec 16)} (nonempty : words ≠ []) :
    later words = ':' :: joined (words.map hexText) := by
  obtain ⟨word, rest, rfl⟩ := List.exists_cons_of_ne_nil nonempty
  rw [joined_hexText]
  rfl

/-- The whole pass. The flag tells whether there are groups behind the zeros. -/
theorem insertLoop_words (dec : os.base = .dec) {words : List (BitVec 16)} (nonempty : words ≠ []) :
    insertLoop 0 0#16 words false os =
      if back words = [] then (false, os.put (joined ((front words).map hexText)))
      else (true, os.put (joined ((front words).map hexText) ++ [':', ':'] ++ joined ((back words).map hexText))) := by
  obtain ⟨word, rest, rfl⟩ := List.exists_cons_of_ne_nil nonempty
  by_cases zero : word = 0#16
  · subst zero
    have step : rest.dropWhile (· = 0#16) = back (0#16 :: rest) ∧ front (0#16 :: rest) = [] := by simp [back, front]
    rw [insertLoop_zero, insertLoop_zeros dec (by decide), step.1, step.2]
    by_cases none_behind : back (0#16 :: rest) = []
    · rw [if_pos none_behind, if_pos none_behind]
      exact congrArg (Prod.mk false) os.put_nil.symm
    · rw [if_neg none_behind, if_neg none_behind, later_eq_joined none_behind]
      rfl
  · have next : (os.put (hexText word)).base = .dec := dec
    have step : back (word :: rest) = back rest ∧ front (word :: rest) = word :: front rest := by
      simp [back, front, zero]
    rw [insertLoop_first dec zero, insertLoop_front next (by decide) zero, step.1, step.2, joined_hexText,
      Ostream.put_put, Ostream.put_put]
    by_cases none_behind : back rest = []
    · rw [if_pos none_behind, if_pos none_behind]
    · rw [if_neg none_behind, if_neg none_behind, later_eq_joined none_behind]
      simp

theorem insertLoop_printed (dec : os.base = .dec) {words : List (BitVec 16)} (nonempty : words ≠ []) :
    (if ¬ (insertLoop 0 0#16 words false os).1 ∧ words.getLast? = some 0#16 then
      (insertLoop 0 0#16 words false os).2.put [':', ':']
    else (insertLoop 0 0#16 words false os).2) = os.put (printed words) := by
  rw [insertLoop_words dec nonempty, printed]
  by_cases none_behind : back words = []
  · have last := getLast_eq_zero_iff none_behind
    rw [if_pos none_behind]
    by_cases full : words.dropWhile (· ≠ 0#16) = []
    · have whole : front words = words := by
        have split := List.takeWhile_append_dropWhile (p := (· ≠ 0#16)) (l := words)
        rwa [full, List.append_nil] at split
      rw [if_neg fun both => last.mp both.2 full, if_pos full, whole]
    · rw [if_pos ⟨Bool.false_ne_true, last.mpr full⟩, if_neg full, Ostream.put_put, none_behind]
      simp [joined]
  · have zeros : words.dropWhile (· ≠ 0#16) ≠ [] := fun full => none_behind (by rw [back, full]; rfl)
    rw [if_neg none_behind, if_neg zeros, if_neg fun both => both.1 rfl]

end IPv6Address

end Cool.Address
