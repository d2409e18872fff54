import Cool.Address.Insert
import Cool.Address.Order

/-!
# Unix addresses

`UnixAddress(path)`. A path that starts with a NUL is abstract and takes as many bytes as it has; every other
path takes the NUL behind it along. The path without characters becomes the abstract one without a name.
-/

namespace Cool.Address

open Cool.ByteArray.Typed (memoryOf length_memoryOf)

def afUnix : BitVec 16 := 1

/-- `sizeof(m_addr.sun_path)`. -/
def sunPath : Nat := 108

namespace UnixAddress

/-- The memory of `m_addr` after `memcpy(m_addr.sun_path, path.c_str(), len)`. -/
def memory (path : List UInt8) (len : Nat) : List UInt8 :=
  memoryOf (n := 2) afUnix ++ ((path ++ [0]).take len ++ List.replicate sunPath 0).take sunPath

/-- `m_len`, of type `socklen_t`, before the offset of the path is added. -/
def len (path : List UInt8) : UInt32 :=
  let len := UInt32.ofNat (path.length + 1)
  if path.head? = some 0 then len - 1 else len

variable {path path' : List UInt8} {n : Nat}

theorem length_memory (path : List UInt8) (n : Nat) : (memory path n).length = 2 + sunPath := by
  simp [memory, length_memoryOf]

theorem inside_memory (fits : (len path).toNat ≤ sunPath) :
    (len path + 2).toNat ≤ (memory path (len path).toNat).length := by
  rw [length_memory, UInt32.toNat_add]
  have two : (2 : UInt32).toNat = 2 := rfl
  have least := Nat.mod_le ((len path).toNat + (2 : UInt32).toNat) (2 ^ 32)
  omega

/-- `UnixAddress(path)`, or the text of the exception. -/
def new (path : List UInt8) : Except String Object :=
  if fits : (len path).toNat ≤ sunPath then .ok (.unix (memory path (len path).toNat) (len path + 2) (inside_memory fits))
  else .error "path too long"

/-! ### The bytes of a path -/

/-- What stands in `sun_path`, up to `addrlen()`. -/
def stored (path : List UInt8) : List UInt8 := if path.head? = some 0 then path else path ++ [0]

theorem toNat_len (small : path.length + 1 < 2 ^ 32) : (len path).toNat = (stored path).length := by
  have whole : (UInt32.ofNat (path.length + 1)).toNat = path.length + 1 := UInt32.toNat_ofNat_of_lt' small
  unfold len stored
  dsimp only
  split
  · have least : (1 : UInt32) ≤ UInt32.ofNat (path.length + 1) := by
      rw [UInt32.le_iff_toNat_le, whole]
      exact Nat.le_add_left ..
    rw [UInt32.toNat_sub_of_le _ _ least, whole]
    rfl
  · rw [whole, List.length_append]
    rfl

theorem memory_eq (fits : (stored path).length ≤ sunPath) :
    memory path (stored path).length =
      memoryOf (n := 2) afUnix ++ (stored path ++ List.replicate (sunPath - (stored path).length) 0) := by
  have front : (path ++ [0]).take (stored path).length = stored path := by
    unfold stored
    split
    · exact List.take_left
    · exact List.take_length
  rw [memory, front, List.take_append, List.take_of_length_le fits, List.take_replicate,
    Nat.min_eq_left (Nat.sub_le ..)]

theorem stored_of_head (abstract_ : path.head? = some 0) : stored path = path := if_pos abstract_

theorem stored_of_not_head (named : path.head? ≠ some 0) : stored path = path ++ [0] := if_neg named

/-- An abstract path is what another one leaves in the memory only if neither has a name. -/
theorem append_eq_abstract (named : path.head? ≠ some 0) (abstract_ : path'.head? = some 0)
    (same : path ++ [0] = path') : path = [] ∧ path' = [0] := by
  subst same
  cases path with
  | nil => exact ⟨rfl, rfl⟩
  | cons c rest => exact absurd abstract_ named

theorem stored_inj : stored path = stored path' ↔
    path = path' ∨ (path = [] ∨ path = [0]) ∧ (path' = [] ∨ path' = [0]) := by
  constructor
  · intro same
    by_cases abstract_ : path.head? = some 0
    · by_cases abstract' : path'.head? = some 0
      · left
        rwa [stored_of_head abstract_, stored_of_head abstract'] at same
      · rw [stored_of_head abstract_, stored_of_not_head abstract'] at same
        obtain ⟨none, zero⟩ := append_eq_abstract abstract' abstract_ same.symm
        exact .inr ⟨.inr zero, .inl none⟩
    · by_cases abstract' : path'.head? = some 0
      · rw [stored_of_not_head abstract_, stored_of_head abstract'] at same
        obtain ⟨none, zero⟩ := append_eq_abstract abstract_ abstract' same
        exact .inr ⟨.inl none, .inr zero⟩
      · left
        rw [stored_of_not_head abstract_, stored_of_not_head abstract'] at same
        exact List.append_cancel_right same
  · rintro (rfl | ⟨rfl | rfl, rfl | rfl⟩)
    all_goals rfl

/-! ### The object -/

variable {a b : Object}

/-- What `insert` prints for a path. -/
def text : List UInt8 → Text
  | [] => ['\\', '0']
  | c :: rest => if c = 0 then '\\' :: '0' :: Object.chars rest else Object.chars ((c :: rest).takeWhile (· ≠ 0))

theorem new_ok (small : path.length + 1 < 2 ^ 32) (made : new path = .ok a) :
    (stored path).length ≤ sunPath ∧ ∃ m_len inside, m_len.toNat = 2 + (stored path).length ∧
      a = .unix (memoryOf (n := 2) afUnix ++ (stored path ++ List.replicate (sunPath - (stored path).length) 0)) m_len inside := by
  unfold new at made
  split at made
  · rename_i fits
    have fits' := fits
    rw [toNat_len small] at fits'
    have total : (len path + 2).toNat = 2 + (stored path).length := by
      have two : (2 : UInt32).toNat = 2 := rfl
      have bound : sunPath = 108 := rfl
      rw [UInt32.toNat_add, toNat_len small, two]
      omega
    have same : memory path (len path).toNat = _ := (congrArg (memory path) (toNat_len small)).trans (memory_eq fits')
    have inside := inside_memory fits
    rw [same] at inside
    refine ⟨fits', len path + 2, inside, total, ?_⟩
    cases made
    congr
  · cases made

theorem exists_new_iff (small : path.length + 1 < 2 ^ 32) :
    (∃ a, new path = .ok a) ↔ (stored path).length ≤ sunPath := by
  constructor
  · rintro ⟨a, made⟩
    exact (new_ok small made).1
  · intro fits
    rw [← toNat_len small] at fits
    exact ⟨_, dif_pos fits⟩

theorem string_new (small : path.length + 1 < 2 ^ 32) (made : new path = .ok a) :
    a.addr.take a.addrlen = memoryOf (n := 2) afUnix ++ stored path := by
  obtain ⟨_, m_len, inside, total, rfl⟩ := new_ok small made
  have family : (memoryOf (n := 2) afUnix).length = 2 := length_memoryOf (n := 2) afUnix
  rw [Object.addr, Object.addrlen, total, ← List.append_assoc]
  exact List.take_left' (by rw [List.length_append, family])

theorem takeWhile_stored (named : path.head? ≠ some 0) (zeros : List UInt8) :
    (stored path ++ zeros).takeWhile (· ≠ 0) = path.takeWhile (· ≠ 0) := by
  rw [stored_of_not_head named, List.append_assoc, List.takeWhile_append]
  split
  · rename_i all
    rw [List.singleton_append, List.takeWhile_cons_of_neg (by simp), List.append_nil]
    exact ((List.takeWhile_prefix _).eq_of_length all).symm
  · rfl

theorem toString_new (small : path.length + 1 < 2 ^ 32) (made : new path = .ok a) : a.toString = text path := by
  obtain ⟨_, m_len, inside, total, rfl⟩ := new_ok small made
  have family : (memoryOf (n := 2) afUnix).length = 2 := length_memoryOf (n := 2) afUnix
  have from2 (zeros : List UInt8) : (memoryOf (n := 2) afUnix ++ (stored path ++ zeros)).drop 2 = stored path ++ zeros :=
    List.drop_left' family
  rw [Object.toString, Object.insert, ← List.drop_drop (i := 1) (j := 2), from2, total]
  cases path with
  | nil => rfl
  | cons c rest =>
    by_cases zero : c = 0
    · subst zero
      have whole : stored (0 :: rest) = 0 :: rest := rfl
      have left : 2 + (0 :: rest).length - 3 = rest.length := by
        rw [List.length_cons]
        omega
      rw [whole, if_pos ⟨by simp, rfl⟩, left, text, if_pos rfl, List.cons_append, List.drop_one, List.tail_cons,
        List.take_left]
      rfl
    · have named : (c :: rest).head? ≠ some 0 := by simpa using zero
      have head : (stored (c :: rest) ++ List.replicate (sunPath - (stored (c :: rest)).length) 0).head? = some c := by
        rw [stored_of_not_head named]
        rfl
      rw [if_neg (by rw [head]; exact fun both => named both.2), takeWhile_stored named, text, if_neg zero]
      rfl

/-- A path makes an address exactly when it fits, and is then printed up to its first NUL, or behind `\\0` if
it is abstract. Two addresses are the same exactly when their paths are, or when neither has a name. -/
theorem path_iff (small : path.length + 1 < 2 ^ 32) (small' : path'.length + 1 < 2 ^ 32) :
    ((∃ a, new path = .ok a) ↔ path.length ≤ if path.head? = some 0 then 108 else 107) ∧
    (∀ a, new path = .ok a → a.family = afUnix ∧ a.toString = text path) ∧
    ∀ a b, new path = .ok a → new path' = .ok b → (a.operatorEqual b = true ↔
      path = path' ∨ (path = [] ∨ path = [0]) ∧ (path' = [] ∨ path' = [0])) := by
  refine ⟨?_, ?_, ?_⟩
  · rw [exists_new_iff small, sunPath]
    by_cases abstract_ : path.head? = some 0
    · rw [stored_of_head abstract_, if_pos abstract_]
    · rw [stored_of_not_head abstract_, if_neg abstract_, List.length_append]
      exact Nat.succ_le_succ_iff
  · intro a made
    refine ⟨?_, toString_new small made⟩
    obtain ⟨_, m_len, inside, _, rfl⟩ := new_ok small made
    exact ofMemory_take_append afUnix _
  · intro a b made made'
    rw [Object.operatorEqual_iff, Object.string, Object.string, string_new small made, string_new small' made',
      ← stored_inj]
    constructor
    · intro same
      exact List.append_cancel_left (List.map_injective_iff.mpr (fun x y => UInt8.toNat_inj.mp) same)
    · intro same
      rw [same]

/-- An abstract path and the name that is printed alike. -/
theorem path_iff_alike : ∃ a b, new [0, 97] = .ok a ∧ new [92, 48, 97] = .ok b ∧ a.toString = b.toString ∧
    a.operatorEqual b = false := by
  have first := @path_iff [0, 97] [92, 48, 97] (by decide) (by decide)
  have second := @path_iff [92, 48, 97] [] (by decide) (by decide)
  obtain ⟨a, made⟩ := first.1.mpr (by decide)
  obtain ⟨b, made'⟩ := second.1.mpr (by decide)
  refine ⟨a, b, made, made', ?_, ?_⟩
  · rw [(first.2.1 a made).2, (second.2.1 b made').2]
    rfl
  · have differ := first.2.2 a b made made'
    simpa using differ

end UnixAddress

end Cool.Address
