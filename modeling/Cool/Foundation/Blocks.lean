import Mathlib.Data.List.Basic
import Mathlib.Tactic.Ring

/-!
# Memory in equal blocks

A memory kept as a list of blocks of one size, seen as the flat list of its cells. Storing or
reading a stretch that stays inside one block is storing or reading the same stretch of the flat
list, and stretches that follow each other compose.
-/

namespace Foundation

variable {α : Type*}

/-- `overwrite l off buf` is `l` with `buf` stored from index `off`, clipped at the end of `l`. -/
def overwrite : List α → Nat → List α → List α
  | [], _, _ => []
  | x :: xs, _, [] => x :: xs
  | _ :: xs, 0, b :: bs => b :: overwrite xs 0 bs
  | x :: xs, n + 1, b :: bs => x :: overwrite xs n (b :: bs)

@[simp] theorem overwrite_nil (l : List α) (off : Nat) : overwrite l off [] = l := by
  cases l <;> simp [overwrite]

@[simp] theorem length_overwrite (l : List α) (off : Nat) (buf : List α) :
    (overwrite l off buf).length = l.length := by
  fun_induction overwrite l off buf <;> simp_all

/-- A store that fits replaces exactly the stretch it covers. -/
theorem overwrite_eq {l buf : List α} {off : Nat} (fits : off + buf.length ≤ l.length) :
    overwrite l off buf = l.take off ++ buf ++ l.drop (off + buf.length) := by
  fun_induction overwrite l off buf with
  | case1 off buf =>
    have hoff : off = 0 := by simp only [List.length_nil] at fits; omega
    have hbuf : buf = [] := List.eq_nil_of_length_eq_zero (by simp only [List.length_nil] at fits; omega)
    simp [hoff, hbuf]
  | case2 x xs off => simp
  | case3 x xs b bs ih => simpa using ih (by simp at fits ⊢; omega)
  | case4 x xs n b bs ih =>
    have rest := ih (by simp at fits ⊢; omega)
    rw [rest]
    simp [show n + 1 + (bs.length + 1) = n + (bs.length + 1) + 1 by omega]

theorem overwrite_append_left {xs ys buf : List α} {off : Nat}
    (fits : off + buf.length ≤ xs.length) :
    overwrite (xs ++ ys) off buf = overwrite xs off buf ++ ys := by
  rw [overwrite_eq fits, overwrite_eq (by simp; omega), List.take_append_of_le_length (by omega),
    List.drop_append_of_le_length fits]
  simp

theorem overwrite_append_right {xs ys buf : List α} {off : Nat} :
    overwrite (xs ++ ys) (xs.length + off) buf = xs ++ overwrite ys off buf := by
  induction xs with
  | nil => simp
  | cons x xs ih =>
    cases buf with
    | nil => simp
    | cons b bs =>
      rw [List.length_cons, show xs.length + 1 + off = xs.length + off + 1 by omega]
      simp [overwrite, ih]

theorem overwrite_overwrite {l xs ys : List α} {off : Nat}
    (fits : off + (xs.length + ys.length) ≤ l.length) :
    overwrite (overwrite l off xs) (off + xs.length) ys = overwrite l off (xs ++ ys) := by
  have first : off + xs.length ≤ l.length := by omega
  rw [overwrite_eq first, overwrite_eq (l := l) (by simp; omega)]
  have front : (l.take off ++ xs).length = off + xs.length := by simp; omega
  have behind : overwrite (l.drop (off + xs.length)) 0 ys =
      ys ++ l.drop (off + (xs.length + ys.length)) := by
    rw [overwrite_eq (by simp; omega)]
    simp [Nat.add_assoc]
  calc overwrite (l.take off ++ xs ++ l.drop (off + xs.length)) (off + xs.length) ys
      = l.take off ++ xs ++ overwrite (l.drop (off + xs.length)) 0 ys := by
        rw [← front, ← Nat.add_zero (l.take off ++ xs).length, overwrite_append_right, Nat.add_zero]
    _ = l.take off ++ (xs ++ ys) ++ l.drop (off + (xs ++ ys).length) := by
        rw [behind]; simp

/-! ### Blocks of one size -/

def Uniform (b : Nat) (blocks : List (List α)) : Prop := ∀ block ∈ blocks, block.length = b

theorem Uniform.cons {b : Nat} {block : List α} {blocks : List (List α)} :
    Uniform b (block :: blocks) ↔ block.length = b ∧ Uniform b blocks := by
  simp [Uniform]

theorem Uniform.length_flatten {b : Nat} {blocks : List (List α)} (uniform : Uniform b blocks) :
    blocks.flatten.length = blocks.length * b := by
  induction blocks with
  | nil => simp
  | cons block blocks ih =>
    obtain ⟨here, rest⟩ := Uniform.cons.mp uniform
    rw [List.flatten_cons, List.length_append, here, ih rest, List.length_cons]
    ring

/-- A stretch of one block is the stretch of the flat list at the block's place. -/
theorem Uniform.slice {b i off len : Nat} {blocks : List (List α)} {block : List α}
    (uniform : Uniform b blocks) (at_i : blocks[i]? = some block) (fits : off + len ≤ b) :
    (blocks.flatten.drop (i * b + off)).take len = (block.drop off).take len := by
  induction blocks generalizing i with
  | nil => simp at at_i
  | cons first blocks ih =>
    obtain ⟨here, rest⟩ := Uniform.cons.mp uniform
    cases i with
    | zero =>
      obtain rfl : first = block := by simpa using at_i
      rw [List.flatten_cons, Nat.zero_mul, Nat.zero_add, List.drop_append_of_le_length (by omega),
        List.take_append_of_le_length (by simp; omega)]
    | succ i =>
      rw [List.flatten_cons, show (i + 1) * b + off = first.length + (i * b + off) by rw [here]; ring,
        List.drop_length_add_append]
      exact ih rest (by simpa using at_i)

/-- A store into one block is the store into the flat list at the block's place. -/
theorem Uniform.store {b i off : Nat} {blocks : List (List α)} {buf : List α}
    (uniform : Uniform b blocks) (bound : i < blocks.length) (fits : off + buf.length ≤ b) :
    (blocks.modify i (overwrite · off buf)).flatten = overwrite blocks.flatten (i * b + off) buf := by
  induction blocks generalizing i with
  | nil => simp at bound
  | cons first blocks ih =>
    obtain ⟨here, rest⟩ := Uniform.cons.mp uniform
    cases i with
    | zero =>
      rw [List.modify_zero_cons, List.flatten_cons, List.flatten_cons, Nat.zero_mul, Nat.zero_add,
        overwrite_append_left (by omega)]
    | succ i =>
      rw [List.modify_succ_cons, List.flatten_cons, List.flatten_cons,
        ih rest (by simpa using bound),
        show (i + 1) * b + off = first.length + (i * b + off) by rw [here]; ring,
        overwrite_append_right]

end Foundation
