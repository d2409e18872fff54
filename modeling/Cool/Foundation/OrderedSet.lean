import Mathlib.Data.List.Basic
import Mathlib.Data.List.TakeWhile

/-!
# Sets ordered by a comparator

An ordered set kept as the list of its elements in the order of a comparator `lt`, with the look-up
and the insertion of a search tree: both stop at the first element that is not below the one
looked for. They are only right on a list that is ordered by `lt` as it is now, which is why a set
whose elements change under it loses them.
-/

namespace Foundation.OrderedSet

variable {α : Type*} {lt : α → α → Bool} {x y : α} {l : List α}

def find (lt : α → α → Bool) (x : α) (l : List α) : Option α :=
  match l.dropWhile (lt · x) with
  | [] => none
  | y :: _ => if lt x y then none else some y

def insert (lt : α → α → Bool) (x : α) : List α → List α
  | [] => [x]
  | y :: ys => if lt y x then y :: insert lt x ys else if lt x y then x :: y :: ys else y :: ys

def Ordered (lt : α → α → Bool) (l : List α) : Prop := l.Pairwise fun x y => lt x y = true

theorem find_of_mem (irrefl : ∀ x, lt x x = false) (ordered : Ordered lt l) (member : x ∈ l) :
    find lt x l = some x := by
  induction l with
  | nil => simp at member
  | cons y ys ih =>
    obtain ⟨below, rest⟩ := List.pairwise_cons.mp ordered
    rcases List.mem_cons.mp member with rfl | later
    · simp [find, irrefl]
    · rw [find, List.dropWhile_cons_of_pos (p := (lt · x)) (below x later)]
      exact ih rest later

theorem mem_insert (total : ∀ y ∈ l, lt x y = true ∨ lt y x = true) :
    y ∈ insert lt x l ↔ y = x ∨ y ∈ l := by
  induction l with
  | nil => simp [insert]
  | cons z zs ih =>
    have rest := ih fun y member => total y (List.mem_cons_of_mem _ member)
    rw [insert]
    split
    · simp only [List.mem_cons, rest]
      tauto
    · rename_i not_above
      rw [if_pos ((total z List.mem_cons_self).resolve_right not_above)]
      simp

theorem mem_of_mem_insert (member : y ∈ insert lt x l) : y = x ∨ y ∈ l := by
  induction l with
  | nil => exact .inl (List.mem_singleton.mp member)
  | cons z zs ih =>
    rw [insert] at member
    split at member
    · rcases List.mem_cons.mp member with rfl | later
      · exact .inr List.mem_cons_self
      · exact (ih later).imp_right (List.mem_cons_of_mem _)
    · split at member
      · exact List.mem_cons.mp member
      · exact .inr member

theorem ordered_insert (trans : ∀ x y z, lt x y = true → lt y z = true → lt x z = true) (ordered : Ordered lt l) :
    Ordered lt (insert lt x l) := by
  induction l with
  | nil => simp [insert, Ordered]
  | cons z zs ih =>
    obtain ⟨below, rest⟩ := List.pairwise_cons.mp ordered
    rw [insert]
    split
    · rename_i above
      refine List.pairwise_cons.mpr ⟨?_, ih rest⟩
      intro w member
      rcases mem_of_mem_insert member with rfl | old
      · exact above
      · exact below w old
    · split
      · rename_i first
        refine List.pairwise_cons.mpr ⟨?_, ordered⟩
        intro w member
        rcases List.mem_cons.mp member with rfl | later
        · exact first
        · exact trans _ _ _ first (below w later)
      · exact ordered

/-- An element above all others goes to the end. -/
theorem insert_last (above : ∀ y ∈ l, lt y x = true) : insert lt x l = l ++ [x] := by
  induction l with
  | nil => rfl
  | cons z zs ih =>
    rw [insert, if_pos (above z List.mem_cons_self), ih fun y member => above y (List.mem_cons_of_mem _ member)]
    rfl

theorem Ordered.nodup (irrefl : ∀ x, lt x x = false) (ordered : Ordered lt l) : l.Nodup :=
  List.Pairwise.imp (fun {x y} below same => by rw [same, irrefl] at below; cases below) ordered

/-- On an ordered set, the elements before the first one without a property that is inherited
downwards are all the elements with it. -/
theorem dropWhile_eq_filter {p : α → Bool} (down : ∀ x ∈ l, ∀ y ∈ l, lt x y = true → p y = true → p x = true)
    (ordered : Ordered lt l) : l.dropWhile p = l.filter (fun x => !p x) := by
  induction l with
  | nil => rfl
  | cons x xs ih =>
    obtain ⟨below, rest⟩ := List.pairwise_cons.mp ordered
    by_cases here : p x = true
    · rw [List.dropWhile_cons_of_pos here, List.filter_cons_of_neg (by simp [here])]
      exact ih (fun y my z mz => down y (List.mem_cons_of_mem _ my) z (List.mem_cons_of_mem _ mz)) rest
    · rw [List.dropWhile_cons_of_neg here, List.filter_eq_self.mpr]
      intro y member
      rcases List.mem_cons.mp member with rfl | later
      · simpa using here
      · have : p y ≠ true := fun holds =>
          here (down x List.mem_cons_self y member (below y later) holds)
        simpa using this

end Foundation.OrderedSet
