import Mathlib.Algebra.BigOperators.Group.Finset.Piecewise
import Mathlib.Algebra.Order.BigOperators.Group.Finset
import Mathlib.Algebra.Order.Group.Multiset

/-!
# Places that hold at most one thing

A finite family of places, each empty or holding one thing. What they hold together is a multiset:
filling an empty place adds one thing to it, emptying a place takes that thing out.
-/

namespace Foundation.Slots

variable {ι α : Type*} [Fintype ι] {slots : ι → Option α} {i : ι} {a : α}

@[irreducible] def contents (slots : ι → Option α) : Multiset α := ∑ i, ((slots i).toList : Multiset α)

theorem mem_contents : a ∈ contents slots ↔ ∃ i, slots i = some a := by
  simp [contents, Multiset.mem_sum, Option.mem_toList]

theorem contents_none : contents (fun _ : ι => (none : Option α)) = 0 := by
  simp [contents]

theorem card_contents (slots : ι → Option α) :
    (contents slots).card = (Finset.univ.filter fun i => (slots i).isSome = true).card := by
  rw [contents, Multiset.card_sum, Finset.card_filter]
  refine Finset.sum_congr rfl fun i _ => ?_
  cases slots i <;> rfl

variable [DecidableEq ι]

theorem contents_put (free : slots i = none) (a : α) :
    contents (Function.update slots i (some a)) = a ::ₘ contents slots := by
  have others : ∑ j ∈ Finset.univ.erase i, ((Function.update slots i (some a) j).toList : Multiset α) =
      ∑ j ∈ Finset.univ.erase i, ((slots j).toList : Multiset α) := by
    refine Finset.sum_congr rfl fun j member => ?_
    rw [Function.update_of_ne (Finset.ne_of_mem_erase member)]
  rw [contents, contents, ← Finset.add_sum_erase _ _ (Finset.mem_univ i),
    ← Finset.add_sum_erase _ _ (Finset.mem_univ i), others, Function.update_self, free]
  simp

theorem contents_take (held : slots i = some a) :
    contents slots = a ::ₘ contents (Function.update slots i none) := by
  have put := contents_put (Function.update_self i none slots) a
  rwa [Function.update_idem, ← held, Function.update_eq_self] at put

end Foundation.Slots
