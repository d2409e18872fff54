import Cool.IOManager.Pending
import Mathlib.Data.List.Nodup

/-!
# Every registration is woken once

The registrations of a run are numbered by the order in which `addEvent` succeeded, and the callback
and the fiber a call brings carry its number; the code only stores and moves them. What the places
hold, what was deleted and what was pushed to a scheduler is then, together, every registration made
so far: none is lost and none is in two places.
-/

namespace Cool.IOManager

open Foundation Foundation.Slots

variable {κ φ : Type}

abbrev Numbered (κ φ : Type) := Handler (Nat × κ) (Nat × φ)

def number : Numbered κ φ → Nat
  | (_, .cb cb) => cb.1
  | (_, .fiber fiber) => fiber.1

def Op.numbered (n : Nat) : Op κ φ → Op (Nat × κ) (Nat × φ)
  | .addEvent fd event scheduler fiber cb => .addEvent fd event scheduler (n, fiber) (cb.map (n, ·))
  | .delEvent fd event => .delEvent fd event
  | .cancelEvent fd event => .cancelEvent fd event
  | .cancekAll fd => .cancekAll fd
  | .deliver fd mask => .deliver fd mask

/-- The scheduler of an event context together with its callback, or else its fiber. -/
def EventContext.handler (e : EventContext κ φ) : Option (Handler κ φ) :=
  match e.scheduler, e.cb, e.fiber with
  | some scheduler, some cb, _ => some (scheduler, .cb cb)
  | some scheduler, none, some fiber => some (scheduler, .fiber fiber)
  | _, _, _ => none

def stored (s : IOManager κ φ) (fd : Fd) (event : Event) : Option (Handler κ φ) :=
  match (s.contexts fd).getContext event with
  | .ok e => e.handler
  | .error _ => none

/-- `added` are the registrations that succeeded, `deleted` the handlers that a successful
`delEvent` found in the context. -/
structure Wakeups (κ φ : Type) where
  io : IOManager (Nat × κ) (Nat × φ)
  added : List (Fd × Event × Numbered κ φ)
  deleted : List (Numbered κ φ)

namespace Wakeups

def new : Wakeups κ φ := ⟨IOManager.new, [], []⟩

def adds (n : Nat) : Op κ φ → List (Fd × Event × Numbered κ φ)
  | .addEvent fd event scheduler fiber cb =>
    [(fd, event, Registry.handler scheduler (n, fiber) (cb.map (n, ·)))]
  | _ => []

def deletes (s : IOManager (Nat × κ) (Nat × φ)) : Op κ φ → List (Numbered κ φ)
  | .delEvent fd event => (stored s fd event).toList
  | _ => []

def Step (w : Wakeups κ φ) (a : Op κ φ × Bool) (w' : Wakeups κ φ) : Prop :=
  ∃ done io, w.io.exec a.2 (a.1.numbered w.added.length) = .ok (done, io) ∧
    w' = ⟨io, w.added ++ (if done then adds w.added.length a.1 else []),
      w.deleted ++ (if done then deletes w.io a.1 else [])⟩

/-! ### Balance -/

variable {r r' : Registry (Nat × κ) (Nat × φ)} {w w' : Wakeups κ φ}

theorem stored_concrete (r : Registry κ φ) (fd : Fd) (event : Event) :
    stored r.concrete fd event = r.slots (fd, event) := by
  have laid : ∀ x : Option (Handler κ φ), (Registry.layout x).handler = x := by
    intro x
    rcases x with _ | ⟨scheduler, cb | fiber⟩ <;> rfl
  unfold stored
  cases event with
  | none => exact (r.no_slot fd).symm
  | read => exact laid _
  | write => exact laid _

theorem coe_snoc {α : Type} (l : List α) (a : α) : ((l ++ [a] : List α) : Multiset α) = a ::ₘ l :=
  Multiset.coe_eq_coe.mpr (List.perm_append_singleton a l)

/-- A push moves what it finds from its place to the schedulers. -/
theorem push_balance (r : Registry κ φ) (fd : Fd) (event : Event) :
    contents (r.push fd event).slots + ((r.push fd event).pushed : Multiset (Handler κ φ)) =
      contents r.slots + (r.pushed : Multiset (Handler κ φ)) := by
  cases found : r.slots (fd, event) with
  | none => rw [Registry.push_empty found]
  | some h =>
    have taken : contents r.slots = h ::ₘ contents (r.push fd event).slots := contents_take found
    have pushed : (r.push fd event).pushed = r.pushed ++ [h] := by
      unfold Registry.push
      rw [found]
      rfl
    rw [taken, pushed, coe_snoc, Multiset.add_cons, Multiset.cons_add]

theorem push_subset {p : Fd × Event} {h : Handler κ φ} {r : Registry κ φ} {fd : Fd} {event : Event}
    (held : (r.push fd event).slots p = some h) : r.slots p = some h := by
  unfold Registry.push Registry.drop at held
  dsimp only at held
  rw [Function.update_apply] at held
  split at held
  · cases held
  · exact held

theorem pushIf_balance (r : Registry κ φ) (fd : Fd) (event : Event) (test : Bool) :
    contents (r.pushIf fd event test).slots + ((r.pushIf fd event test).pushed : Multiset (Handler κ φ)) =
      contents r.slots + (r.pushed : Multiset (Handler κ φ)) := by
  cases test with
  | false => rfl
  | true => exact push_balance r fd event

theorem pushIf_subset {p : Fd × Event} {h : Handler κ φ} {r : Registry κ φ} {fd : Fd} {event : Event}
    {test : Bool} (held : (r.pushIf fd event test).slots p = some h) : r.slots p = some h := by
  cases test with
  | false => exact held
  | true => exact push_subset held

structure Balanced (w : Wakeups κ φ) (r : Registry (Nat × κ) (Nat × φ)) : Prop where
  layout : w.io = r.concrete
  balance : contents r.slots + (r.pushed : Multiset (Numbered κ φ)) + (w.deleted : Multiset (Numbered κ φ)) =
    (w.added.map fun x => x.2.2 : List (Numbered κ φ))
  numbers : (w.added.map fun x => number x.2.2) = List.range w.added.length
  placed : ∀ fd event h, r.slots (fd, event) = some h → (fd, event, h) ∈ w.added

theorem Balanced.pushes (balanced : Balanced w r) (layout : w'.io = r'.concrete)
    (moved : contents r'.slots + (r'.pushed : Multiset (Numbered κ φ)) =
      contents r.slots + (r.pushed : Multiset (Numbered κ φ)))
    (subset : ∀ p h, r'.slots p = some h → r.slots p = some h)
    (added : w'.added = w.added) (deleted : w'.deleted = w.deleted) : Balanced w' r' where
  layout := layout
  balance := by
    rw [moved, added, deleted]
    exact balanced.balance
  numbers := by
    rw [added]
    exact balanced.numbers
  placed := by
    intro fd event h held
    rw [added]
    exact balanced.placed fd event h (subset _ h held)

theorem Balanced.refused {io : IOManager (Nat × κ) (Nat × φ)} (balanced : Balanced w r)
    (layout : io = r.concrete) : Balanced ⟨io, w.added ++ [], w.deleted ++ []⟩ r :=
  balanced.pushes layout rfl (fun _ _ held => held) (List.append_nil _) (List.append_nil _)

theorem number_handler (n : Nat) (scheduler : SchedulerId) (fiber : φ) (cb : Option κ) :
    number (Registry.handler scheduler (n, fiber) (cb.map (n, ·))) = n := by
  cases cb <;> rfl

theorem Balanced.put {fd : Fd} {event : Event} {h : Numbered κ φ} (balanced : Balanced w r)
    (real : event ≠ .none) (free : r.slots (fd, event) = none) (layout : w'.io = (r.put fd event real h).concrete)
    (fresh : number h = w.added.length) (added : w'.added = w.added ++ [(fd, event, h)])
    (deleted : w'.deleted = w.deleted) : Balanced w' (r.put fd event real h) where
  layout := layout
  balance := by
    have filled : contents (r.put fd event real h).slots = h ::ₘ contents r.slots := contents_put free h
    have same : (r.put fd event real h).pushed = r.pushed := rfl
    rw [filled, same, added, deleted, List.map_append, List.map_singleton, coe_snoc, ← balanced.balance,
      Multiset.cons_add, Multiset.cons_add]
  numbers := by
    rw [added, List.map_append, balanced.numbers, List.length_append, List.length_singleton, List.range_succ,
      List.map_cons, List.map_nil, fresh]
  placed := by
    intro fd' event' h' held
    rw [added]
    unfold Registry.put at held
    dsimp only at held
    rw [Function.update_apply] at held
    split at held
    · rename_i here
      cases here
      cases held
      exact List.mem_append_right _ List.mem_cons_self
    · exact List.mem_append_left _ (balanced.placed fd' event' h' held)

theorem Balanced.drop {fd : Fd} {event : Event} (balanced : Balanced w r)
    (filled : (r.slots (fd, event)).isSome = true) (layout : w'.io = (r.drop fd event).concrete)
    (added : w'.added = w.added) (deleted : w'.deleted = w.deleted ++ (stored w.io fd event).toList) :
    Balanced w' (r.drop fd event) where
  layout := layout
  balance := by
    obtain ⟨h, found⟩ := Option.isSome_iff_exists.mp filled
    have taken : contents r.slots = h ::ₘ contents (r.drop fd event).slots := contents_take found
    have same : (r.drop fd event).pushed = r.pushed := rfl
    have before := balanced.balance
    rw [balanced.layout, stored_concrete, found] at deleted
    rw [taken] at before
    rw [same, added, deleted, ← before, Option.toList_some, coe_snoc, Multiset.add_cons, Multiset.cons_add,
      Multiset.cons_add]
  numbers := by
    rw [added]
    exact balanced.numbers
  placed := by
    intro fd' event' h held
    rw [added]
    unfold Registry.drop at held
    dsimp only at held
    rw [Function.update_apply] at held
    split at held
    · cases held
    · exact balanced.placed fd' event' h held

theorem Balanced.step {a : Op κ φ × Bool} (balanced : Balanced w r) (step : w.Step a w') :
    ∃ r', Balanced w' r' := by
  obtain ⟨op, ok⟩ := a
  obtain ⟨done, io, returned, rfl⟩ := step
  rw [balanced.layout] at returned
  obtain ⟨r', layout, moves⟩ := Registry.exec_moves returned
  cases op with
  | addEvent fd event scheduler fiber cb =>
    cases moves with
    | refused => exact ⟨r, balanced.refused layout⟩
    | put real free =>
      exact ⟨_, balanced.put real free layout (number_handler ..) rfl (List.append_nil _)⟩
  | delEvent fd event =>
    cases moves with
    | refused => exact ⟨r, balanced.refused layout⟩
    | drop filled => exact ⟨_, balanced.drop filled layout (List.append_nil _) rfl⟩
  | cancelEvent fd event =>
    cases moves with
    | refused => exact ⟨r, balanced.refused layout⟩
    | push =>
      exact ⟨_, balanced.pushes layout (push_balance r fd event) (fun _ _ => push_subset)
        (List.append_nil _) (List.append_nil _)⟩
  | cancekAll fd =>
    cases moves with
    | refused => exact ⟨r, balanced.refused layout⟩
    | pushAll =>
      exact ⟨_, balanced.pushes layout ((push_balance _ fd .write).trans (push_balance r fd .read))
        (fun _ _ held => push_subset (push_subset held)) (List.append_nil _) (List.append_nil _)⟩
  | deliver fd mask =>
    cases moves with
    | refused => exact ⟨r, balanced.refused layout⟩
    | pushSome read write =>
      exact ⟨_, balanced.pushes layout
        ((pushIf_balance _ fd .write write).trans (pushIf_balance r fd .read read))
        (fun _ _ held => pushIf_subset (pushIf_subset held)) (List.append_nil _) (List.append_nil _)⟩

/-! ### One place for each registration -/

/-- Among numbered things, the one with number `i` is the only one. -/
theorem filter_numbered {α : Type} {l : List α} {f : α → Nat} {i : Nat} {a : α}
    (numbers : l.map f = List.range l.length) (entry : l[i]? = some a) : l.filter (f · = i) = [a] := by
  have bound := (List.getElem?_eq_some_iff.mp entry).1
  have here : f a = i := by
    have mapped : (l.map f)[i]? = some (f a) := by rw [List.getElem?_map, entry]; rfl
    rw [numbers, List.getElem?_range bound] at mapped
    exact (Option.some.inj mapped).symm
  have once : (l.filter (f · = i)).length = 1 := by
    have counted : (l.map f).count i = 1 := by
      rw [numbers, List.count_eq_one_of_mem List.nodup_range (List.mem_range.mpr bound)]
    rw [← List.countP_eq_length_filter, ← counted, List.count, List.countP_map]
    refine List.countP_congr fun x _ => ?_
    simp
  obtain ⟨b, only⟩ := List.length_eq_one_iff.mp once
  have member : a ∈ l.filter (f · = i) := List.mem_filter.mpr ⟨List.mem_of_getElem? entry, by simpa using here⟩
  rw [only, List.mem_singleton] at member
  rw [only, member]

/-- Three collections that make up one thing: it is in one of them, and the others are empty. -/
theorem one_of_three {α : Type} {held : Multiset α} {pushed deleted : List α} {a : α}
    (whole : held + (pushed : Multiset α) + (deleted : Multiset α) = {a}) :
    (held = {a} ∧ pushed = [] ∧ deleted = []) ∨ (held = 0 ∧ pushed = [a] ∧ deleted = []) ∨
      (held = 0 ∧ pushed = [] ∧ deleted = [a]) := by
  have size := congrArg Multiset.card whole
  have inside : ∀ x, x ∈ held + (pushed : Multiset α) + (deleted : Multiset α) → x = a := by
    rw [whole]
    exact fun x => Multiset.mem_singleton.mp
  simp only [Multiset.card_add, Multiset.coe_card, Multiset.card_singleton] at size
  cases pushed with
  | cons b rest =>
    rw [List.length_cons] at size
    obtain rfl : held = 0 := Multiset.card_eq_zero.mp (by omega)
    obtain rfl : rest = [] := List.length_eq_zero_iff.mp (by omega)
    obtain rfl : deleted = [] := List.length_eq_zero_iff.mp (by omega)
    obtain rfl : b = a := inside b (by simp)
    exact .inr (.inl ⟨rfl, rfl, rfl⟩)
  | nil =>
    cases deleted with
    | cons b rest =>
      rw [List.length_nil, List.length_cons] at size
      obtain rfl : held = 0 := Multiset.card_eq_zero.mp (by omega)
      obtain rfl : rest = [] := List.length_eq_zero_iff.mp (by omega)
      obtain rfl : b = a := inside b (by simp)
      exact .inr (.inr ⟨rfl, rfl, rfl⟩)
    | nil => exact .inl ⟨by simpa using whole, rfl, rfl⟩

theorem Balanced.place {i : Nat} {fd : Fd} {event : Event} {h : Numbered κ φ} (balanced : Balanced w r)
    (entry : w.added[i]? = some (fd, event, h)) :
    (r.slots (fd, event) = some h ∧ r.pushed.filter (number · = i) = [] ∧ w.deleted.filter (number · = i) = []) ∨
    (r.slots (fd, event) ≠ some h ∧ r.pushed.filter (number · = i) = [h] ∧
      w.deleted.filter (number · = i) = []) ∨
    (r.slots (fd, event) ≠ some h ∧ r.pushed.filter (number · = i) = [] ∧
      w.deleted.filter (number · = i) = [h]) := by
  have only : w.added.filter (fun x => number x.2.2 = i) = [(fd, event, h)] :=
    filter_numbered balanced.numbers entry
  have here : number h = i := by
    have member : (fd, event, h) ∈ w.added.filter (fun x => number x.2.2 = i) := only ▸ List.mem_cons_self
    simpa using (List.mem_filter.mp member).2
  have whole : (contents r.slots).filter (number · = i) +
      ((r.pushed.filter (number · = i) : List (Numbered κ φ)) : Multiset (Numbered κ φ)) +
      ((w.deleted.filter (number · = i) : List (Numbered κ φ)) : Multiset (Numbered κ φ)) = {h} := by
    have parts := congrArg (Multiset.filter (number · = i)) balanced.balance
    have all : (w.added.map fun x => x.2.2).filter (number · = i) = [h] := by
      rw [List.filter_map]
      exact congrArg (List.map fun x => x.2.2) only
    rw [Multiset.filter_add, Multiset.filter_add, Multiset.filter_coe, Multiset.filter_coe, Multiset.filter_coe,
      all] at parts
    exact parts
  have held : (contents r.slots).filter (number · = i) = 0 → r.slots (fd, event) ≠ some h := by
    intro none found
    have member : h ∈ (contents r.slots).filter (number · = i) :=
      Multiset.mem_filter.mpr ⟨mem_contents.mpr ⟨_, found⟩, here⟩
    simp [none] at member
  rcases one_of_three whole with ⟨kept, pushed, deleted⟩ | ⟨gone, pushed, deleted⟩ | ⟨gone, pushed, deleted⟩
  · refine .inl ⟨?_, pushed, deleted⟩
    have member : h ∈ (contents r.slots).filter (number · = i) := kept ▸ Multiset.mem_singleton_self h
    obtain ⟨⟨fd', event'⟩, found⟩ := mem_contents.mp (Multiset.mem_filter.mp member).1
    have same : (fd', event', h) ∈ w.added.filter (fun x => number x.2.2 = i) :=
      List.mem_filter.mpr ⟨balanced.placed fd' event' h found, by simpa using here⟩
    rw [only, List.mem_singleton] at same
    cases same
    exact found
  · exact .inr (.inl ⟨held gone, pushed, deleted⟩)
  · exact .inr (.inr ⟨held gone, pushed, deleted⟩)

end Wakeups

end Cool.IOManager
