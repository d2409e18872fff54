import Cool.Foundation.Slots
import Cool.IOManager.Basic
import Mathlib.Data.Fintype.Prod

/-!
# Registrations

What the fd contexts are for: each descriptor has a place for a reader and one for a writer, and a
place is empty or holds a task with the scheduler that is to run it. `concrete` lays such a registry
out as the code keeps it, in masks, event contexts, kernel interest and a counter, and every
operation on the layout is one on the registry.
-/

namespace Cool.IOManager

open Foundation Foundation.Slots

variable {κ φ : Type}

/-! ### Masks of `READ` and `WRITE` -/

def bits (read write : Bool) : Mask :=
  (if read then Event.read.mask else 0) ||| (if write then Event.write.mask else 0)

theorem has_bits_none (a b : Bool) : has (bits a b) .none = false := by revert a b; decide
theorem has_bits_read (a b : Bool) : has (bits a b) .read = a := by revert a b; decide
theorem has_bits_write (a b : Bool) : has (bits a b) .write = b := by revert a b; decide
theorem bits_eq_zero (a b : Bool) : bits a b = 0 ↔ a = false ∧ b = false := by revert a b; decide
theorem bits_or (a b x y : Bool) : bits a b ||| bits x y = bits (a || x) (b || y) := by
  revert a b x y; decide
theorem bits_and_not (a b x y : Bool) : bits a b &&& ~~~bits x y = bits (a && !x) (b && !y) := by
  revert a b x y; decide
theorem mask_eq_bits (event : Event) : event.mask = bits (event = .read) (event = .write) := by
  revert event; decide

/-- What `idle` makes of a reported mask is a set of `READ` and `WRITE`. -/
theorem realEvents_eq_bits (mask : Mask) :
    realEvents mask = bits (has (realEvents mask) .read) (has (realEvents mask) .write) := by
  obtain ⟨a, b, same⟩ : ∃ a b, realEvents mask = bits a b := by
    unfold realEvents bits
    dsimp only
    generalize (if mask &&& (epollErr ||| epollHup) ≠ 0 then mask ||| (epollIn ||| epollOut) else mask) = full
    exact ⟨decide (full &&& epollIn ≠ 0), decide (full &&& epollOut ≠ 0), by simp only [decide_eq_true_eq]⟩
  rw [same, has_bits_read, has_bits_write]

abbrev Handler (κ φ : Type) := SchedulerId × Task κ φ

structure Registry (κ φ : Type) where
  slots : Fd × Event → Option (Handler κ φ)
  pushed : List (Handler κ φ)
  no_slot : ∀ fd, slots (fd, .none) = none

namespace Registry

def empty : Registry κ φ := ⟨fun _ => none, [], fun _ => rfl⟩

def put (r : Registry κ φ) (fd : Fd) (event : Event) (real : event ≠ .none) (h : Handler κ φ) :
    Registry κ φ where
  slots := Function.update r.slots (fd, event) (some h)
  pushed := r.pushed
  no_slot := by
    intro fd'
    rw [Function.update_of_ne (fun same => real (congrArg Prod.snd same).symm)]
    exact r.no_slot fd'

def drop (r : Registry κ φ) (fd : Fd) (event : Event) : Registry κ φ where
  slots := Function.update r.slots (fd, event) none
  pushed := r.pushed
  no_slot := by
    intro fd'
    rw [Function.update_apply]
    split
    · rfl
    · exact r.no_slot fd'

/-- The task in the place, if there is one, goes to its scheduler. -/
def push (r : Registry κ φ) (fd : Fd) (event : Event) : Registry κ φ :=
  { r.drop fd event with pushed := r.pushed ++ (r.slots (fd, event)).toList }

/-! ### The layout -/

def layout : Option (Handler κ φ) → EventContext κ φ
  | none => {}
  | some (scheduler, .cb cb) => { scheduler := some scheduler, cb := some cb }
  | some (scheduler, .fiber fiber) => { scheduler := some scheduler, fiber := some fiber }

def events (r : Registry κ φ) (fd : Fd) : Mask :=
  bits (r.slots (fd, .read)).isSome (r.slots (fd, .write)).isSome

def context (r : Registry κ φ) (fd : Fd) : FdContext κ φ where
  read := layout (r.slots (fd, .read))
  write := layout (r.slots (fd, .write))
  events := r.events fd

def interest (r : Registry κ φ) (fd : Fd) : Option Mask :=
  if r.events fd = 0 then none else some (epollEt ||| r.events fd)

/-- The layout at a moment when the kernel watches for `interest`. -/
def watched (r : Registry κ φ) (interest : Fd → Option Mask) : IOManager κ φ where
  contexts := r.context
  interest := interest
  pendingEventCount := (contents r.slots).card
  tasks := r.pushed

def concrete (r : Registry κ φ) : IOManager κ φ := r.watched r.interest

variable {r r' : Registry κ φ} {fd : Fd} {event : Event}

theorem concrete_empty : (empty : Registry κ φ).concrete = new := by
  have none_held : contents (empty : Registry κ φ).slots = 0 := contents_none
  have quiet : ∀ fd, (empty : Registry κ φ).events fd = 0 := fun _ => (bits_eq_zero _ _).mpr ⟨rfl, rfl⟩
  have contexts : (empty : Registry κ φ).context = fun _ => {} := by
    funext fd
    unfold context
    rw [quiet]
    rfl
  have interests : (empty : Registry κ φ).interest = fun _ => none := by
    funext fd
    unfold interest
    rw [if_pos (quiet fd)]
  unfold concrete watched new
  rw [none_held, contexts, interests]
  rfl

theorem has_events (r : Registry κ φ) (fd : Fd) (event : Event) :
    has (r.events fd) event = (r.slots (fd, event)).isSome := by
  unfold events
  cases event with
  | none => rw [has_bits_none, r.no_slot]; rfl
  | read => rw [has_bits_read]
  | write => rw [has_bits_write]

theorem events_put (r : Registry κ φ) (fd : Fd) (real : event ≠ .none) (h : Handler κ φ) :
    (r.put fd event real h).events fd = r.events fd ||| event.mask := by
  unfold events put
  rw [mask_eq_bits, bits_or]
  cases event with
  | none => exact absurd rfl real
  | read => simp
  | write => simp

theorem events_drop (r : Registry κ φ) (fd : Fd) (event : Event) :
    (r.drop fd event).events fd = r.events fd &&& ~~~event.mask := by
  unfold events drop
  rw [mask_eq_bits, bits_and_not]
  cases event <;> simp

theorem events_eq_zero (r : Registry κ φ) (fd : Fd) :
    r.events fd = 0 ↔ r.slots (fd, .read) = none ∧ r.slots (fd, .write) = none := by
  unfold events
  rw [bits_eq_zero]
  simp

theorem events_ne_zero (filled : (r.slots (fd, event)).isSome = true) : r.events fd ≠ 0 := by
  intro zero
  have test := r.has_events fd event
  rw [zero, filled] at test
  cases event <;> cases test

/-! ### Changing one descriptor -/

theorem put_other (real : event ≠ .none) (h : Handler κ φ) {p : Fd × Event} (other : p.1 ≠ fd) :
    (r.put fd event real h).slots p = r.slots p :=
  Function.update_of_ne (fun same => other (congrArg Prod.fst same)) _ _

theorem drop_other {p : Fd × Event} (other : p.1 ≠ fd) : (r.drop fd event).slots p = r.slots p :=
  Function.update_of_ne (fun same => other (congrArg Prod.fst same)) _ _

/-- A change to the places of one descriptor changes its context and its interest only. -/
theorem update_context (same : ∀ p : Fd × Event, p.1 ≠ fd → r'.slots p = r.slots p) :
    Function.update r.context fd (r'.context fd) = r'.context ∧
      Function.update r.interest fd (r'.interest fd) = r'.interest := by
  have events_same : ∀ other, other ≠ fd → r'.events other = r.events other := by
    intro other different
    unfold events
    rw [same _ different, same _ different]
  constructor
  · funext other
    by_cases here : other = fd
    · rw [here, Function.update_self]
    · rw [Function.update_of_ne here]
      unfold context
      rw [events_same other here, same _ here, same _ here]
  · funext other
    by_cases here : other = fd
    · rw [here, Function.update_self]
    · rw [Function.update_of_ne here]
      unfold interest
      rw [events_same other here]

theorem concrete_of {s : IOManager κ φ} (same : ∀ p : Fd × Event, p.1 ≠ fd → r'.slots p = r.slots p)
    (contexts : s.contexts = Function.update r.context fd (r'.context fd))
    (interests : s.interest = Function.update r.interest fd (r'.interest fd))
    (count : s.pendingEventCount = (contents r'.slots).card) (tasks : s.tasks = r'.pushed) :
    s = r'.concrete := by
  obtain ⟨context, interest⟩ := update_context same
  obtain ⟨_, _, _, _⟩ := s
  rw [context] at contexts
  rw [interest] at interests
  dsimp only at contexts interests count tasks
  rw [contexts, interests, count, tasks]
  rfl

theorem count_lt (r : Registry κ φ) : (contents r.slots).card < 2 ^ 33 := by
  rw [card_contents]
  refine Nat.lt_of_le_of_lt (Finset.card_le_univ _) ?_
  rw [Fintype.card_prod, Fintype.card_fin]
  decide

theorem count_drop (filled : (r.slots (fd, event)).isSome = true) :
    decrement (contents r.slots).card = (contents (r.drop fd event).slots).card := by
  obtain ⟨h, found⟩ := Option.isSome_iff_exists.mp filled
  have taken : contents r.slots = h ::ₘ contents (r.drop fd event).slots := contents_take found
  have bound := r.count_lt
  rw [taken, Multiset.card_cons] at bound ⊢
  exact decrement_count bound

/-! ### The operations on the layout -/

def handler (scheduler : SchedulerId) (fiber : φ) (cb : Option κ) : Handler κ φ :=
  (scheduler, cb.elim (.fiber fiber) .cb)

theorem getContext_context (r : Registry κ φ) (fd : Fd) (mask : Mask) (real : event ≠ .none) :
    ({ r.context fd with events := mask } : FdContext κ φ).getContext event =
      .ok (layout (r.slots (fd, event))) := by
  cases event with
  | none => exact absurd rfl real
  | read => rfl
  | write => rfl

theorem context_put (r : Registry κ φ) (fd : Fd) (real : event ≠ .none) (h : Handler κ φ) :
    (r.put fd event real h).context fd =
      ({ r.context fd with events := r.events fd ||| event.mask } : FdContext κ φ).setContext event
        (layout (some h)) := by
  unfold context
  rw [events_put]
  cases event with
  | none => exact absurd rfl real
  | read => simp [put, FdContext.setContext]
  | write => simp [put, FdContext.setContext]

theorem context_drop (r : Registry κ φ) (fd : Fd) (event : Event) :
    (r.drop fd event).context fd =
      ({ r.context fd with events := r.events fd &&& ~~~event.mask } : FdContext κ φ).setContext event {} := by
  unfold context
  rw [events_drop]
  cases event <;> simp [drop, FdContext.setContext, layout]

/-- The operation chosen from the mask fits what the kernel has. -/
theorem epollCtl_add (r : Registry κ φ) (fd : Fd) (mask : Mask) (ok : Bool) :
    epollCtl (r.interest fd) (if r.events fd ≠ 0 then .mod else .add) mask ok =
      if ok then some (some mask) else none := by
  unfold interest
  by_cases quiet : r.events fd = 0
  · rw [if_pos quiet, if_neg (not_not.mpr quiet)]
    rfl
  · rw [if_neg quiet, if_pos quiet]
    rfl

theorem epollCtl_left (busy : r.events fd ≠ 0) (left : Mask) (ok : Bool) :
    epollCtl (r.interest fd) (if left ≠ 0 then .mod else .del) (epollEt ||| left) ok =
      if ok then some (if left = 0 then none else some (epollEt ||| left)) else none := by
  unfold interest
  rw [if_neg busy]
  by_cases done : left = 0
  · rw [if_neg (not_not.mpr done), if_pos done]
    rfl
  · rw [if_pos done, if_neg done]
    rfl

theorem epollCtl_drop (filled : (r.slots (fd, event)).isSome = true) {ok : Bool} :
    epollCtl (r.concrete.interest fd)
        (if (r.concrete.contexts fd).events &&& ~~~event.mask ≠ 0 then .mod else .del)
        (epollEt ||| (r.concrete.contexts fd).events &&& ~~~event.mask) ok =
      if ok then some ((r.drop fd event).interest fd) else none := by
  unfold interest
  rw [events_drop]
  exact epollCtl_left (events_ne_zero filled) _ ok

theorem interest_put (real : event ≠ .none) (h : Handler κ φ) :
    (r.put fd event real h).interest fd = some (epollEt ||| (r.events fd ||| event.mask)) := by
  have filled : ((r.put fd event real h).slots (fd, event)).isSome = true := by simp [put]
  unfold interest
  rw [if_neg (events_ne_zero filled), events_put]

theorem layout_handler (scheduler : SchedulerId) (fiber : φ) (cb : Option κ) :
    (if cb.isSome then { ({} : EventContext κ φ) with scheduler := some scheduler, cb := cb }
      else { ({} : EventContext κ φ) with scheduler := some scheduler, fiber := some fiber }) =
      layout (some (handler scheduler fiber cb)) := by
  cases cb <;> rfl

theorem addEvent_concrete (r : Registry κ φ) (fd : Fd) (event : Event) (scheduler : SchedulerId)
    (fiber : φ) (cb : Option κ) (ok : Bool) :
    r.concrete.addEvent fd event scheduler fiber cb ok =
      if (r.slots (fd, event)).isSome then .error .addEvent
      else if ok = false then .ok (-1, r.concrete)
      else if real : event ≠ .none then .ok (0, (r.put fd event real (handler scheduler fiber cb)).concrete)
      else .error .getContext := by
  have test : has (r.concrete.contexts fd).events event = (r.slots (fd, event)).isSome :=
    r.has_events fd event
  have ctl : epollCtl (r.concrete.interest fd) (if (r.concrete.contexts fd).events ≠ 0 then .mod else .add)
      (epollEt ||| (r.concrete.contexts fd).events ||| event.mask) ok =
      if ok then some (some (epollEt ||| (r.events fd ||| event.mask))) else none := by
    rw [← BitVec.or_assoc]
    exact r.epollCtl_add fd _ ok
  unfold addEvent
  dsimp only
  rw [test, ctl]
  by_cases filled : (r.slots (fd, event)).isSome = true
  · rw [if_pos filled, if_pos filled]
  rw [if_neg filled, if_neg filled]
  have free : r.slots (fd, event) = none := by simpa using filled
  cases ok with
  | false => rfl
  | true =>
    rw [if_pos rfl, if_neg (by simp)]
    by_cases real : event ≠ .none
    · rw [dif_pos real]
      have got : ({ r.concrete.contexts fd with events := (r.concrete.contexts fd).events ||| event.mask }
          : FdContext κ φ).getContext event = .ok (layout (r.slots (fd, event))) :=
        r.getContext_context fd _ real
      dsimp only
      rw [got, free]
      dsimp only
      refine congrArg (fun s => Except.ok (0, s)) (concrete_of (fun p => put_other real _) ?_ ?_ ?_ rfl)
      · rw [context_put, ← layout_handler]
        rfl
      · rw [interest_put]
        rfl
      · have put_count : contents (r.put fd event real (handler scheduler fiber cb)).slots =
            handler scheduler fiber cb ::ₘ contents r.slots := contents_put free _
        rw [put_count, Multiset.card_cons, ← increment_count r.count_lt]
        rfl
    · rw [dif_neg real, not_not.mp real]
      rfl

theorem delEvent_concrete (r : Registry κ φ) (fd : Fd) (event : Event) (ok : Bool) :
    r.concrete.delEvent fd event ok =
      if (r.slots (fd, event)).isSome && ok then .ok (true, (r.drop fd event).concrete)
      else .ok (false, r.concrete) := by
  have test : has (r.concrete.contexts fd).events event = (r.slots (fd, event)).isSome :=
    r.has_events fd event
  unfold delEvent
  dsimp only
  rw [test]
  cases filled : (r.slots (fd, event)).isSome with
  | false => rfl
  | true =>
    have real : event ≠ .none := fun none => by simp [none, r.no_slot] at filled
    rw [epollCtl_drop filled]
    cases ok with
    | false => rfl
    | true =>
      have got : ({ r.concrete.contexts fd with
          events := (r.concrete.contexts fd).events &&& ~~~event.mask } : FdContext κ φ).getContext event =
          .ok (layout (r.slots (fd, event))) := r.getContext_context fd _ real
      simp only [Bool.not_true, Bool.false_eq_true, if_false, if_true, Bool.and_self]
      rw [got]
      refine congrArg (fun s => Except.ok (true, s)) (concrete_of (fun p => drop_other) ?_ rfl ?_ rfl)
      · rw [context_drop]
        rfl
      · rw [← count_drop filled]
        rfl

theorem triggerEvent_context (r : Registry κ φ) (fd : Fd) (event : Event) :
    (r.context fd).triggerEvent event =
      match r.slots (fd, event) with
      | some h => .ok ((r.drop fd event).context fd, [h])
      | none => .error .triggerEvent := by
  have test : has (r.context fd).events event = (r.slots (fd, event)).isSome := r.has_events fd event
  unfold FdContext.triggerEvent
  rw [test]
  cases found : r.slots (fd, event) with
  | none => rfl
  | some h =>
    have real : event ≠ .none := fun none => by simp [none, r.no_slot] at found
    have got : FdContext.getContext ⟨(r.context fd).read, (r.context fd).write,
        (r.context fd).events &&& ~~~event.mask⟩ event = .ok (layout (r.slots (fd, event))) :=
      r.getContext_context fd (r.events fd &&& ~~~event.mask) real
    rw [context_drop]
    simp only [Option.isSome_some, if_true]
    rw [got, found]
    obtain ⟨scheduler, cb | fiber⟩ := h <;> rfl

/-- `triggerEvent` and the decrement, whatever the kernel has been told before. -/
theorem trigger_watched (r : Registry κ φ) (fd : Fd) (event : Event) (interest : Fd → Option Mask) :
    (r.watched interest).trigger fd event =
      if (r.slots (fd, event)).isSome then .ok ((r.push fd event).watched interest)
      else .error .triggerEvent := by
  have context_push : Function.update r.context fd ((r.drop fd event).context fd) = (r.push fd event).context :=
    (update_context fun p => drop_other).1
  have fired : ((r.watched interest).contexts fd).triggerEvent event = _ := r.triggerEvent_context fd event
  unfold trigger
  rw [fired]
  cases found : r.slots (fd, event) with
  | none => rfl
  | some h =>
    have count : decrement (contents r.slots).card = (contents (r.drop fd event).slots).card :=
      count_drop (by rw [found]; rfl)
    have pushed : (r.push fd event).pushed = r.pushed ++ [h] := by
      unfold push
      rw [found]
      rfl
    refine congrArg Except.ok ?_
    unfold watched setContext
    dsimp only
    rw [count, context_push, pushed]
    rfl

theorem setInterest_concrete (same : ∀ p : Fd × Event, p.1 ≠ fd → r'.slots p = r.slots p) :
    r.concrete.setInterest fd (r'.interest fd) = r.watched r'.interest := by
  have told : r.concrete.setInterest fd (r'.interest fd) =
      r.watched (Function.update r.interest fd (r'.interest fd)) := rfl
  rw [told, (update_context same).2]

theorem cancelEvent_concrete (r : Registry κ φ) (fd : Fd) (event : Event) (ok : Bool) :
    r.concrete.cancelEvent fd event ok =
      if (r.slots (fd, event)).isSome && ok then .ok (true, (r.push fd event).concrete)
      else .ok (false, r.concrete) := by
  have test : has (r.concrete.contexts fd).events event = (r.slots (fd, event)).isSome :=
    r.has_events fd event
  unfold cancelEvent
  dsimp only
  rw [test]
  cases filled : (r.slots (fd, event)).isSome with
  | false => rfl
  | true =>
    rw [epollCtl_drop filled]
    cases ok with
    | false => rfl
    | true =>
      simp only [Bool.not_true, Bool.false_eq_true, if_false, if_true, Bool.and_self]
      rw [setInterest_concrete fun p => drop_other, trigger_watched, if_pos filled]
      rfl

/-! ### Several events at once -/

theorem push_empty (free : r.slots (fd, event) = none) : r.push fd event = r := by
  have slots : Function.update r.slots (fd, event) none = r.slots := by
    rw [← free, Function.update_eq_self]
  obtain ⟨_, _, _⟩ := r
  unfold push drop
  simp_all

theorem push_other {p : Fd × Event} (other : p.1 ≠ fd) : (r.push fd event).slots p = r.slots p :=
  drop_other other

theorem push_beside {event' : Event} (different : event' ≠ event) :
    (r.push fd event).slots (fd, event') = r.slots (fd, event') :=
  Function.update_of_ne (fun same => different (congrArg Prod.snd same)) _ _

def pushIf (r : Registry κ φ) (fd : Fd) (event : Event) (test : Bool) : Registry κ φ :=
  if test then r.push fd event else r

theorem triggerIf_watched {test : Bool} (registered : test = true → (r.slots (fd, event)).isSome = true)
    (interest : Fd → Option Mask) :
    (r.watched interest).triggerIf fd event test = .ok ((r.pushIf fd event test).watched interest) := by
  unfold triggerIf pushIf
  cases test with
  | false => rfl
  | true =>
    rw [if_pos rfl, if_pos rfl, trigger_watched, if_pos (registered rfl)]

theorem triggerIf_free (free : ¬ (r.slots (fd, event)).isSome = true) (interest : Fd → Option Mask) :
    (r.watched interest).triggerIf fd event true = .error .triggerEvent := by
  unfold triggerIf
  rw [if_pos rfl, trigger_watched, if_neg free]

theorem cancekAll_concrete (r : Registry κ φ) (fd : Fd) (ok : Bool) :
    r.concrete.cancekAll fd ok =
      if r.events fd ≠ 0 ∧ ok = true then .ok (true, ((r.push fd .read).push fd .write).concrete)
      else .ok (false, r.concrete) := by
  have registered : ∀ (r : Registry κ φ) (event : Event) (interest : Fd → Option Mask),
      (r.watched interest).triggerIf fd event (has ((r.watched interest).contexts fd).events event) =
        .ok ((r.push fd event).watched interest) := by
    intro r event interest
    have test : has ((r.watched interest).contexts fd).events event = (r.slots (fd, event)).isSome :=
      r.has_events fd event
    rw [test, triggerIf_watched id]
    unfold pushIf
    cases found : r.slots (fd, event) with
    | none => rw [push_empty found]; rfl
    | some h => rfl
  unfold cancekAll
  by_cases quiet : r.events fd = 0
  · rw [if_pos (show (r.concrete.contexts fd).events = 0 from quiet), if_neg (fun both => both.1 quiet)]
  rw [if_neg (show (r.concrete.contexts fd).events ≠ 0 from quiet)]
  have ctl : epollCtl (r.concrete.interest fd) .del 0 ok = if ok then some none else none := by
    change epollCtl (r.interest fd) .del 0 ok = _
    unfold interest
    rw [if_neg quiet]
    rfl
  rw [ctl]
  cases ok with
  | false =>
    rw [if_neg (fun both : _ ∧ _ => Bool.false_ne_true both.2)]
    rfl
  | true =>
    have free : ((r.push fd .read).push fd .write).events fd = 0 := by
      rw [events_eq_zero]
      exact ⟨(push_beside (by decide)).trans (Function.update_self ..), Function.update_self ..⟩
    have gone : none = ((r.push fd .read).push fd .write).interest fd := (if_pos free).symm
    rw [if_pos (show r.events fd ≠ 0 ∧ true = true from ⟨quiet, rfl⟩), if_pos rfl]
    dsimp only
    rw [gone, setInterest_concrete fun p other => (push_other other).trans (push_other other), registered]
    dsimp only
    rw [registered]
    exact if_neg (not_not.mpr free)

theorem pushIf_other {test : Bool} {p : Fd × Event} (other : p.1 ≠ fd) :
    (r.pushIf fd event test).slots p = r.slots p := by
  unfold pushIf
  split
  · exact push_other other
  · rfl

theorem pushIf_isSome (r : Registry κ φ) (fd : Fd) (event : Event) (test : Bool) :
    ((r.pushIf fd event test).slots (fd, event)).isSome = ((r.slots (fd, event)).isSome && !test) := by
  unfold pushIf
  cases test with
  | false => simp
  | true => simp [push, drop]

theorem pushIf_beside {event' : Event} {test : Bool} (different : event' ≠ event) :
    (r.pushIf fd event test).slots (fd, event') = r.slots (fd, event') := by
  unfold pushIf
  split
  · exact push_beside different
  · rfl

theorem events_pushIf (r : Registry κ φ) (fd : Fd) (x y : Bool) :
    ((r.pushIf fd .read x).pushIf fd .write y).events fd = r.events fd &&& ~~~bits x y := by
  have reads : ((r.pushIf fd .read x).pushIf fd .write y).slots (fd, .read) =
      (r.pushIf fd .read x).slots (fd, .read) := pushIf_beside (by decide)
  have writes : (r.pushIf fd .read x).slots (fd, .write) = r.slots (fd, .write) := pushIf_beside (by decide)
  unfold events
  rw [bits_and_not, reads, pushIf_isSome, pushIf_isSome, writes]

theorem bits_registered (r : Registry κ φ) {x y : Bool} :
    bits x y &&& ~~~r.events fd = 0 ↔
      (x = true → (r.slots (fd, .read)).isSome = true) ∧
        (y = true → (r.slots (fd, .write)).isSome = true) := by
  unfold events
  rw [bits_and_not, bits_eq_zero]
  cases x <;> cases y <;> simp

/-- `idle` on one reported descriptor: nothing, the pushes of the reported events, or the failed
assertion when some but not all of them are registered. -/
theorem deliver_concrete (r : Registry κ φ) (fd : Fd) (mask : Mask) (ok : Bool) :
    r.concrete.deliver fd mask ok =
      if r.events fd &&& realEvents mask = 0 ∨ ok = false then .ok r.concrete
      else if realEvents mask &&& ~~~r.events fd = 0 then
        .ok ((r.pushIf fd .read (has (realEvents mask) .read)).pushIf fd .write
          (has (realEvents mask) .write)).concrete
      else .error .triggerEvent := by
  have real := realEvents_eq_bits mask
  unfold deliver
  dsimp only
  generalize realEvents mask = events at real ⊢
  generalize has events .read = x at real ⊢
  generalize has events .write = y at real ⊢
  subst real
  by_cases apart : r.events fd &&& bits x y = 0
  · rw [if_pos (show (r.concrete.contexts fd).events &&& bits x y = 0 from apart), if_pos (.inl apart)]
  rw [if_neg (show (r.concrete.contexts fd).events &&& bits x y ≠ 0 from apart)]
  have busy : r.events fd ≠ 0 := fun zero => apart (by rw [zero]; exact BitVec.zero_and)
  have ctl : epollCtl (r.concrete.interest fd)
      (if (r.concrete.contexts fd).events &&& ~~~bits x y ≠ 0 then .mod else .del)
      (epollEt ||| (r.concrete.contexts fd).events &&& ~~~bits x y) ok =
      if ok then some (((r.pushIf fd .read x).pushIf fd .write y).interest fd) else none := by
    unfold interest
    rw [events_pushIf]
    exact epollCtl_left busy _ ok
  rw [ctl]
  cases ok with
  | false =>
    rw [if_pos (show r.events fd &&& bits x y = 0 ∨ false = false from .inr rfl)]
    rfl
  | true =>
    rw [if_neg (show ¬ (r.events fd &&& bits x y = 0 ∨ true = false) by simpa using apart), if_pos rfl]
    dsimp only
    rw [setInterest_concrete fun p other => (pushIf_other other).trans (pushIf_other other)]
    by_cases reads : x = true → (r.slots (fd, .read)).isSome = true
    · rw [triggerIf_watched reads]
      dsimp only
      by_cases writes : y = true → (r.slots (fd, .write)).isSome = true
      · rw [if_pos (r.bits_registered.mpr ⟨reads, writes⟩),
          triggerIf_watched (by rwa [pushIf_beside (by decide)])]
        rfl
      · rw [if_neg fun all => writes (r.bits_registered.mp all).2]
        obtain ⟨rfl, free⟩ := Classical.not_imp.mp writes
        rw [triggerIf_free (by rwa [pushIf_beside (by decide)])]
    · rw [if_neg fun all => reads (r.bits_registered.mp all).1]
      obtain ⟨rfl, free⟩ := Classical.not_imp.mp reads
      rw [triggerIf_free free]

end Registry

end Cool.IOManager
