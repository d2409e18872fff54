import Mathlib.Data.List.Basic
import Mathlib.Logic.Function.Basic

/-!
# A configuration variable and its listeners

`ConfigVar::set_value` compares and notifies under the read lock and assigns under the write lock. A
listener is its key in `m_cbs`; what is passed to it is recorded. Several threads set one variable: a
call that has notified may assign after calls that notified later.
-/

namespace Cool

variable {ι τ : Type} [DecidableEq τ]

/-- `cbs` are the keys of `m_cbs` in order, `funId` is `s_fun_id`. -/
structure ConfigVar (τ : Type) where
  val : τ
  cbs : List Nat
  funId : Nat
  fresh : ∀ key ∈ cbs, key ≤ funId

namespace ConfigVar

/-- A call of a listener: its key, the old and the new value. -/
abbrev Notice (τ : Type) := Nat × τ × τ

/-- The read-locked section of `set_value`: nothing if it returns there, otherwise the calls it makes. -/
def compare (var : ConfigVar τ) (v : τ) : Option (List (Notice τ)) :=
  if v = var.val then none else some (var.cbs.map fun key => (key, var.val, v))

def assign (var : ConfigVar τ) (v : τ) : ConfigVar τ := { var with val := v }

/-- `set_value` when nothing comes between its two sections. -/
def setValue (var : ConfigVar τ) (v : τ) : ConfigVar τ × List (Notice τ) :=
  match var.compare v with
  | none => (var, [])
  | some notices => (var.assign v, notices)

omit [DecidableEq τ] in
theorem fresh_add (var : ConfigVar τ) : ∀ key ∈ var.cbs ++ [var.funId + 1], key ≤ var.funId + 1 := by
  intro key member
  rcases List.mem_append.mp member with before | last
  · exact Nat.le_succ_of_le (var.fresh key before)
  · exact Nat.le_of_eq (List.mem_singleton.mp last)

/-- The new key is above all others, so it is the last of the map. -/
def addListener (var : ConfigVar τ) : ConfigVar τ :=
  { var with cbs := var.cbs ++ [var.funId + 1], funId := var.funId + 1, fresh := var.fresh_add }

def delListener (var : ConfigVar τ) (key : Nat) : ConfigVar τ :=
  { var with
    cbs := var.cbs.filter (· ≠ key)
    fresh := fun other member => var.fresh other (List.mem_of_mem_filter member) }

def clearListeners (var : ConfigVar τ) : ConfigVar τ :=
  { var with
    cbs := []
    fresh := fun _ member => absurd member List.not_mem_nil }

/-- Threads in `set_value`. `heard` is the new value most recently passed to a listener, `notified` the
values of the calls that have notified, in that order; a thread that has still to assign holds the
number of its call, and `assigned` is the number of the call that assigned last. -/
structure Setters (ι τ : Type) where
  var : ConfigVar τ
  heard : Nat → Option τ
  notified : List τ
  pending : ι → Option (Nat × τ)
  assigned : Option Nat

inductive SetStep (ι τ : Type) where
  /-- The read-locked section of `set_value(v)`. -/
  | compare (thread : ι) (v : τ)
  /-- The write-locked section of the call the thread is in. -/
  | assign (thread : ι)
  | addListener
  | delListener (key : Nat)
  | clearListeners
  deriving DecidableEq, Repr

namespace Setters

def start (var : ConfigVar τ) : Setters ι τ := ⟨var, fun _ => none, [], fun _ => none, none⟩

variable [DecidableEq ι]

/-- What the listeners have heard after some more calls of them. -/
def hear (heard : Nat → Option τ) (notices : List (Notice τ)) : Nat → Option τ :=
  notices.foldl (fun heard notice => Function.update heard notice.1 (some notice.2.2)) heard

def enter (s : Setters ι τ) (thread : ι) (v : τ) : Setters ι τ :=
  match s.pending thread, s.var.compare v with
  | none, some notices =>
    { s with
      heard := hear s.heard notices
      notified := s.notified ++ [v]
      pending := Function.update s.pending thread (some (s.notified.length, v)) }
  | _, _ => s

def leave (s : Setters ι τ) (thread : ι) : Setters ι τ :=
  match s.pending thread with
  | none => s
  | some (call, v) =>
    { s with
      var := s.var.assign v
      pending := Function.update s.pending thread none
      assigned := some call }

def next (s : Setters ι τ) : SetStep ι τ → Setters ι τ
  | .compare thread v => s.enter thread v
  | .assign thread => s.leave thread
  | .addListener => { s with var := s.var.addListener, heard := Function.update s.heard (s.var.funId + 1) none }
  | .delListener key => { s with var := s.var.delListener key }
  | .clearListeners => { s with var := s.var.clearListeners }

def newest (s : Setters ι τ) : Option Nat := if s.notified = [] then none else some (s.notified.length - 1)

omit [DecidableEq τ] in
/-- A round of notifications leaves one value with every listener it reaches. -/
theorem hear_map (keys : List Nat) (heard : Nat → Option τ) (old v : τ) (key : Nat) :
    hear heard (keys.map fun key => (key, old, v)) key = if key ∈ keys then some v else heard key := by
  induction keys generalizing heard with
  | nil => rfl
  | cons first rest ih =>
    have step : hear heard ((first :: rest).map fun key => (key, old, v)) key =
        hear (Function.update heard first (some v)) (rest.map fun key => (key, old, v)) key := rfl
    rw [step, ih]
    by_cases later : key ∈ rest
    · rw [if_pos later, if_pos (List.mem_cons_of_mem first later)]
    · rw [if_neg later]
      by_cases same : key = first
      · subst same
        rw [Function.update_self, if_pos List.mem_cons_self]
      · rw [Function.update_of_ne same, if_neg]
        intro member
        exact (List.mem_cons.mp member).elim same later

/-- What holds along every interleaving that starts with `var`. -/
structure Heard (var : ConfigVar τ) (s : Setters ι τ) : Prop where
  last : ∀ key ∈ s.var.cbs, ∀ v, s.heard key = some v → s.notified.getLast? = some v
  silent : ∀ key ∈ s.var.cbs, key ∈ var.cbs → s.heard key = none → s.notified = []
  counted : var.funId ≤ s.var.funId
  pending : ∀ thread call v, s.pending thread = some (call, v) → s.notified[call]? = some v
  value : ∀ call, s.assigned = some call → s.notified[call]? = some s.var.val
  initial : s.assigned = none → s.var.val = var.val

variable {var : ConfigVar τ} {s : Setters ι τ}

omit [DecidableEq ι] in
theorem hear_compare {v : τ} {notices : List (Notice τ)} {key : Nat} (calls : s.var.compare v = some notices)
    (member : key ∈ s.var.cbs) : hear s.heard notices key = some v := by
  unfold ConfigVar.compare at calls
  split at calls
  · cases calls
  · obtain rfl := Option.some.inj calls
    rw [hear_map, if_pos member]

theorem Heard.enter (h : Heard var s) {thread : ι} {v : τ} {notices : List (Notice τ)}
    (calls : s.var.compare v = some notices) :
    Heard var
      { s with
        heard := hear s.heard notices
        notified := s.notified ++ [v]
        pending := Function.update s.pending thread (some (s.notified.length, v)) } := by
  refine ⟨?_, ?_, h.counted, ?_, ?_, h.initial⟩
  · intro key member heard now
    have same := Option.some.inj ((hear_compare calls member).symm.trans now)
    simp [same]
  · intro key member _ now
    have heard := (hear_compare calls member).symm.trans now
    cases heard
  · intro other call heard now
    by_cases same : other = thread
    · subst same
      have here := (Function.update_self other _ s.pending).symm.trans now
      obtain ⟨rfl, rfl⟩ := Prod.mk.inj (Option.some.inj here)
      simp
    · have before := h.pending other call heard ((Function.update_of_ne same _ s.pending).symm.trans now)
      exact (List.getElem?_append_left (List.getElem?_eq_some_iff.mp before).1).trans before
  · intro call done
    have before := h.value call done
    exact (List.getElem?_append_left (List.getElem?_eq_some_iff.mp before).1).trans before

omit [DecidableEq τ] in
theorem Heard.leave (h : Heard var s) {thread : ι} {call : Nat} {v : τ}
    (waiting : s.pending thread = some (call, v)) :
    Heard var
      { s with
        var := s.var.assign v
        pending := Function.update s.pending thread none
        assigned := some call } := by
  refine ⟨h.last, h.silent, h.counted, ?_, ?_, fun none => by cases none⟩
  · intro other number heard now
    by_cases same : other = thread
    · subst same
      have none := (Function.update_self other _ s.pending).symm.trans now
      cases none
    · exact h.pending other number heard ((Function.update_of_ne same _ s.pending).symm.trans now)
  · intro number done
    cases done
    exact h.pending thread call v waiting

omit [DecidableEq τ] [DecidableEq ι] in
theorem Heard.addListener (h : Heard var s) :
    Heard var { s with var := s.var.addListener, heard := Function.update s.heard (s.var.funId + 1) none } := by
  have old : ∀ key ∈ s.var.addListener.cbs, key ≠ s.var.funId + 1 → key ∈ s.var.cbs := by
    intro key member other
    exact (List.mem_append.mp member).resolve_right fun last => other (List.mem_singleton.mp last)
  refine ⟨?_, ?_, Nat.le_succ_of_le h.counted, h.pending, h.value, h.initial⟩
  · intro key member v now
    by_cases new : key = s.var.funId + 1
    · subst new
      have none := (Function.update_self (s.var.funId + 1) none s.heard).symm.trans now
      cases none
    · exact h.last key (old key member new) v ((Function.update_of_ne new none s.heard).symm.trans now)
  · intro key member known now
    have small := var.fresh key known
    have counted := h.counted
    have new : key ≠ s.var.funId + 1 := by omega
    exact h.silent key (old key member new) known ((Function.update_of_ne new none s.heard).symm.trans now)

omit [DecidableEq τ] [DecidableEq ι] in
theorem Heard.fewer (h : Heard var s) {var' : ConfigVar τ} (fewer : var'.cbs ⊆ s.var.cbs) (val : var'.val = s.var.val)
    (funId : var'.funId = s.var.funId) : Heard var { s with var := var' } where
  last key member := h.last key (fewer member)
  silent key member := h.silent key (fewer member)
  counted := Nat.le_trans h.counted (Nat.le_of_eq funId.symm)
  pending := h.pending
  value call done := (h.value call done).trans (congrArg some val.symm)
  initial none := val.trans (h.initial none)

theorem Heard.next (h : Heard var s) (a : SetStep ι τ) : Heard var (s.next a) := by
  cases a with
  | compare thread v =>
    show Heard var (s.enter thread v)
    unfold Setters.enter
    split
    · exact h.enter ‹_›
    · exact h
  | assign thread =>
    show Heard var (s.leave thread)
    unfold Setters.leave
    split
    · exact h
    · exact h.leave ‹_›
  | addListener => exact h.addListener
  | delListener key => exact h.fewer (List.filter_subset_self _) rfl rfl
  | clearListeners => exact h.fewer (List.nil_subset _) rfl rfl

theorem heard_foldl (var : ConfigVar τ) (steps : List (SetStep ι τ)) :
    Heard var (steps.foldl Setters.next (start var)) := by
  refine List.foldlRecOn steps Setters.next ?_ fun s h a _ => h.next a
  refine ⟨?_, ?_, Nat.le_refl _, ?_, ?_, fun _ => rfl⟩
  · intro key _ v heard
    cases heard
  · intro key _ _ _
    rfl
  · intro thread call v waiting
    cases waiting
  · intro call done
    cases done

/-- When the call that assigned last is the one that notified last, every listener that was notified
has the value of the variable, and a listener from the start has it in any case. -/
theorem listeners_converge (var : ConfigVar τ) (steps : List (SetStep ι τ)) {t : Setters ι τ}
    (ran : steps.foldl Setters.next (start var) = t) (inOrder : t.assigned = t.newest) :
    (∀ key ∈ t.var.cbs, ∀ v, t.heard key = some v → v = t.var.val) ∧
    ∀ key ∈ t.var.cbs, key ∈ var.cbs → (t.heard key).getD var.val = t.var.val := by
  have h : Heard var t := ran ▸ heard_foldl var steps
  have last : ∀ v, t.notified.getLast? = some v → v = t.var.val := by
    intro v latest
    have some_ : t.notified ≠ [] := by
      intro none
      rw [none] at latest
      cases latest
    rw [newest, if_neg some_] at inOrder
    have value := h.value _ inOrder
    rw [← List.getLast?_eq_getElem?, latest] at value
    exact Option.some.inj value
  refine ⟨fun key member v heard => last v (h.last key member v heard), ?_⟩
  intro key member known
  cases heard : t.heard key with
  | some v => exact last v (h.last key member v heard)
  | none =>
    have none := h.silent key member known heard
    rw [newest, if_pos none] at inOrder
    exact (h.initial inOrder).symm

/-- Two calls that assign in the order in which they notified. -/
theorem listeners_converge_two :
    ∃ t : Setters (Fin 2) Nat,
      [.compare 0 1, .compare 1 2, .assign 0, .assign 1].foldl Setters.next
        (start ⟨0, [1], 1, by decide⟩) = t ∧
      t.heard 1 = some 2 ∧ ∀ key ∈ t.var.cbs, ∀ v, t.heard key = some v → v = t.var.val :=
  ⟨_, rfl, by decide, (listeners_converge _ _ rfl (by decide)).1⟩

/-- Both calls have returned, the listener was last told 2, and the variable is 1. -/
theorem listener_diverges :
    ∃ t : Setters (Fin 2) Nat,
      [.compare 0 1, .compare 1 2, .assign 1, .assign 0].foldl Setters.next
        (start ⟨0, [1], 1, by decide⟩) = t ∧
      (∀ thread, t.pending thread = none) ∧ 1 ∈ t.var.cbs ∧ t.heard 1 = some 2 ∧ t.var.val = 1 :=
  ⟨_, rfl, by decide, by decide, by decide, by decide⟩

end Setters

end ConfigVar

end Cool
