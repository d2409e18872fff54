import Cool.Hook.System
import Mathlib.Logic.Function.Basic

/-!
# Descriptor contexts

`FdCtx` and `FdManager`. A context is an object that several holders share, so the manager's table and
its callers hold references; the contexts themselves stand in a list that only grows. `m_datas` has 64
slots from its constructor on, and nothing resizes it: an access outside is undefined behaviour.
-/

namespace Cool

inductive FdFault where
  /-- `m_datas[fd]` outside `m_datas`. -/
  | outOfBounds
  /-- A read through a pointer to no memory. -/
  | segfault
  /-- `va_arg` of another type than the argument has, or of none. -/
  | vararg
  deriving DecidableEq, Repr

/-- `SO_RCVTIMEO`; every other option name stands for the send timeout. -/
inductive Timeo where
  | rcvtimeo | sndtimeo
  deriving DecidableEq, Repr

structure FdCtx where
  isInit : Bool
  isSocket : Bool
  isClosed : Bool
  sysNonblock : Bool
  userNonblock : Bool
  fd : Int
  recvTimeout : UInt64
  sendTimeout : UInt64
  deriving DecidableEq, Repr

namespace FdCtx

variable {κ : Type}

def setUserNonBlock (v : Bool) (ctx : FdCtx) : FdCtx := { ctx with userNonblock := v }

def setTimeout (type : Timeo) (v : UInt64) (ctx : FdCtx) : FdCtx :=
  match type with
  | .rcvtimeo => { ctx with recvTimeout := v }
  | .sndtimeo => { ctx with sendTimeout := v }

def getTimeout (ctx : FdCtx) (type : Timeo) : UInt64 :=
  match type with
  | .rcvtimeo => ctx.recvTimeout
  | .sndtimeo => ctx.sendTimeout

/-- `fcntl_f(m_fd, F_GETFL, 0)`, and `F_SETFL` with the flag unless it is there. -/
def forceNonblock (S : System κ) (fd : Int) (k : κ) : κ :=
  let (flags, k) := S.origin (.fcntl fd .getfl (.int 0)) k
  if hasNonblock (BitVec.ofInt 32 flags) then k
  else (S.origin (.fcntl fd .setfl (.int (withNonblock (BitVec.ofInt 32 flags)))) k).2

def init (S : System κ) (ctx : FdCtx) (k : κ) : FdCtx × κ :=
  if ctx.isInit then (ctx, k)
  else
    let isInit := (S.fstat k ctx.fd).isSome
    let isSocket := S.fstat k ctx.fd = some true
    let k := if isSocket then forceNonblock S ctx.fd k else k
    ({ ctx with isInit := isInit, isSocket := isSocket, isClosed := false, sysNonblock := isSocket,
                userNonblock := false, recvTimeout := -1, sendTimeout := -1 }, k)

def new (S : System κ) (fd : Int) (k : κ) : FdCtx × κ :=
  init S ⟨false, false, false, false, false, fd, -1, -1⟩ k

end FdCtx

/-- A reference to a context: its place among all contexts made so far. -/
abbrev FdCtx.Ref := Nat

structure FdManager where
  datas : Fin 64 → Option FdCtx.Ref
  contexts : List FdCtx
  held : ∀ slot ref, datas slot = some ref → ref < contexts.length

/-- The process: its system and the singleton `FdMgr`. -/
structure World (κ : Type) where
  sys : κ
  fds : FdManager

namespace FdManager

variable {κ : Type} {m : FdManager} {fd : Int} {ref : FdCtx.Ref}

def new : FdManager where
  datas := fun _ => none
  contexts := []
  held := by
    intro slot ref there
    cases there

/-- `m_datas[fd]` is a slot of the table. -/
def slot (fd : Int) : Except FdFault (Fin 64) :=
  if inside : 0 ≤ fd ∧ fd < 64 then .ok ⟨fd.toNat, by omega⟩ else .error .outOfBounds

/-- The read-locked half of `get`: what it returns there, or nothing when it goes on to the second lock. -/
def find (m : FdManager) (fd : Int) (autoCreate : Bool) : Except FdFault (Option (Option FdCtx.Ref)) :=
  if 64 ≤ fd then
    .ok (if autoCreate then none else some none)
  else
    match slot fd with
    | .error fault => .error fault
    | .ok place => .ok (if (m.datas place).isSome || !autoCreate then some (m.datas place) else none)

/-- `m_datas[fd] = ctx` for a context that is not yet among the others. -/
def install (m : FdManager) (place : Fin 64) (ctx : FdCtx) : FdManager where
  datas := Function.update m.datas place (some m.contexts.length)
  contexts := m.contexts ++ [ctx]
  held := by
    intro other ref there
    rw [List.length_append]
    by_cases same : other = place
    · subst same
      rw [Function.update_self] at there
      have last := Option.some.inj there
      simp [← last]
    · rw [Function.update_of_ne same] at there
      exact Nat.lt_of_lt_of_le (m.held other ref there) (Nat.le_add_right ..)

def create (S : System κ) (fd : Int) (w : World κ) : Except FdFault (FdCtx.Ref × World κ) :=
  let (ctx, sys) := FdCtx.new S fd w.sys
  match slot fd with
  | .error fault => .error fault
  | .ok place => .ok (w.fds.contexts.length, ⟨sys, w.fds.install place ctx⟩)

def get (S : System κ) (fd : Int) (autoCreate : Bool) (w : World κ) :
    Except FdFault (Option FdCtx.Ref × World κ) :=
  match w.fds.find fd autoCreate with
  | .error fault => .error fault
  | .ok (some found) => .ok (found, w)
  | .ok none =>
    match create S fd w with
    | .error fault => .error fault
    | .ok (ref, w) => .ok (some ref, w)

def del (fd : Int) (m : FdManager) : Except FdFault FdManager :=
  if 64 ≤ fd then .ok m
  else
    match slot fd with
    | .error fault => .error fault
    | .ok place => .ok
      { m with
        datas := Function.update m.datas place none
        held := by
          intro other ref there
          by_cases same : other = place
          · subst same
            rw [Function.update_self] at there
            cases there
          · rw [Function.update_of_ne same] at there
            exact m.held other ref there }

/-- `get(fd)`, and the context it returns as it is now. -/
def peek (m : FdManager) (fd : Int) : Except FdFault (Option (FdCtx.Ref × FdCtx)) :=
  match m.find fd false with
  | .error fault => .error fault
  | .ok found => .ok (found.join.bind fun ref => m.contexts[ref]?.map fun ctx => (ref, ctx))

/-- A setter called through a reference. -/
def alter (m : FdManager) (ref : FdCtx.Ref) (change : FdCtx → FdCtx) : FdManager where
  datas := m.datas
  contexts := m.contexts.modify ref change
  held := by
    intro place ref there
    rw [List.length_modify]
    exact m.held place ref there

/-! ## What the halves do -/

theorem slot_ok {place : Fin 64} (found : slot fd = .ok place) : 0 ≤ fd ∧ fd < 64 := by
  unfold slot at found
  split at found
  · assumption
  · cases found

theorem slot_of_inside (low : 0 ≤ fd) (high : fd < 64) : ∃ place, slot fd = .ok place :=
  ⟨⟨fd.toNat, by omega⟩, dif_pos ⟨low, high⟩⟩

variable {place : Fin 64}

theorem find_of_slot (found : slot fd = .ok place) (autoCreate : Bool) :
    m.find fd autoCreate =
      .ok (if (m.datas place).isSome || !autoCreate then some (m.datas place) else none) := by
  have inside := slot_ok found
  rw [find, if_neg (by omega), found]

/-- With `auto_create` the first half returns what the slot holds, if it holds anything. -/
theorem find_create (found : slot fd = .ok place) : m.find fd true = .ok ((m.datas place).map some) := by
  rw [find_of_slot found]
  cases m.datas place <;> rfl

theorem find_plain (found : slot fd = .ok place) : m.find fd false = .ok (some (m.datas place)) := by
  rw [find_of_slot found]
  simp

theorem find_true_some {found : Option FdCtx.Ref} (ran : m.find fd true = .ok (some found)) : ∃ ref, found = some ref := by
  unfold find at ran
  split at ran
  · cases ran
  · split at ran
    · cases ran
    · rename_i place _
      cases there : m.datas place with
      | none => simp [there] at ran
      | some ref => exact ⟨ref, by simpa [there] using ran.symm⟩

theorem nonneg_of_find {autoCreate : Bool} {found : Option (Option FdCtx.Ref)}
    (ran : m.find fd autoCreate = .ok found) : 0 ≤ fd := by
  by_contra negative
  have outside : slot fd = .error .outOfBounds := dif_neg (by omega)
  rw [find, if_neg (by omega), outside] at ran
  cases ran

theorem create_of_slot (S : System κ) (found : slot fd = .ok place) (w : World κ) :
    create S fd w = .ok (w.fds.contexts.length,
      ⟨(FdCtx.new S fd w.sys).2, w.fds.install place (FdCtx.new S fd w.sys).1⟩) := by
  rw [create, found]

theorem peek_some {ctx : FdCtx} (found : m.peek fd = .ok (some (ref, ctx))) : m.contexts[ref]? = some ctx := by
  unfold peek at found
  split at found
  · cases found
  · obtain ⟨other, _, there⟩ := Option.bind_eq_some_iff.mp (Except.ok.inj found)
    obtain ⟨ctx', at_, same⟩ := Option.map_eq_some_iff.mp there
    cases same
    exact at_

theorem alter_same {ctx : FdCtx} {change : FdCtx → FdCtx} (there : m.contexts[ref]? = some ctx)
    (same : change ctx = ctx) : m.alter ref change = m := by
  have contexts : m.contexts.modify ref change = m.contexts := by
    apply List.ext_getElem?
    intro i
    rw [List.getElem?_modify]
    by_cases here : ref = i
    · subst here
      rw [there]
      simp [same]
    · simp [here]
  cases m
  simp only [alter, mk.injEq, true_and]
  exact contexts

theorem peek_of_slot (found : slot fd = .ok place) :
    m.peek fd = .ok ((m.datas place).bind fun ref => m.contexts[ref]?.map fun ctx => (ref, ctx)) := by
  rw [peek, find_plain found]
  rfl

theorem peek_none_iff (found : slot fd = .ok place) : m.peek fd = .ok none ↔ m.datas place = none := by
  rw [peek_of_slot found]
  cases there : m.datas place with
  | none => simp
  | some ref =>
    have inside := m.held place ref there
    simp [inside]

theorem slot_of_peek {ctx : FdCtx} (there : m.peek fd = .ok (some (ref, ctx))) :
    ∃ place, slot fd = .ok place ∧ m.datas place = some ref ∧ m.contexts[ref]? = some ctx := by
  have at_ := peek_some there
  cases found : slot fd with
  | error fault =>
    by_cases beyond : 64 ≤ fd
    · rw [peek, find, if_pos beyond] at there
      cases there
    · rw [peek, find, if_neg beyond, found] at there
      cases there
  | ok place =>
    rw [peek_of_slot found] at there
    obtain ⟨other, held, same⟩ := Option.bind_eq_some_iff.mp (Except.ok.inj there)
    obtain ⟨_, _, pair⟩ := Option.map_eq_some_iff.mp same
    cases pair
    exact ⟨place, rfl, held, at_⟩

theorem peek_alter {ctx : FdCtx} (there : m.peek fd = .ok (some (ref, ctx))) (change : FdCtx → FdCtx) :
    (m.alter ref change).peek fd = .ok (some (ref, change ctx)) := by
  obtain ⟨place, found, held, at_⟩ := slot_of_peek there
  have changed : (m.contexts.modify ref change)[ref]? = some (change ctx) := by
    simp [at_]
  rw [peek_of_slot found]
  simp only [alter, held, Option.bind_some, changed, Option.map_some]

theorem peek_install (found : slot fd = .ok place) (ctx : FdCtx) :
    (m.install place ctx).peek fd = .ok (some (m.contexts.length, ctx)) := by
  have last : (m.contexts ++ [ctx])[m.contexts.length]? = some ctx := List.getElem?_concat_length
  rw [peek_of_slot found]
  simp only [install, Function.update_self, Option.bind_some, last, Option.map_some]

theorem create_ok {S : System κ} {w w' : World κ} (made : create S fd w = .ok (ref, w')) :
    ∃ place, slot fd = .ok place ∧
      w' = ⟨(FdCtx.new S fd w.sys).2, w.fds.install place (FdCtx.new S fd w.sys).1⟩ := by
  cases found : slot fd with
  | error fault => rw [create, found] at made; cases made
  | ok place =>
    rw [create_of_slot S found] at made
    cases made
    exact ⟨place, rfl, rfl⟩

theorem install_self (m : FdManager) (place : Fin 64) (ctx : FdCtx) :
    (m.install place ctx).datas place = some m.contexts.length :=
  Function.update_self ..

theorem length_install (m : FdManager) (place : Fin 64) (ctx : FdCtx) :
    (m.install place ctx).contexts.length = m.contexts.length + 1 :=
  List.length_append

end FdManager

end Cool
