import Cool.FdManager.Race
import Cool.Foundation.Trace

/-!
# The table as a map

One thread calls `get` and `del` for any descriptors. `get` compares a descriptor with the size of the table from above
only, and goes on to create a context behind its end, so the calls are those of a map on all descriptors as long as
none is negative and none is created from 64 on.
-/

namespace Cool.FdManager

open Foundation

inductive Access where
  | get (fd : Int) (autoCreate : Bool)
  | del (fd : Int)
  deriving DecidableEq, Repr

/-- A map on all descriptors, and the number of contexts made so far. -/
structure Total where
  ctx : Int → Option FdCtx.Ref
  made : Nat

/-- A context is made for a descriptor that has none, unless it is negative. -/
def Total.exec (t : Total) : Access → Option FdCtx.Ref × Total
  | .get fd autoCreate =>
    match t.ctx fd with
    | some ref => (some ref, t)
    | none =>
      if autoCreate = true ∧ 0 ≤ fd then (some t.made, ⟨Function.update t.ctx fd (some t.made), t.made + 1⟩)
      else (none, t)
  | .del fd => (none, { t with ctx := Function.update t.ctx fd none })

/-- `m_datas`, with nothing outside of it. -/
def total (m : FdManager) : Total where
  ctx fd :=
    match slot fd with
    | .ok place => m.datas place
    | .error _ => none
  made := m.contexts.length

variable {κ : Type}

/-- What a call returns; `del` returns nothing. -/
def access (S : System κ) (w : World κ) : Access → Except FdFault (Option FdCtx.Ref × World κ)
  | .get fd autoCreate => get S fd autoCreate w
  | .del fd =>
    match del fd w.fds with
    | .error fault => .error fault
    | .ok fds => .ok (none, { w with fds := fds })

def Access.InBounds : Access → Prop
  | .get fd autoCreate => 0 ≤ fd ∧ (autoCreate = true → fd < 64)
  | .del fd => 0 ≤ fd

instance : (a : Access) → Decidable a.InBounds
  | .get fd autoCreate => inferInstanceAs (Decidable (0 ≤ fd ∧ (autoCreate = true → fd < 64)))
  | .del fd => inferInstanceAs (Decidable (0 ≤ fd))

variable {m : FdManager} {w : World κ} {fd : Int} {place : Fin 64}

theorem slot_eq (found : slot fd = .ok place) : 0 ≤ fd ∧ fd < 64 ∧ fd.toNat = place := by
  have inside := slot_ok found
  rw [slot, dif_pos inside] at found
  exact ⟨inside.1, inside.2, congrArg Fin.val (Except.ok.inj found)⟩

theorem total_ctx (found : slot fd = .ok place) : m.total.ctx fd = m.datas place := by
  simp only [total, found]

theorem total_outside (outside : ¬ (0 ≤ fd ∧ fd < 64)) : m.total.ctx fd = none := by
  have missing : slot fd = .error .outOfBounds := dif_neg outside
  simp only [total, missing]

theorem slot_inj {fd' : Int} (found : slot fd = .ok place) (found' : slot fd' = .ok place) : fd = fd' := by
  obtain ⟨_, _, same⟩ := slot_eq found
  obtain ⟨_, _, same'⟩ := slot_eq found'
  omega

/-- A slot that changes is a descriptor that changes. -/
theorem total_update (found : slot fd = .ok place) {m' : FdManager} {value : Option FdCtx.Ref}
    (datas : m'.datas = Function.update m.datas place value) :
    m'.total.ctx = Function.update m.total.ctx fd value := by
  funext other
  by_cases here : other = fd
  · rw [here, Function.update_self, total_ctx found, datas, Function.update_self]
  · rw [Function.update_of_ne here]
    by_cases inside : 0 ≤ other ∧ other < 64
    · obtain ⟨place', found'⟩ := slot_of_inside inside.1 inside.2
      have apart : place' ≠ place := by
        rintro rfl
        exact here (slot_inj found' found)
      rw [total_ctx found', total_ctx found', datas, Function.update_of_ne apart]
    · rw [total_outside inside, total_outside inside]

theorem del_of_slot (found : slot fd = .ok place) :
    ∃ m', del fd m = .ok m' ∧ m'.datas = Function.update m.datas place none ∧ m'.contexts = m.contexts := by
  have inside := slot_ok found
  simp [del, if_neg (by omega : ¬ 64 ≤ fd), found]

theorem get_agrees (S : System κ) (autoCreate : Bool) (low : 0 ≤ fd) (high : autoCreate = true → fd < 64) :
    Agrees (access S) Total.exec (fun w => total w.fds) w (.get fd autoCreate) := by
  by_cases beyond : 64 ≤ fd
  · have plain : autoCreate = false := by
      cases autoCreate with
      | false => rfl
      | true => exact absurd (high rfl) (by omega)
    subst plain
    refine ⟨none, w, ?_, ?_⟩
    · simp only [access, get, find, if_pos beyond, Bool.false_eq_true, if_false]
    · simp [Total.exec, total_outside (m := w.fds) (by omega : ¬ (0 ≤ fd ∧ fd < 64))]
  · obtain ⟨place, found⟩ := slot_of_inside low (by omega)
    have ctx := total_ctx (m := w.fds) found
    cases held : w.fds.datas place with
    | some ref =>
      refine ⟨some ref, w, ?_, ?_⟩
      · simp only [access, get, find_of_slot found, held, Option.isSome_some, Bool.true_or, if_true]
      · simp [Total.exec, ctx, held]
    | none =>
      cases autoCreate with
      | false =>
        refine ⟨none, w, ?_, ?_⟩
        · simp only [access, get, find_plain found, held]
        · simp [Total.exec, ctx, held]
      | true =>
        refine ⟨some w.fds.contexts.length, ⟨(FdCtx.new S fd w.sys).2, w.fds.install place (FdCtx.new S fd w.sys).1⟩, ?_, ?_⟩
        · simp only [access, get, find_create found, held, Option.map_none, create_of_slot S found]
        · have made : (w.fds.install place (FdCtx.new S fd w.sys).1).total.ctx = _ := total_update found rfl
          simp only [Total.exec, ctx, held, low, and_self, if_true]
          simp [total, install] at made ⊢
          exact made.symm

theorem del_agrees (S : System κ) (low : 0 ≤ fd) :
    Agrees (access S) Total.exec (fun w => total w.fds) w (.del fd) := by
  by_cases beyond : 64 ≤ fd
  · have nothing : Function.update w.fds.total.ctx fd none = w.fds.total.ctx := by
      apply Function.update_eq_self_iff.mpr
      exact (total_outside (by omega)).symm
    refine ⟨none, w, ?_, ?_⟩
    · simp only [access, del, if_pos beyond]
    · simp only [Total.exec, nothing]
  · obtain ⟨place, found⟩ := slot_of_inside low (by omega)
    obtain ⟨fds, gone, datas, contexts⟩ := del_of_slot (m := w.fds) found
    refine ⟨none, { w with fds := fds }, by simp only [access, gone], ?_⟩
    simp only [Total.exec, Prod.mk.injEq, true_and]
    rw [← total_update found datas]
    simp only [total, contexts]

theorem access_agrees (S : System κ) (w : World κ) (a : Access) :
    Agrees (access S) Total.exec (fun w => total w.fds) w a ↔ a.InBounds := by
  constructor
  · rintro ⟨b, w', called, _⟩
    cases a with
    | get fd autoCreate =>
      simp only [access, get] at called
      cases half : w.fds.find fd autoCreate with
      | error fault => simp [half] at called
      | ok found =>
        refine ⟨nonneg_of_find half, ?_⟩
        rintro rfl
        by_contra beyond
        have outside : slot fd = .error .outOfBounds := dif_neg (by omega)
        simp [find, (by omega : 64 ≤ fd), create, outside] at called
    | del fd =>
      show 0 ≤ fd
      by_contra negative
      have outside : slot fd = .error .outOfBounds := dif_neg (by omega)
      simp only [access, del, if_neg (by omega : ¬ 64 ≤ fd), outside] at called
      cases called
  · intro inside
    cases a with
    | get fd autoCreate => exact get_agrees S autoCreate inside.1 inside.2
    | del fd => exact del_agrees S inside

theorem along_inBounds (t : Total) (as : List Access) :
    Along Total.exec (fun _ => Access.InBounds) t as ↔ ∀ a ∈ as, a.InBounds := by
  induction as generalizing t with
  | nil => simp [Along]
  | cons a as ih => simp [Along, ih]

/-- From any state of the table, the calls of one thread are those of a total map exactly when no descriptor is
negative and none is created from 64 on. -/
theorem accesses_total_iff (S : System κ) (w : World κ) (as : List Access) :
    trace (access S) (fun w => total w.fds) w as = .ok (specTrace Total.exec w.fds.total as) ↔
      ∀ a ∈ as, a.InBounds := by
  rw [← along_inBounds w.fds.total as]
  exact trace_iff (I := fun _ => True) (fun w a _ => access_agrees S w a) (fun _ _ _ _ _ _ => trivial) trivial as

/-- The descriptor of a closed socket, and the first one behind the table. -/
theorem access_outOfBounds :
    access .quiet ⟨(), .new⟩ (.get (-1) false) = .error .outOfBounds ∧
      access .quiet ⟨(), .new⟩ (.get 64 true) = .error .outOfBounds ∧
      access .quiet ⟨(), .new⟩ (.del (-1)) = .error .outOfBounds :=
  ⟨rfl, rfl, rfl⟩

end Cool.FdManager
