import Cool.Foundation.Run
import Cool.IOManager.Registry

/-!
# The pending event count

Every state of a run is the layout of a registry, so `m_pendingEventCount` is the number of
registered events at all times. `idle` triggers what the kernel reports, not what is registered:
its assertion fails exactly when a report names a registered event together with one that is not.
-/

namespace Cool.IOManager

open Foundation Foundation.Slots

variable {κ φ : Type}

/-- What an operation that returns does to the registry, by what it returns. -/
inductive Registry.Moves (r : Registry κ φ) : Op κ φ → Bool → Registry κ φ → Prop where
  | refused {op : Op κ φ} : Moves r op false r
  | put {fd : Fd} {event : Event} {scheduler : SchedulerId} {fiber : φ} {cb : Option κ}
      (real : event ≠ .none) (free : r.slots (fd, event) = none) :
      Moves r (.addEvent fd event scheduler fiber cb) true (r.put fd event real (handler scheduler fiber cb))
  | drop {fd : Fd} {event : Event} (filled : (r.slots (fd, event)).isSome = true) :
      Moves r (.delEvent fd event) true (r.drop fd event)
  | push {fd : Fd} {event : Event} : Moves r (.cancelEvent fd event) true (r.push fd event)
  | pushAll {fd : Fd} : Moves r (.cancekAll fd) true ((r.push fd .read).push fd .write)
  | pushSome {fd : Fd} {mask : Mask} (read write : Bool) :
      Moves r (.deliver fd mask) true ((r.pushIf fd .read read).pushIf fd .write write)

namespace Registry

variable {r : Registry κ φ} {op : Op κ φ} {ok done : Bool} {s : IOManager κ φ}

theorem exec_moves (returned : r.concrete.exec ok op = .ok (done, s)) :
    ∃ r' : Registry κ φ, s = r'.concrete ∧ r.Moves op done r' := by
  cases op with
  | addEvent fd event scheduler fiber cb =>
    rw [exec, addEvent_concrete] at returned
    split at returned
    · cases returned
    · rename_i free
      split at returned
      · cases returned
        exact ⟨r, rfl, .refused⟩
      · split at returned
        · rename_i real
          cases returned
          exact ⟨_, rfl, .put real (by simpa using free)⟩
        · cases returned
  | delEvent fd event =>
    rw [exec, delEvent_concrete] at returned
    split at returned
    · rename_i both
      cases returned
      exact ⟨_, rfl, .drop (Bool.and_eq_true_iff.mp both).1⟩
    · cases returned
      exact ⟨r, rfl, .refused⟩
  | cancelEvent fd event =>
    rw [exec, cancelEvent_concrete] at returned
    split at returned
    · cases returned
      exact ⟨_, rfl, .push⟩
    · cases returned
      exact ⟨r, rfl, .refused⟩
  | cancekAll fd =>
    rw [exec, cancekAll_concrete] at returned
    split at returned
    · cases returned
      exact ⟨_, rfl, .pushAll⟩
    · cases returned
      exact ⟨r, rfl, .refused⟩
  | deliver fd mask =>
    rw [exec, deliver_concrete] at returned
    split at returned
    · cases returned
      exact ⟨r, rfl, .pushSome false false⟩
    · split at returned
      · cases returned
        exact ⟨_, rfl, .pushSome _ _⟩
      · cases returned

end Registry

/-- A mask reported by the kernel names only registered events, or none of them. -/
def Fits (s : IOManager κ φ) (ok : Bool) : Op κ φ → Prop
  | .deliver fd mask =>
    ok = true → (s.contexts fd).events &&& realEvents mask = 0 ∨
      realEvents mask &&& ~~~(s.contexts fd).events = 0
  | _ => True

def Step (s : IOManager κ φ) (a : Op κ φ × Bool) (s' : IOManager κ φ) : Prop :=
  ∃ done, s.exec a.2 a.1 = .ok (done, s')

/-- The pairs of a descriptor and an event set in its context. -/
def registered (s : IOManager κ φ) : Finset (Fd × Event) :=
  Finset.univ.filter fun p => has (s.contexts p.1).events p.2 = true

theorem run_concrete {s : IOManager κ φ} {ops : List (Op κ φ × Bool)} (run : Run Step new ops s) :
    ∃ r : Registry κ φ, s = r.concrete := by
  refine run.invariant (I := fun s => ∃ r : Registry κ φ, s = r.concrete) ?_
    ⟨.empty, Registry.concrete_empty.symm⟩
  intro s a s' ⟨r, layout⟩ ⟨done, returned⟩
  subst layout
  obtain ⟨r', layout', _⟩ := Registry.exec_moves returned
  exact ⟨r', layout'⟩

theorem exec_triggerEvent (r : Registry κ φ) (ok : Bool) (op : Op κ φ) :
    r.concrete.exec ok op = .error .triggerEvent ↔ ¬ Fits r.concrete ok op := by
  cases op with
  | deliver fd mask =>
    have fits : Fits r.concrete ok (.deliver fd mask) ↔ ok = true → r.events fd &&& realEvents mask = 0 ∨
        realEvents mask &&& ~~~r.events fd = 0 := Iff.rfl
    rw [fits, exec, Registry.deliver_concrete]
    split
    · rename_i quiet
      refine ⟨nofun, fun never => absurd (fun yes => .inl (quiet.resolve_right ?_)) never⟩
      simp [yes]
    · rename_i busy
      obtain ⟨touched, yes⟩ := not_or.mp busy
      split
      · rename_i inside
        exact ⟨nofun, fun never => absurd (fun _ => .inr inside) never⟩
      · rename_i outside
        exact ⟨fun _ fits => (fits (by simpa using yes)).elim touched outside, fun _ => rfl⟩
  | addEvent fd event scheduler fiber cb =>
    rw [exec, Registry.addEvent_concrete]
    refine ⟨fun failed => ?_, fun never => absurd trivial never⟩
    split at failed
    · cases failed
    · split at failed
      · cases failed
      · split at failed <;> cases failed
  | delEvent fd event =>
    rw [exec, Registry.delEvent_concrete]
    refine ⟨fun failed => ?_, fun never => absurd trivial never⟩
    split at failed <;> cases failed
  | cancelEvent fd event =>
    rw [exec, Registry.cancelEvent_concrete]
    refine ⟨fun failed => ?_, fun never => absurd trivial never⟩
    split at failed <;> cases failed
  | cancekAll fd =>
    rw [exec, Registry.cancekAll_concrete]
    refine ⟨fun failed => ?_, fun never => absurd trivial never⟩
    split at failed <;> cases failed

/-- In every run `m_pendingEventCount` is the number of registered events, and the next operation
fails the assertion of `triggerEvent` exactly when it is the delivery of a mask that names a
registered event and one that is not. -/
theorem pending_counted {s : IOManager κ φ} {ops : List (Op κ φ × Bool)} (run : Run Step new ops s) :
    s.pendingEventCount = (registered s).card ∧
    ∀ ok op, s.exec ok op = .error .triggerEvent ↔ ¬ Fits s ok op := by
  obtain ⟨r, rfl⟩ := run_concrete run
  refine ⟨?_, exec_triggerEvent r⟩
  have filled : registered r.concrete = Finset.univ.filter fun p => (r.slots p).isSome = true := by
    refine Finset.filter_congr fun p _ => ?_
    rw [← r.has_events p.1 p.2]
    rfl
  rw [filled, ← card_contents]
  rfl

/-- A reader on descriptor 3. -/
def oneReader : List (Op Nat Nat × Bool) := [] ++ [(.addEvent 3 .read 0 7 none, true)]

theorem pending_counted_oneReader :
    ∃ s, Run Step (new : IOManager Nat Nat) oneReader s ∧ s.pendingEventCount = (registered s).card ∧
      (∀ ok op, s.exec ok op = .error .triggerEvent ↔ ¬ Fits s ok op) := by
  have run : Run Step (new : IOManager Nat Nat) oneReader _ := Run.nil.snoc ⟨true, rfl⟩
  exact ⟨_, run, (pending_counted run).1, (pending_counted run).2⟩

/-- A hang-up is reported as readable and writable; there is no writer to trigger. -/
theorem deliver_hangUp :
    ∃ s, Run Step (new : IOManager Nat Nat) oneReader s ∧
      s.exec true (.deliver 3 epollHup) = .error .triggerEvent :=
  ⟨_, Run.nil.snoc ⟨true, rfl⟩, rfl⟩

end Cool.IOManager
