import Cool.Config.Registry

/-!
# `from_string`

`from_string` of one variable, with conversions and listeners that may throw and with the `operator==` of any element
type. It has one `return`, at its end, so it returns `false` also where it has set the value.
-/

namespace Cool.ConfigVar

/-- `std` is what `catch (std::exception &)` takes. -/
inductive Thrown where
  | std | other
  deriving DecidableEq, Repr

variable {τ : Type}

/-- What the listener with a key throws when it is called with an old and a new value. -/
abbrev Listeners (τ : Type) := Nat → τ → τ → Option Thrown

/-- The loop over `m_cbs`: the calls it makes, and what the last one throws. -/
def notify (cb : Listeners τ) (old v : τ) : List Nat → List (Notice τ) × Option Thrown
  | [] => ([], none)
  | key :: rest =>
    match cb key old v with
    | some thrown => ([(key, old, v)], some thrown)
    | none => ((key, old, v) :: (notify cb old v rest).1, (notify cb old v rest).2)

/-- What `from_string` returns, unless an exception leaves it, with the variable and the calls of listeners. -/
structure Reply (τ : Type) where
  returned : Option Bool
  var : ConfigVar τ
  notices : List (Notice τ)

section

variable [BEq τ]

/-- `set_value`, and what is thrown out of it. -/
def trySetValue (cb : Listeners τ) (var : ConfigVar τ) (v : τ) : ConfigVar τ × List (Notice τ) × Option Thrown :=
  if v == var.val then (var, [], none)
  else
    match notify cb var.val v var.cbs with
    | (notices, some thrown) => (var, notices, some thrown)
    | (notices, none) => (var.assign v, notices, none)

/-- `from_string`, with texts `δ`. -/
def fromString {δ : Type} (convert : δ → Except Thrown τ) (cb : Listeners τ) (var : ConfigVar τ) (text : δ) : Reply τ :=
  match convert text with
  | .error .std => ⟨some false, var, []⟩
  | .error .other => ⟨none, var, []⟩
  | .ok v =>
    match trySetValue cb var v with
    | (var, notices, some .other) => ⟨none, var, notices⟩
    | (var, notices, _) => ⟨some false, var, notices⟩

/-- The value and the calls are those of what was converted. A value that is `==` to the old one is not stored. -/
structure Stores (converted : Except Thrown τ) (var : ConfigVar τ) (reply : Reply τ) : Prop where
  same : ∀ v, converted = .ok v → (v == var.val) = true → reply.var = var ∧ reply.notices = []
  new : ∀ v, converted = .ok v → (v == var.val) = false →
    reply.var = var.assign v ∧ reply.notices = var.cbs.map fun key => (key, var.val, v)
  failed : ∀ e, converted = .error e → reply.var = var ∧ reply.notices = []

/-- What is expected of `from_string`. -/
structure Reports (converted : Except Thrown τ) (var : ConfigVar τ) (reply : Reply τ) : Prop
    extends Stores converted var reply where
  returned : reply.returned = some true ↔ ∃ v, converted = .ok v
  refused : ∀ e, converted = .error e → reply.returned = some false

end

variable {cb : Listeners τ} {var : ConfigVar τ} {text : Text} {convert : Text → Except Thrown τ}

theorem notify_quiet (quiet : ∀ key old v, cb key old v = none) (old v : τ) (keys : List Nat) :
    notify cb old v keys = (keys.map fun key => (key, old, v), none) := by
  induction keys with
  | nil => rfl
  | cons key rest ih => simp [notify, quiet, ih]

/-- Without exceptions this is the `set_value` of two sections. -/
theorem trySetValue_quiet [DecidableEq τ] (quiet : ∀ key old v, cb key old v = none) (var : ConfigVar τ) (v : τ) :
    trySetValue cb var v = ((var.setValue v).1, (var.setValue v).2, none) := by
  by_cases same : v = var.val
  · simp [trySetValue, setValue, compare, same]
  · simp [trySetValue, setValue, compare, same, notify_quiet quiet]

section

variable [BEq τ]

theorem fromString_returned (convert : Text → Except Thrown τ) (cb : Listeners τ) (var : ConfigVar τ) (text : Text) :
    (fromString convert cb var text).returned ≠ some true := by
  unfold fromString
  split
  · simp
  · simp
  · split <;> simp

theorem stores_quiet (quiet : ∀ key old v, cb key old v = none) :
    Stores (convert text) var (fromString convert cb var text) := by
  refine ⟨?_, ?_, ?_⟩
  · intro v converts same
    simp [fromString, converts, trySetValue, same]
  · intro v converts new
    simp [fromString, converts, trySetValue, new, notify_quiet quiet]
  · intro e throws
    cases e <;> simp [fromString, throws]

theorem reports_std (throws : convert text = .error .std) :
    Reports (convert text) var (fromString convert cb var text) := by
  have reply : fromString convert cb var text = ⟨some false, var, []⟩ := by simp [fromString, throws]
  rw [reply, throws]
  exact ⟨⟨by simp, by simp, by simp⟩, by simp, by simp⟩

/-- `from_string` does what is expected exactly when the conversion throws a `std::exception`. As long as no listener
throws, only what it returns is wrong. -/
theorem fromString_iff (convert : Text → Except Thrown τ) (cb : Listeners τ) (var : ConfigVar τ) (text : Text) :
    (Reports (convert text) var (fromString convert cb var text) ↔ convert text = .error .std) ∧
      ((∀ key old v, cb key old v = none) → Stores (convert text) var (fromString convert cb var text)) := by
  refine ⟨⟨fun reports => ?_, reports_std⟩, stores_quiet⟩
  cases converted : convert text with
  | ok v => exact absurd (reports.returned.mpr ⟨v, converted⟩) (fromString_returned convert cb var text)
  | error e =>
    cases e with
    | std => rfl
    | other =>
      have refused := reports.refused .other converted
      simp [fromString, converted] at refused

end

/-- A variable with the value 0 and one listener is set to 8, and `false` is returned. -/
theorem fromString_false :
    (fromString (fun _ => .ok 8) (fun _ _ _ => none) ⟨0, [1], 1, by decide⟩ ['8']).returned = some false ∧
      (fromString (fun _ => .ok 8) (fun _ _ _ => none) ⟨0, [1], 1, by decide⟩ ['8']).var.val = 8 ∧
      (fromString (fun _ => .ok 8) (fun _ _ _ => none) ⟨0, [1], 1, by decide⟩ ['8']).notices = [(1, 0, 8)] := by
  decide

end Cool.ConfigVar
