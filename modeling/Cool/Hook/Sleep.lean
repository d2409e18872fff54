import Cool.Timer.Deadlines

/-!
# Sleeping long enough

The three sleeping functions turn their arguments into a period in milliseconds, each in a type of its own: `sleep`
multiplies an `unsigned int`, `usleep` divides, and `nanosleep` divides and stores the sum in an `int`.
-/

namespace Cool.HookFun

inductive Sleep where
  | sleep (seconds : UInt32)
  | usleep (usec : UInt32)
  /-- The members of the `timespec`. -/
  | nanosleep (sec nsec : Int)
  deriving DecidableEq, Repr

namespace Sleep

def Valid : Sleep → Prop
  | .nanosleep sec nsec => 0 ≤ sec ∧ 0 ≤ nsec ∧ nsec < 1000000000
  | _ => True

def nanoseconds : Sleep → Nat
  | .sleep seconds => seconds.toNat * 1000000000
  | .usleep usec => usec.toNat * 1000
  | .nanosleep sec nsec => (sec * 1000000000 + nsec).toNat

/-- The period that is passed to `addTimer`. -/
def period : Sleep → UInt64
  | .sleep seconds => (seconds * 1000).toUInt64
  | .usleep usec => (usec / 1000).toUInt64
  | .nanosleep sec nsec =>
    .ofBitVec ((BitVec.ofInt 32 (sec * 1000 + (nsec.tdiv 1000).tdiv 1000)).signExtend 64)

variable {κ : Type}

/-- The hooked function arms a timer for the period and returns 0. -/
def Arms (T : Thread κ) (w : World κ) (period : UInt64) : Sleep → Prop
  | .sleep seconds => HookFun.sleep T seconds w = .ok (0, T.sleep period w)
  | .usleep usec => HookFun.usleep T usec w = .ok (0, T.sleep period w)
  | .nanosleep sec nsec => ∀ req rem fuel, T.system.timespec w.sys req = some (sec, nsec) →
      HookFun.nanosleep T req rem (fuel + 1) w = .ok (0, T.sleep period w)

/-- No time is lost on the way to `addTimer`. A negative `int` becomes a period of almost 2^64. -/
def Lossless : Sleep → Prop
  | .sleep seconds => seconds.toNat * 1000 < 2 ^ 32
  | .usleep usec => 1000 ∣ usec.toNat
  | .nanosleep sec nsec =>
    sec * 1000 + nsec / 1000000 < 2 ^ 31 ∧ 1000000 ∣ nsec ∨
      2 ^ 31 ≤ (sec * 1000 + nsec / 1000000) % 2 ^ 32 ∧
        sec * 1000000000 + nsec ≤ (2 ^ 64 - 2 ^ 32 + (sec * 1000 + nsec / 1000000) % 2 ^ 32) * 1000000

/-- The period is at least the duration. -/
def Covers (c : Sleep) : Prop := c.nanoseconds ≤ c.period.toNat * 1000000

/-- A fiber that is resumed at time `next` has slept long enough, as the clock of the timers counts: both times are
what `GetCurrentMS` returns, in whole milliseconds, so up to one of them may be missing from the time itself. -/
def NotEarly (c : Sleep) (now next : Nat) : Prop := now * 1000000 + c.nanoseconds ≤ next * 1000000

variable {c : Sleep} {T : Thread κ} {w : World κ}

theorem arms (enabled : T.hookEnable = true) (w : World κ) (c : Sleep) : c.Arms T w c.period := by
  cases c with
  | sleep seconds => simp [Arms, HookFun.sleep, enabled, sleepFor, period]
  | usleep usec => simp [Arms, HookFun.usleep, enabled, sleepFor, period]
  | nanosleep sec nsec =>
    intro req rem fuel stored
    rw [HookFun.nanosleep, enabled]
    simp only [Bool.not_true, Bool.false_eq_true, if_false]
    show StateT.bind (load T.system.timespec req) _ w = _
    simp [StateT.bind, bind, Except.bind, load, stored, sleepFor, period]

theorem toNat_signExtend (x : Int) :
    ((BitVec.ofInt 32 x).signExtend 64).toNat =
      if x % 2 ^ 32 < 2 ^ 31 then (x % 2 ^ 32).toNat else 2 ^ 64 - 2 ^ 32 + (x % 2 ^ 32).toNat := by
  rw [BitVec.signExtend, BitVec.toNat_ofInt, BitVec.toInt_ofInt, Int.bmod]
  split <;> split <;> omega

theorem period_nanosleep {sec nsec : Int} (valid : (Sleep.nanosleep sec nsec).Valid) :
    (Sleep.nanosleep sec nsec).period.toNat =
      if (sec * 1000 + nsec / 1000000) % 2 ^ 32 < 2 ^ 31 then ((sec * 1000 + nsec / 1000000) % 2 ^ 32).toNat
      else 2 ^ 64 - 2 ^ 32 + ((sec * 1000 + nsec / 1000000) % 2 ^ 32).toNat := by
  obtain ⟨_, low, _⟩ := valid
  have halves : (nsec.tdiv 1000).tdiv 1000 = nsec / 1000000 := by
    rw [Int.tdiv_eq_ediv_of_nonneg low, Int.tdiv_eq_ediv_of_nonneg (by omega)]
    omega
  rw [period, halves]
  exact toNat_signExtend _

theorem covers_iff (valid : c.Valid) : c.Covers ↔ c.Lossless := by
  cases c with
  | sleep seconds =>
    have wrapped : (Sleep.sleep seconds).period.toNat = seconds.toNat * 1000 % 2 ^ 32 := by
      simp [period]
    rw [Covers, wrapped, nanoseconds, Lossless]
    omega
  | usleep usec =>
    have divided : (Sleep.usleep usec).period.toNat = usec.toNat / 1000 := by
      simp [period]
    rw [Covers, divided, nanoseconds, Lossless]
    omega
  | nanosleep sec nsec =>
    rw [Covers, period_nanosleep valid, nanoseconds, Lossless]
    obtain ⟨sec_pos, low, high⟩ := valid
    split <;> omega

theorem notEarly_iff {now next : Nat} (clock : now < 2 ^ 64) (armed : TimerManager.Armed now c.period.toNat next) :
    c.NotEarly now next ↔ c.Covers ∧ now + c.period.toNat < 2 ^ 64 := by
  have small : c.period.toNat < 2 ^ 64 := c.period.toNat_lt
  rw [armed.next_eq, NotEarly, Covers, TimerManager.u64]
  omega

/-- The period that a hooked function arms its timer for is at least the duration exactly when no time is lost, and
the fiber is not resumed early exactly when the deadline does not wrap either. -/
theorem sleeps_iff (valid : c.Valid) :
    (∀ (κ : Type) (T : Thread κ) w, T.hookEnable = true → c.Arms T w c.period) ∧ (c.Covers ↔ c.Lossless) ∧
      ∀ now next, now < 2 ^ 64 → TimerManager.Armed now c.period.toNat next →
        (c.NotEarly now next ↔ c.Lossless ∧ now + c.period.toNat < 2 ^ 64) := by
  refine ⟨fun κ T w enabled => arms enabled w c, covers_iff valid, fun now next clock armed => ?_⟩
  rw [← covers_iff valid]
  exact notEarly_iff clock armed

theorem sleeps_iff_minute : (Sleep.sleep 60).Covers := by
  obtain ⟨_, covers, _⟩ := sleeps_iff (c := .sleep 60) trivial
  exact covers.mpr (by unfold Lossless; decide)

/-- A microsecond and a nanosecond are no time at all, and 4294968 seconds are 704 milliseconds. -/
theorem sleeps_lose :
    (HookFun.usleep (TimerManager.sleepThread 0 0) 1 ⟨0, .new⟩).map (fun done => done.2.sys) = .ok 0 ∧
      (HookFun.nanosleep (TimerManager.sleepThread 0 1) 0 0 1 ⟨0, .new⟩).map (fun done => done.2.sys) = .ok 0 ∧
      (HookFun.sleep (TimerManager.sleepThread 0 0) 4294968 ⟨0, .new⟩).map (fun done => done.2.sys) = .ok 704 ∧
      ¬ (Sleep.usleep 1).Covers ∧ ¬ (Sleep.nanosleep 0 1).Covers ∧ ¬ (Sleep.sleep 4294968).Covers := by
  refine ⟨by decide +kernel, by decide +kernel, by decide +kernel, ?_, ?_, ?_⟩ <;>
    (unfold Covers; decide +kernel)

end Sleep

end Cool.HookFun
