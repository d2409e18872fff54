import Cool.Timer.History

/-!
# Earlier deadlines are announced

`getNextTimer` clears `m_tickled` and tells the caller how long to wait. From then on the first
timer that comes to the front of the set sets the flag and calls `onTimerInsertAtFront`, and no other
does. While the flag is clear, no deadline in the set lies before all of those that `getNextTimer`
saw: `refresh` and `listExpiredCb` only ever move a deadline back.
-/

namespace Cool.TimerManager

open Foundation

/-- `getNextTimer()` at time `now`: the value returned and the writes. -/
def getNextTimer (m : TimerManager) (now : Nat) : Nat × List Write :=
  (match m.timers with
    | [] => 2 ^ 64 - 1
    | first :: _ =>
      if now ≥ (key m.heap first).1 then 0 else (key m.heap first).1 - now,
    [.setTickled false])

def deadlines (m : TimerManager) : List Nat := m.timers.map fun id => (key m.heap id).1

/-- A run with its calls to `getNextTimer`: `seen` are the deadlines in the set at the last of them,
and `mark` is how long the log was then. -/
structure Watch where
  history : History
  seen : Option (List Nat)
  mark : Nat

namespace Watch

def new (start : Nat) : Watch := ⟨History.new start, none, 0⟩

/-- The calls of `onTimerInsertAtFront` since the last `getNextTimer`. -/
def fronts (w : Watch) : Nat := (w.history.log.drop w.mark).countP (·.outcome.atFront)

inductive Action where
  | call (c : Call)
  | getNextTimer
  deriving DecidableEq, Repr

def Step (w : Watch) (a : Nat × Action) (w' : Watch) : Prop :=
  match a.2 with
  | .call c => w.history.Step (a.1, c) w'.history ∧ w'.seen = w.seen ∧ w'.mark = w.mark
  | .getNextTimer => w.history.clock ≤ a.1 ∧
      w' = ⟨⟨w.history.manager.applyAll (w.history.manager.getNextTimer a.1).2, a.1, w.history.log⟩,
        some w.history.manager.deadlines, w.history.log.length⟩

end Watch

variable {m : TimerManager} {id j : TimerId} {t : Timer} {now : Nat} {c : Call} {o : Outcome}

/-! ### The flag -/

/-- Every call leaves the flag as it was or sets it, and it sets it exactly when it found it clear and
announced the front. -/
def Raises (m : TimerManager) (o : Outcome) : Prop :=
  (m.applyAll o.writes).tickled = (m.tickled || o.atFront) ∧ (o.atFront = true → m.tickled = false)

theorem tickled_applyAll {ws : List Write} (quiet : ∀ b, .setTickled b ∉ ws) :
    (m.applyAll ws).tickled = m.tickled := by
  induction ws generalizing m with
  | nil => rfl
  | cons w ws ih =>
    rw [applyAll_cons, ih fun b member => quiet b (List.mem_cons_of_mem _ member)]
    cases w with
    | setTickled b => exact absurd List.mem_cons_self (quiet b)
    | _ => rfl

theorem Raises.silent (quiet : ∀ b, .setTickled b ∉ o.writes) (silent : o.atFront = false) : Raises m o := by
  refine ⟨?_, fun announced => ?_⟩
  · rw [tickled_applyAll quiet, silent, Bool.or_false]
  · rw [silent] at announced
    cases announced

theorem addTimerLocked_raises {ws : List Write} (quiet : ∀ b, .setTickled b ∉ ws) (id : TimerId) :
    Raises m (m.addTimerLocked ws id) := by
  have same : (m.applyAll (ws ++ [.insert id])).tickled = m.tickled := tickled_applyAll (by simpa using quiet)
  unfold Raises addTimerLocked
  dsimp only
  split
  · rename_i announced
    rw [applyAll_append, announced, Bool.or_true]
    refine ⟨rfl, fun _ => ?_⟩
    rw [← same]
    simpa using (Bool.and_eq_true_iff.mp announced).2
  · rename_i silent
    rw [Bool.eq_false_iff.mpr silent, same, Bool.or_false]
    exact ⟨rfl, fun announced => by cases announced⟩

/-- A timer that was put in without an announcement, while the flag was clear, is not the first. -/
theorem addTimerLocked_behind {ws : List Write} (quiet : ∀ b, .setTickled b ∉ ws)
    (clear : m.tickled = false) (silent : (m.addTimerLocked ws id).atFront = false) :
    (m.applyAll (m.addTimerLocked ws id).writes).timers.head? ≠ some id := by
  have same : (m.applyAll (ws ++ [.insert id])).tickled = m.tickled := tickled_applyAll (by simpa using quiet)
  unfold addTimerLocked at silent ⊢
  dsimp only at silent ⊢
  rw [silent, if_neg Bool.false_ne_true]
  rw [same, clear, Bool.not_false, Bool.and_true] at silent
  exact fun first => by rw [first, beq_self_eq_true] at silent; cases silent

theorem reset_cases {ms : Nat} {fromNow : Bool} (returned : m.reset now id ms fromNow = .ok o) :
    o.writes = [] ∧ o.atFront = false ∨ ∃ ws, (∀ b, .setTickled b ∉ ws) ∧ o = m.addTimerLocked ws id := by
  unfold reset at returned
  split at returned
  · cases returned
  split at returned
  · obtain rfl := Except.ok.inj returned
    exact .inl ⟨rfl, rfl⟩
  unfold resetLocked at returned
  split at returned
  · cases returned
  split at returned
  · obtain rfl := Except.ok.inj returned
    exact .inl ⟨rfl, rfl⟩
  split at returned
  · obtain rfl := Except.ok.inj returned
    exact .inl ⟨rfl, rfl⟩
  · exact .inr ⟨_, by simp, (Except.ok.inj returned).symm⟩

theorem listExpired_quiet {addr : Nat} (returned : m.listExpiredCb now addr = .ok o) :
    (∀ b, .setTickled b ∉ o.writes) ∧ o.atFront = false := by
  have turn : ∀ b id, .setTickled b ∉ m.rearm now id := by
    intro b id
    unfold rearm
    split
    · simp
    · split <;> simp
  unfold listExpiredCb at returned
  split at returned
  · obtain rfl := Except.ok.inj returned
    simp
  unfold listExpiredLocked at returned
  dsimp only at returned
  split at returned
  · obtain rfl := Except.ok.inj returned
    simp [turn]
  split at returned
  · cases returned
  split at returned
  · obtain rfl := Except.ok.inj returned
    simp
  · obtain rfl := Except.ok.inj returned
    simp [turn]

theorem call_raises (returned : m.call now c = .ok o) : Raises m o := by
  cases c with
  | addTimer addr ms cb recurring =>
    obtain rfl := Except.ok.inj returned
    exact addTimerLocked_raises (by simp) _
  | cancel id =>
    rw [call, cancel] at returned
    split at returned
    · cases returned
    split at returned
    · split at returned
      · cases returned
      · obtain rfl := Except.ok.inj returned
        exact .silent (by simp) rfl
    · obtain rfl := Except.ok.inj returned
      exact .silent (by simp) rfl
  | refresh id =>
    rw [call, refresh] at returned
    split at returned
    · cases returned
    split at returned
    · obtain rfl := Except.ok.inj returned
      exact .silent (by simp) rfl
    split at returned
    · obtain rfl := Except.ok.inj returned
      exact .silent (by simp) rfl
    · obtain rfl := Except.ok.inj returned
      exact .silent (by simp) rfl
  | reset id ms fromNow =>
    rcases reset_cases returned with ⟨none_written, silent⟩ | ⟨ws, quiet, rfl⟩
    · exact .silent (by simp [none_written]) silent
    · exact addTimerLocked_raises quiet id
  | listExpiredCb addr =>
    obtain ⟨quiet, silent⟩ := listExpired_quiet returned
    exact .silent quiet silent

/-! ### Deadlines only move back -/

/-- The timer that a call puts in through `addTimer(val, lock)`. -/
def inserted (m : TimerManager) : Call → Option TimerId
  | .addTimer _ _ _ _ => some m.heap.length
  | .reset id _ _ => some id
  | _ => none

theorem call_behind (returned : m.call now c = .ok o) (inserts : m.inserted c = some id)
    (clear : m.tickled = false) (silent : o.atFront = false) :
    o.writes = [] ∨ (m.applyAll o.writes).timers.head? ≠ some id := by
  cases c with
  | addTimer addr ms cb recurring =>
    obtain rfl := Except.ok.inj returned
    obtain rfl := Option.some.inj inserts
    exact .inr (addTimerLocked_behind (by simp) clear silent)
  | reset id' ms fromNow =>
    obtain rfl := Option.some.inj inserts
    rcases reset_cases returned with ⟨none_written, -⟩ | ⟨ws, quiet, rfl⟩
    · exact .inl none_written
    · exact .inr (addTimerLocked_behind quiet clear silent)
  | _ => cases inserts

theorem Effect.members (effect : Effect m now c o) (member : j ∈ (m.applyAll o.writes).timers) :
    j ∈ m.timers ∨ m.inserted c = some j := by
  cases effect with
  | added leaves =>
    rcases (leaves.members j).mp member with rfl | old
    · exact .inr rfl
    · exact .inl old
  | refused => exact .inl member
  | cancelled _ _ leaves => exact .inl ((leaves.members j).mp member).2
  | refreshed _ _ leaves => exact .inl ((leaves.members j).mp member)
  | moved _ _ leaves => exact .inl ((leaves.members j).mp member)
  | early leaves => exact .inl ((leaves.members j).mp member)
  | expired leaves => exact .inl (mem_of_expires ((leaves.members j).mp member))

/-- In an ordered set a timer that is not the first has one with no later deadline before it. -/
theorem Good.before (good : Good m) (member : j ∈ m.timers) (behind : m.timers.head? ≠ some j) :
    ∃ i ∈ m.timers, i ≠ j ∧ (key m.heap i).1 ≤ (key m.heap j).1 := by
  have ordered := good.ordered
  cases set : m.timers with
  | nil => rw [set] at member; cases member
  | cons first rest =>
    rw [set] at member behind ordered
    have other : first ≠ j := fun same => behind (by rw [List.head?_cons, same])
    have later : j ∈ rest := (List.mem_cons.mp member).resolve_left other.symm
    have below := lessKey_iff.mp ((List.pairwise_cons.mp ordered).1 j later)
    exact ⟨first, List.mem_cons_self, other, by omega⟩

theorem Timed.deadline {h : History} (timed : Timed h) (member : id ∈ h.manager.timers) :
    ∃ r, (armings h.log)[id]? = some r ∧ (key h.manager.heap id).1 = r.deadline := by
  obtain ⟨t, found⟩ := timed.good.known id member
  obtain ⟨r, arming⟩ := timed.same.arming found
  refine ⟨r, arming, ?_⟩
  rw [key, found]
  exact (timed.same.agree id t r found arming).2.2 member

/-- No timer was armed after the last call. -/
def Started (h : History) : Prop := ∀ r ∈ armings h.log, r.start ≤ h.clock

theorem record_start {rs : List Arming} {e : Entry} (past : ∀ r ∈ rs, r.start ≤ e.now) :
    ∀ r ∈ record rs e, r.start ≤ e.now := by
  have modified : ∀ (id : TimerId) (f : Arming → Arming), (∀ r, r.start ≤ e.now → (f r).start ≤ e.now) →
      ∀ r ∈ rs.modify id f, r.start ≤ e.now := by
    intro id f keeps r member
    obtain ⟨j, found⟩ := List.mem_iff_getElem?.mp member
    rw [getElem?_modify_ite] at found
    split at found
    · obtain ⟨old, there, rfl⟩ := Option.map_eq_some_iff.mp found
      exact keeps old (past old (List.mem_of_getElem? there))
    · exact past r (List.mem_of_getElem? found)
  intro r member
  unfold record at member
  split at member
  · rcases List.mem_append.mp member with old | new
    · exact past r old
    · rw [List.mem_singleton.mp new]
  · exact past r member
  · split at member
    · exact modified _ _ (fun _ _ => Nat.le_refl _) r member
    · exact past r member
  · split at member
    · refine modified _ _ (fun old before => ?_) r member
      dsimp only
      split
      · exact Nat.le_refl _
      · exact before
    · exact past r member
  · obtain ⟨j, bound, rfl⟩ := List.mem_mapIdx.mp member
    split
    · exact Nat.le_refl _
    · exact past _ (List.getElem_mem _)

theorem Started.step {h h' : History} {a : Nat × Call} (started : Started h) (step : h.Step a h') :
    Started h' := by
  obtain ⟨later, _, ⟨o, _, rfl⟩, _⟩ := step
  unfold Started
  rw [armings_snoc]
  exact record_start fun r member => (started r member).trans later

/-- A timer that stays in the set and is not reset keeps its deadline or gets a later one. -/
theorem Timed.not_lowered {h : History} (timed : Timed h)
    (timed' : Timed ⟨h.manager.applyAll o.writes, now, h.log ++ [⟨now, c, o⟩]⟩)
    (started : Started h) (later : h.clock ≤ now) (member : id ∈ h.manager.timers)
    (member' : id ∈ (h.manager.applyAll o.writes).timers) (steady : h.manager.inserted c ≠ some id) :
    (key h.manager.heap id).1 ≤ (key (h.manager.applyAll o.writes).heap id).1 := by
  obtain ⟨r, arming, same⟩ := timed.deadline member
  obtain ⟨r', arming', same'⟩ := timed'.deadline member'
  have before : r.start ≤ now := (started r (List.mem_of_getElem? arming)).trans later
  have quiet : ¬ Entry.Resets ⟨now, c, o⟩ id := by
    rintro ⟨_, ms, fromNow, reset⟩
    exact steady (by rw [show c = _ from reset]; rfl)
  obtain ⟨r'', kept, period, _, start⟩ := record_keeps arming quiet (Nat.le_refl _) before
  rw [armings_snoc, kept] at arming'
  obtain rfl := Option.some.inj arming'
  dsimp only at same'
  rw [same, same', Arming.deadline, Arming.deadline, period]
  omega

/-! ### Every run -/

/-- Every deadline in the set has one of `seen` before it. -/
def Covered (m : TimerManager) (seen : List Nat) : Prop :=
  ∀ id ∈ m.timers, ∃ d ∈ seen, d ≤ (key m.heap id).1

theorem covered_call {h : History} {seen : List Nat} (timed : Timed h) (started : Started h)
    (later : h.clock ≤ now) (allowed : Allowed h.manager c) (returned : h.manager.call now c = .ok o)
    (timed' : Timed ⟨h.manager.applyAll o.writes, now, h.log ++ [⟨now, c, o⟩]⟩)
    (clear : h.manager.tickled = false) (silent : o.atFront = false) (covered : Covered h.manager seen) :
    Covered (h.manager.applyAll o.writes) seen := by
  obtain ⟨o', returned', skips | effect⟩ := call_effect timed.good now allowed
  · obtain rfl := Except.ok.inj (returned'.symm.trans returned)
    rw [skips.1]
    exact covered
  obtain rfl := Except.ok.inj (returned'.symm.trans returned)
  have kept : ∀ j ∈ (h.manager.applyAll o'.writes).timers, h.manager.inserted c ≠ some j →
      ∃ d ∈ seen, d ≤ (key (h.manager.applyAll o'.writes).heap j).1 := by
    intro j member other
    have old := (effect.members member).resolve_right other
    obtain ⟨d, among, before⟩ := covered j old
    exact ⟨d, among, before.trans (timed.not_lowered timed' started later old member other)⟩
  intro j member
  by_cases new : h.manager.inserted c = some j
  · rcases call_behind returned new clear silent with nothing | behind
    · rw [nothing] at member ⊢
      exact covered j member
    · -- the first timer of the set is another one
      obtain ⟨i, first, other, before⟩ := timed'.good.before member behind
      obtain ⟨d, among, early⟩ := kept i first fun same =>
        other (Option.some.inj (same.symm.trans new))
      exact ⟨d, among, early.trans before⟩
  · exact kept j member new

/-- The flag counts the announcements, and while it is clear the deadlines seen cover the set. -/
structure Announced (w : Watch) : Prop where
  timed : Timed w.history
  started : Started w.history
  mark_le : w.mark ≤ w.history.log.length
  count : w.fronts = if w.history.manager.tickled then 1 else 0
  covered : ∀ seen, w.seen = some seen → w.history.manager.tickled = false → Covered w.history.manager seen

theorem Announced.new (start : Nat) : Announced (Watch.new start) where
  timed := new_timed start
  started := by simp [Started, Watch.new, History.new, armings]
  mark_le := Nat.le_refl _
  count := rfl
  covered := by simp [Watch.new]

theorem Announced.call {w w' : Watch} (announced : Announced w)
    (step : w.history.Step (now, c) w'.history) (seen_eq : w'.seen = w.seen) (mark_eq : w'.mark = w.mark) :
    Announced w' := by
  have timed' := announced.timed.step step
  have started' := announced.started.step step
  obtain ⟨later, allowed, ⟨o, returned, same⟩, _⟩ := step
  dsimp only at later allowed returned same
  obtain ⟨raised, found_clear⟩ := call_raises returned
  have mark_le := announced.mark_le
  have count : w'.fronts = w.fronts + if o.atFront then 1 else 0 := by
    rw [Watch.fronts, Watch.fronts, same, mark_eq]
    dsimp only
    rw [List.drop_append_of_le_length mark_le, List.countP_append, List.countP_singleton]
  refine ⟨timed', started', ?_, ?_, fun seen known clear => ?_⟩
  · rw [same, mark_eq]
    dsimp only
    rw [List.length_append]
    omega
  · rw [count, announced.count, same]
    dsimp only
    rw [raised]
    cases front : o.atFront with
    | true =>
      rw [found_clear front]
      rfl
    | false =>
      rw [Bool.or_false]
      rfl
  · rw [same] at clear timed' ⊢
    dsimp only at clear ⊢
    rw [raised, Bool.or_eq_false_iff] at clear
    exact covered_call announced.timed announced.started later allowed returned timed' clear.1 clear.2
      (announced.covered seen (seen_eq ▸ known) clear.1)

theorem Timed.untickled {h : History} (timed : Timed h) (later : h.clock ≤ now) :
    Timed ⟨h.manager.apply (.setTickled false), now, h.log⟩ where
  good := timed.good.congr rfl rfl
  steady := timed.steady.trans later
  bounded := timed.bounded
  same := ⟨timed.same.length, timed.same.agree⟩
  ended := timed.ended
  past e member := (timed.past e member).trans later
  times := timed.times
  due := timed.due

theorem Announced.step {w w' : Watch} {a : Nat × Watch.Action} (announced : Announced w) (step : w.Step a w') :
    Announced w' := by
  obtain ⟨now, action⟩ := a
  cases action with
  | call c =>
    obtain ⟨step, seen_eq, mark_eq⟩ := step
    exact announced.call step seen_eq mark_eq
  | getNextTimer =>
    obtain ⟨later, rfl⟩ := step
    refine ⟨announced.timed.untickled later, ?_, Nat.le_refl _, ?_, ?_⟩
    · exact fun r member => (announced.started r member).trans later
    · simp [Watch.fronts, getNextTimer, applyAll, apply]
    · intro seen known _ id member
      obtain rfl := Option.some.inj known
      exact ⟨_, List.mem_map_of_mem member, Nat.le_refl _⟩

/-- In a run with a clock that does not go back and deadlines within range, a timer whose deadline
lies before all deadlines that the last `getNextTimer` saw has been announced since, and at most one
announcement is made between two calls of `getNextTimer`. -/
theorem earlier_deadline_announced {start : Nat} {actions : List (Nat × Watch.Action)} {w : Watch}
    (run : Run Watch.Step (Watch.new start) actions w) :
    w.fronts ≤ 1 ∧ ∀ seen, w.seen = some seen → ∀ id ∈ w.history.manager.timers,
      (∀ d ∈ seen, (key w.history.manager.heap id).1 < d) → 1 ≤ w.fronts := by
  have announced : Announced w := run.invariant (fun _ _ _ announced step => announced.step step) (.new start)
  refine ⟨?_, fun seen known id member earlier => ?_⟩
  · rw [announced.count]
    split <;> omega
  · rw [announced.count]
    cases clear : w.history.manager.tickled with
    | true => exact Nat.le_refl _
    | false =>
      obtain ⟨d, among, before⟩ := announced.covered seen known clear id member
      have := earlier d among
      omega

/-- A timer is reset to an earlier deadline after `getNextTimer`. -/
theorem earlier_deadline_announced_reset :
    ∃ w, Run Watch.Step (Watch.new 0)
      [(0, .call (.addTimer 64 10 (some 1) false)), (2, .getNextTimer), (3, .call (.reset 0 5 false))] w ∧
      w.seen = some [10] ∧ w.history.manager.deadlines = [5] ∧ w.fronts ≤ 1 ∧ 1 ≤ w.fronts := by
  have run : Run Watch.Step (Watch.new 0) [(0, .call (.addTimer 64 10 (some 1) false))]
      ⟨⟨_, 0, _⟩, none, 0⟩ :=
    Run.nil.snoc ⟨⟨by decide, by decide, ⟨_, rfl, rfl⟩, by decide⟩, rfl, rfl⟩
  have run := run.snoc (a := (2, Watch.Action.getNextTimer)) ⟨by decide, rfl⟩
  have run := run.snoc (a := (3, Watch.Action.call (.reset 0 5 false))) (u := ⟨⟨_, 3, _⟩, _, _⟩)
    ⟨⟨by decide, by decide, ⟨_, rfl, rfl⟩, by decide⟩, rfl, rfl⟩
  obtain ⟨once, announced⟩ := earlier_deadline_announced run
  exact ⟨_, run, rfl, by decide, once, announced [10] rfl 0 (by decide) (by decide)⟩

end Cool.TimerManager
