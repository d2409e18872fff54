import Cool.Timer.Calls

/-!
# When callbacks are emitted

The log of a run keeps every call with its time and its outcome. `armings` reads off the log when
each timer was last armed and with what period, and the emissions of `listExpiredCb` are judged
against it: no callback before its deadline, none after a cancel, one for a one-shot timer, and a
period between two of a recurring timer. The clock does not go back and no deadline leaves the
range of `uint64_t`.
-/

namespace Cool.TimerManager

open Foundation

structure Entry where
  now : Nat
  call : Call
  outcome : Outcome
  deriving DecidableEq, Repr

def Entry.Emits (e : Entry) (id : TimerId) : Prop := id ∈ e.outcome.emitted.map Prod.fst

instance (e : Entry) (id : TimerId) : Decidable (e.Emits id) := inferInstanceAs (Decidable (id ∈ _))

/-- A successful `Timer::reset` of the timer. -/
def Entry.Resets (e : Entry) (id : TimerId) : Prop :=
  e.outcome.ret = true ∧ ∃ ms fromNow, e.call = .reset id ms fromNow

/-- The last arming of a timer: when it was made, and the period the timer had then. -/
structure Arming where
  start : Nat
  period : Nat
  recurring : Bool
  deriving DecidableEq, Repr

def Arming.deadline (r : Arming) : Nat := r.start + r.period

def record (rs : List Arming) (e : Entry) : List Arming :=
  match e.call with
  | .addTimer _ ms _ recurring => rs ++ [⟨e.now, ms, recurring⟩]
  | .cancel _ => rs
  | .refresh id => if e.outcome.ret then rs.modify id ({ · with start := e.now }) else rs
  | .reset id ms fromNow =>
    -- with `from_now` false the timer keeps the time of its previous arming
    if e.outcome.ret then
      rs.modify id fun r => { r with start := if fromNow then e.now else r.start, period := ms }
    else rs
  | .listExpiredCb _ =>
    rs.mapIdx fun id r => if e.Emits id ∧ r.recurring = true then { r with start := e.now } else r

/-- The last arming of every timer made so far. -/
def armings (log : List Entry) : List Arming := log.foldl record []

theorem armings_snoc (log : List Entry) (e : Entry) : armings (log ++ [e]) = record (armings log) e := by
  simp [armings]

structure History where
  manager : TimerManager
  clock : Nat
  log : List Entry

def History.new (start : Nat) : History := ⟨TimerManager.new start, start, []⟩

/-- A call at a time not before the last one, after which no timer has a deadline above `2^64 - 1`. -/
def History.Step (h : History) (a : Nat × Call) (h' : History) : Prop :=
  h.clock ≤ a.1 ∧ Allowed h.manager a.2 ∧
  (∃ o, h.manager.call a.1 a.2 = .ok o ∧
    h' = ⟨h.manager.applyAll o.writes, a.1, h.log ++ [⟨a.1, a.2, o⟩]⟩) ∧
  ∀ r ∈ armings h'.log, r.deadline < 2 ^ 64

variable {m : TimerManager} {id j : TimerId} {t : Timer} {now : Nat} {c : Call} {o : Outcome}

/-! ### Deadlines -/

theorem u64_of_lt {n : Nat} (small : n < 2 ^ 64) : u64 n = n := Nat.mod_eq_of_lt small

theorem u64Sub_add {start period : Nat} (small : start + period < 2 ^ 64) :
    u64Sub (start + period) period = start := by
  unfold u64Sub u64
  omega

/-- The armings agree with the timers: periods and kinds of all of them, and the deadlines of the
timers in the set. -/
structure Matches (m : TimerManager) (rs : List Arming) : Prop where
  length : rs.length = m.heap.length
  agree : ∀ id t r, m.heap[id]? = some t → rs[id]? = some r →
    r.period = t.ms ∧ r.recurring = t.recurring ∧ (id ∈ m.timers → t.next = r.deadline)

theorem Matches.arming {rs : List Arming} (same : Matches m rs) (found : m.heap[id]? = some t) :
    ∃ r, rs[id]? = some r := by
  have bound := (List.getElem?_eq_some_iff.mp found).1
  rw [← same.length] at bound
  exact ⟨_, List.getElem?_eq_getElem bound⟩

/-- A call that rewrites one timer and the arming of that timer. -/
theorem Matches.modify {rs : List Arming} {f : Timer → Timer} {g : Arming → Arming}
    (same : Matches m rs) (leaves : Leaves m now o (m.heap.modify id f) (· ∈ m.timers))
    (here : ∀ t r, m.heap[id]? = some t → rs[id]? = some r →
      (g r).period = (f t).ms ∧ (g r).recurring = (f t).recurring ∧ (f t).next = (g r).deadline) :
    Matches (m.applyAll o.writes) (rs.modify id g) where
  length := by
    rw [leaves.heap_eq, List.length_modify, List.length_modify, same.length]
  agree := by
    intro j t r timer arming
    rw [leaves.heap_eq, getElem?_modify_ite] at timer
    rw [getElem?_modify_ite] at arming
    rw [leaves.members]
    by_cases there : id = j
    · subst there
      rw [if_pos rfl] at timer
      rw [if_pos rfl] at arming
      obtain ⟨t, old, rfl⟩ := Option.map_eq_some_iff.mp timer
      obtain ⟨r, old', rfl⟩ := Option.map_eq_some_iff.mp arming
      obtain ⟨period, kind, deadline⟩ := here t r old old'
      exact ⟨period, kind, fun _ => deadline⟩
    · rw [if_neg there] at timer
      rw [if_neg there] at arming
      exact same.agree j t r timer arming

theorem deadline_lt {rs : List Arming} {r : Arming} (bounded : ∀ r ∈ rs, r.deadline < 2 ^ 64)
    (id : TimerId) (arming : rs[id]? = some r) : r.start + r.period < 2 ^ 64 :=
  bounded r (List.mem_of_getElem? arming)

/-- A timer that expires is in the set and due, as long as the clock does not go back. -/
theorem due_of_expires {addr : Nat} (good : Good m) (steady : m.previousTime ≤ now)
    (expires : id ∈ m.expireds now addr) :
    id ∈ m.timers ∧ ∃ t, m.heap[id]? = some t ∧ t.next ≤ now := by
  have forward : m.rollover now = false := by
    unfold rollover
    simp [Nat.not_lt.mpr steady]
  obtain ⟨member, due⟩ := (mem_expireds good.toSound forward).mp expires
  obtain ⟨t, found⟩ := good.known id member
  rw [key, found] at due
  exact ⟨member, t, found, due⟩

theorem Matches.added {rs : List Arming} {addr ms : Nat} {cb : Option Callback} {recurring : Bool}
    (same : Matches m rs)
    (leaves : Leaves m now o (m.heap ++ [⟨recurring, ms, u64 (now + ms), cb, addr⟩])
      fun j => j = m.heap.length ∨ j ∈ m.timers)
    (small : now + ms < 2 ^ 64) :
    Matches (m.applyAll o.writes) (rs ++ [⟨now, ms, recurring⟩]) where
  length := by simp [leaves.heap_eq, same.length]
  agree := by
    intro j t r timer arming
    rw [leaves.heap_eq] at timer
    rw [leaves.members]
    by_cases old : j < m.heap.length
    · rw [List.getElem?_append_left old] at timer
      rw [List.getElem?_append_left (same.length ▸ old)] at arming
      obtain ⟨period, kind, deadline⟩ := same.agree j t r timer arming
      exact ⟨period, kind, fun member => deadline (member.resolve_left (Nat.ne_of_lt old))⟩
    · have last : j = m.heap.length := by
        have bound := (List.getElem?_eq_some_iff.mp timer).1
        rw [List.length_append, List.length_singleton] at bound
        exact Nat.le_antisymm (Nat.le_of_lt_succ bound) (Nat.le_of_not_lt old)
      subst last
      rw [List.getElem?_append_right (Nat.le_refl _), Nat.sub_self] at timer
      rw [List.getElem?_append_right (by rw [same.length]), same.length, Nat.sub_self] at arming
      obtain rfl := Option.some.inj timer
      obtain rfl := Option.some.inj arming
      exact ⟨rfl, rfl, fun _ => u64_of_lt small⟩

theorem Matches.expired {rs : List Arming} {addr : Nat} (same : Matches m rs) (good : Good m)
    (leaves : Leaves m now o
      (m.heap.mapIdx fun j t => if j ∈ m.expireds now addr then rearmed now t else t)
      fun j => j ∈ m.unexpired now addr ∨
        j ∈ m.expireds now addr ∧ ∃ t, m.heap[j]? = some t ∧ t.recurring = true)
    (bounded : ∀ r ∈ rs.mapIdx fun id r =>
      if id ∈ m.expireds now addr ∧ r.recurring = true then { r with start := now } else r,
      r.deadline < 2 ^ 64) :
    Matches (m.applyAll o.writes) (rs.mapIdx fun id r =>
      if id ∈ m.expireds now addr ∧ r.recurring = true then { r with start := now } else r) where
  length := by simp [leaves.heap_eq, same.length]
  agree := by
    intro j t' r' timer arming
    have small := deadline_lt bounded j arming
    rw [leaves.heap_eq, List.getElem?_mapIdx] at timer
    rw [List.getElem?_mapIdx] at arming
    obtain ⟨t, old, rfl⟩ := Option.map_eq_some_iff.mp timer
    obtain ⟨r, old', rfl⟩ := Option.map_eq_some_iff.mp arming
    obtain ⟨period, kind, deadline⟩ := same.agree j t r old old'
    rw [leaves.members]
    by_cases expires : j ∈ m.expireds now addr
    · by_cases again : t.recurring = true
      · rw [if_pos ⟨expires, kind.trans again⟩] at small ⊢
        rw [if_pos expires, rearmed, if_pos again]
        refine ⟨period, kind, fun _ => ?_⟩
        rw [Arming.deadline, period]
        exact u64_of_lt (by rwa [period] at small)
      · rw [if_neg fun both => again (kind ▸ both.2), if_pos expires, rearmed, if_neg again]
        exact ⟨period, kind, fun back => absurd (good.recurring_of_back expires old back) again⟩
    · rw [if_neg fun both => expires both.1, if_neg expires]
      exact ⟨period, kind, fun member => deadline (mem_of_expires member)⟩

/-- What a call does to the timers, `record` does to the armings. -/
theorem Effect.matches {rs : List Arming} (effect : Effect m now c o) (good : Good m)
    (same : Matches m rs) (bounded : ∀ r ∈ rs, r.deadline < 2 ^ 64)
    (bounded' : ∀ r ∈ record rs ⟨now, c, o⟩, r.deadline < 2 ^ 64) :
    Matches (m.applyAll o.writes) (record rs ⟨now, c, o⟩) := by
  cases effect with
  | @added addr ms cb recurring _ leaves _ =>
    exact same.added leaves (bounded' ⟨now, ms, recurring⟩ (by simp [record]))
  | @refused _ id t on found gone =>
    have quiet : record rs ⟨now, c, { ret := false }⟩ = rs := by
      rcases on with rfl | rfl | ⟨ms, fromNow, rfl⟩ <;> rfl
    rw [quiet]
    exact same
  | cancelled found present leaves silent =>
    refine ⟨by rw [leaves.heap_eq, List.length_modify]; exact same.length, fun j t r timer arming => ?_⟩
    rw [leaves.heap_eq, getElem?_modify_ite] at timer
    rw [leaves.members]
    split at timer
    · obtain ⟨t, old, rfl⟩ := Option.map_eq_some_iff.mp timer
      obtain ⟨period, kind, deadline⟩ := same.agree j t r old arming
      exact ⟨period, kind, fun member => deadline member.2⟩
    · obtain ⟨period, kind, deadline⟩ := same.agree j t r timer arming
      exact ⟨period, kind, fun member => deadline member.2⟩
  | @refreshed id t _ found present leaves returned silent =>
    have recorded : record rs ⟨now, .refresh id, o⟩ = rs.modify id ({ · with start := now }) := by
      simp [record, returned]
    rw [recorded] at bounded' ⊢
    refine same.modify leaves fun t' r timer arming => ?_
    obtain rfl := Option.some.inj (found.symm.trans timer)
    obtain ⟨period, kind, _⟩ := same.agree id t r found arming
    refine ⟨period, kind, ?_⟩
    rw [Arming.deadline, period]
    refine u64_of_lt ?_
    have small := deadline_lt bounded' id (by rw [getElem?_modify_ite, if_pos rfl, arming]; rfl)
    rwa [period] at small
  | @moved id t ms fromNow _ found present leaves returned silent =>
    have recorded : record rs ⟨now, .reset id ms fromNow, o⟩ =
        rs.modify id fun r => { r with start := if fromNow then now else r.start, period := ms } := by
      simp [record, returned]
    rw [recorded] at bounded' ⊢
    refine same.modify leaves fun t' r timer arming => ?_
    obtain rfl := Option.some.inj (found.symm.trans timer)
    obtain ⟨period, kind, deadline⟩ := same.agree id t r found arming
    refine ⟨rfl, kind, ?_⟩
    have small := deadline_lt bounded' id (by rw [getElem?_modify_ite, if_pos rfl, arming]; rfl)
    -- the subtraction of `reset` recovers the time of the previous arming
    have start : u64Sub t.next t.ms = r.start := by
      rw [deadline (good.live id t found present), Arming.deadline, ← period]
      exact u64Sub_add (deadline_lt bounded id arming)
    rw [start]
    exact u64_of_lt small
  | @early addr _ leaves silent =>
    have quiet : record rs ⟨now, .listExpiredCb addr, o⟩ = rs := by
      refine List.ext_getElem? fun j => ?_
      simp [record, Entry.Emits, silent]
    rw [quiet]
    refine ⟨by rw [leaves.heap_eq, same.length], fun j t r timer arming => ?_⟩
    rw [leaves.heap_eq] at timer
    rw [leaves.members]
    exact same.agree j t r timer arming
  | @expired addr _ leaves _ emitted =>
    have emits : ∀ j, Entry.Emits ⟨now, .listExpiredCb addr, o⟩ j ↔ j ∈ m.expireds now addr := by
      intro j
      simp [Entry.Emits, emitted]
    have recorded : record rs ⟨now, .listExpiredCb addr, o⟩ = rs.mapIdx fun id r =>
        if id ∈ m.expireds now addr ∧ r.recurring = true then { r with start := now } else r := by
      simp only [record, emits]
    rw [recorded] at bounded' ⊢
    exact same.expired good leaves bounded'

/-! ### Timers that are over -/

/-- A timer out of the set and without a callback: no call brings it back. -/
def Retired (m : TimerManager) (id : TimerId) : Prop :=
  ∃ t, m.heap[id]? = some t ∧ t.cb = none ∧ id ∉ m.timers

/-- What no call does to a timer there is: change its kind, give it a callback, or put it in the
set. -/
theorem Effect.keeps (effect : Effect m now c o) (found : m.heap[id]? = some t) :
    ∃ t', (m.applyAll o.writes).heap[id]? = some t' ∧ t'.recurring = t.recurring ∧
      (t.cb = none → t'.cb = none) ∧ (id ∈ (m.applyAll o.writes).timers → id ∈ m.timers) := by
  have modified : ∀ {j : TimerId} {f : Timer → Timer} {member : TimerId → Prop},
      Leaves m now o (m.heap.modify j f) member → (∀ t, (f t).recurring = t.recurring) →
      (∀ t, t.cb = none → (f t).cb = none) → (member id → id ∈ m.timers) →
      ∃ t', (m.applyAll o.writes).heap[id]? = some t' ∧ t'.recurring = t.recurring ∧
        (t.cb = none → t'.cb = none) ∧ (id ∈ (m.applyAll o.writes).timers → id ∈ m.timers) := by
    intro j f member leaves kind gone inside
    rw [leaves.heap_eq, getElem?_modify_ite, leaves.members, found]
    split
    · exact ⟨f t, rfl, kind t, gone t, inside⟩
    · exact ⟨t, rfl, rfl, fun none => none, inside⟩
  cases effect with
  | refused => exact ⟨t, found, rfl, fun none => none, fun member => member⟩
  | cancelled _ _ leaves =>
    exact modified leaves (fun _ => rfl) (fun _ _ => rfl) fun member => member.2
  | refreshed _ _ leaves =>
    exact modified leaves (fun _ => rfl) (fun _ none => none) fun member => member
  | moved _ _ leaves =>
    exact modified leaves (fun _ => rfl) (fun _ none => none) fun member => member
  | added leaves =>
    have bound := (List.getElem?_eq_some_iff.mp found).1
    refine ⟨t, ?_, rfl, fun none => none, fun member => ?_⟩
    · rw [leaves.heap_eq, List.getElem?_append_left bound, found]
    · exact ((leaves.members id).mp member).resolve_left (Nat.ne_of_lt bound)
  | early leaves =>
    exact ⟨t, leaves.heap_eq ▸ found, rfl, fun none => none, fun member => (leaves.members id).mp member⟩
  | @expired addr _ leaves =>
    rw [leaves.heap_eq, List.getElem?_mapIdx, leaves.members, found]
    refine ⟨_, rfl, ?_, fun gone => ?_, mem_of_expires⟩
    · split
      · exact rearmed_recurring now t
      · rfl
    · split
      · exact rearmed_cb now gone
      · exact gone

/-- A successful cancel, or the emission of a one-shot timer, was the last of a timer. -/
def Over (m : TimerManager) (e : Entry) : Prop :=
  ∀ id, (e.call = .cancel id → e.outcome.ret = true → Retired m id) ∧
    (e.Emits id → ∃ t, m.heap[id]? = some t ∧ (t.recurring = false → Retired m id))

theorem Effect.over_past {e : Entry} (effect : Effect m now c o) (ended : Over m e) :
    Over (m.applyAll o.writes) e := by
  have retired : ∀ id, Retired m id → Retired (m.applyAll o.writes) id := by
    intro id ⟨t, found, gone, out⟩
    obtain ⟨t', found', _, gone', inside⟩ := effect.keeps found
    exact ⟨t', found', gone' gone, fun member => out (inside member)⟩
  intro id
  obtain ⟨cancelled, emitted⟩ := ended id
  refine ⟨fun cancel returned => retired id (cancelled cancel returned), fun emits => ?_⟩
  obtain ⟨t, found, last⟩ := emitted emits
  obtain ⟨t', found', kind, _⟩ := effect.keeps found
  exact ⟨t', found', fun oneShot => retired id (last (kind ▸ oneShot))⟩

theorem Effect.over_now (effect : Effect m now c o) (good : Good m) :
    Over (m.applyAll o.writes) ⟨now, c, o⟩ := by
  intro id
  have quiet : o.emitted = [] → ¬ Entry.Emits ⟨now, c, o⟩ id := by
    intro silent emits
    simp [Entry.Emits, silent] at emits
  cases effect with
  | refused => simp [Entry.Emits]
  | @cancelled id' t _ found present leaves silent =>
    refine ⟨fun same _ => ?_, fun emits => absurd emits (quiet silent)⟩
    cases same
    refine ⟨{ t with cb := none }, ?_, rfl, fun member => ((leaves.members id).mp member).1 rfl⟩
    rw [leaves.heap_eq, getElem?_modify_ite, if_pos rfl, found]
    rfl
  | @expired addr _ leaves _ emitted =>
    refine ⟨?_, fun emits => ?_⟩
    · intro same
      cases same
    have expires : id ∈ m.expireds now addr := by simpa [Entry.Emits, emitted] using emits
    obtain ⟨t, found⟩ := good.known id (mem_of_expires (.inr ⟨expires, trivial⟩))
    have found' : (m.applyAll o.writes).heap[id]? = some (rearmed now t) := by
      rw [leaves.heap_eq, List.getElem?_mapIdx, found]
      simp [expires]
    refine ⟨_, found', fun oneShot => ⟨_, found', ?_, fun member => ?_⟩⟩
    · rw [rearmed_recurring] at oneShot
      simp [rearmed, oneShot]
    · rcases (leaves.members id).mp member with stays | ⟨_, t', same, again⟩
      · exact good.apart expires stays
      · rw [found] at same
        obtain rfl := Option.some.inj same
        rw [rearmed_recurring, again] at oneShot
        cases oneShot
  | _ =>
    rename o.emitted = [] => silent
    refine ⟨?_, fun emits => absurd emits (quiet silent)⟩
    intro same
    cases same

theorem Effect.emits (effect : Effect m now c o) (emits : Entry.Emits ⟨now, c, o⟩ id) :
    ∃ addr, c = .listExpiredCb addr ∧ id ∈ m.expireds now addr ∧
      o.emitted.map Prod.fst = m.expireds now addr := by
  cases effect with
  | @expired addr _ leaves _ emitted =>
    have ids : o.emitted.map Prod.fst = m.expireds now addr := by
      rw [emitted, List.map_map]
      exact List.map_id _
    exact ⟨addr, rfl, ids ▸ emits, ids⟩
  | refused => simp [Entry.Emits] at emits
  | _ =>
    rename o.emitted = [] => silent
    simp [Entry.Emits, silent] at emits

/-- A call that returns before it takes the lock leaves the armings as they are. -/
theorem Skips.record {rs : List Arming} (skips : Skips m c) (same : Matches m rs) :
    record rs ⟨now, c, {}⟩ = rs := by
  refine List.ext_getElem? fun j => ?_
  cases skips with
  | listExpiredCb => simp [TimerManager.record, Entry.Emits]
  | @reset id t found =>
    simp only [TimerManager.record, if_true, Bool.false_eq_true, if_false, getElem?_modify_ite]
    split
    · rename_i here
      subst here
      cases arming : rs[id]? with
      | none => rfl
      | some r =>
        rw [← (same.agree id t r found arming).1]
        rfl
    · rfl

/-! ### Every run -/

/-- The timers a call at `e` may emit, given the calls before it. -/
def Due (past : List Entry) (e : Entry) : Prop :=
  ∀ id, e.Emits id → ∃ r, (armings past)[id]? = some r ∧ r.deadline ≤ e.now ∧
    (∃ addr, e.call = .listExpiredCb addr) ∧ (e.outcome.emitted.map Prod.fst).Nodup ∧
    (r.recurring = false → ∀ e' ∈ past, ¬ e'.Emits id) ∧
    ∀ e' ∈ past, e'.call = .cancel id → e'.outcome.ret = false

structure Timed (h : History) : Prop where
  good : Good h.manager
  steady : h.manager.previousTime ≤ h.clock
  bounded : ∀ r ∈ armings h.log, r.deadline < 2 ^ 64
  same : Matches h.manager (armings h.log)
  ended : ∀ e ∈ h.log, Over h.manager e
  past : ∀ e ∈ h.log, e.now ≤ h.clock
  times : h.log.Pairwise (·.now ≤ ·.now)
  due : EachAfter Due h.log

theorem new_timed (start : Nat) : Timed (History.new start) where
  good := new_good start
  steady := Nat.le_refl _
  bounded := by simp [History.new, armings]
  same := ⟨rfl, by simp [History.new, armings]⟩
  ended := by simp [History.new]
  past := by simp [History.new]
  times := List.Pairwise.nil
  due := EachAfter.nil

/-- The emissions of the next call, from a state in which the timers agree with the log. -/
theorem Timed.next {h : History} (timed : Timed h) (later : h.clock ≤ now)
    (effect : Effect h.manager now c o) : Due h.log ⟨now, c, o⟩ := by
  intro id emits
  obtain ⟨addr, list, expires, ids⟩ := effect.emits emits
  obtain ⟨member, t, found, due⟩ := due_of_expires timed.good (timed.steady.trans later) expires
  obtain ⟨r, arming⟩ := timed.same.arming found
  obtain ⟨_, kind, deadline⟩ := timed.same.agree id t r found arming
  -- the timer is in the set, so nothing before has been its last
  have alive : ¬ Retired h.manager id := fun ⟨_, _, _, out⟩ => out member
  refine ⟨r, arming, deadline member ▸ due, ⟨addr, list⟩, ?_, fun oneShot e member' emits' => ?_, fun e member' cancel => ?_⟩
  · have nodup := timed.good.nodup
    rw [← expireds_append h.manager now addr] at nodup
    rw [ids]
    exact (List.nodup_append.mp nodup).1
  · obtain ⟨t', found', last⟩ := (timed.ended e member' id).2 emits'
    obtain rfl := Option.some.inj (found.symm.trans found')
    exact alive (last (kind ▸ oneShot))
  · exact Bool.eq_false_iff.mpr fun returned => alive ((timed.ended e member' id).1 cancel returned)

theorem Timed.step {h h' : History} {a : Nat × Call} (timed : Timed h) (step : h.Step a h') :
    Timed h' := by
  obtain ⟨now, c⟩ := a
  obtain ⟨later, allowed, ⟨o, returned, rfl⟩, bounded⟩ := step
  dsimp only at later allowed returned bounded ⊢
  obtain ⟨o', returned', cases⟩ := call_effect timed.good now allowed
  obtain rfl : o' = o := Except.ok.inj (returned'.symm.trans returned)
  generalize entry : (⟨now, c, o'⟩ : Entry) = e at bounded
  have at_now : e.now = now := entry ▸ rfl
  have past : ∀ x ∈ h.log ++ [e], x.now ≤ now := by
    intro x member
    rcases List.mem_append.mp member with old | new
    · exact (timed.past x old).trans later
    · rw [List.mem_singleton.mp new, at_now]
  have times : (h.log ++ [e]).Pairwise fun x y => x.now ≤ y.now := by
    refine List.pairwise_append.mpr ⟨timed.times, List.pairwise_singleton _ _, fun x old y new => ?_⟩
    rw [List.mem_singleton.mp new, at_now]
    exact (timed.past x old).trans later
  rw [armings_snoc] at bounded
  subst entry
  rcases cases with ⟨rfl, skips⟩ | effect
  · have kept : record (armings h.log) ⟨now, c, {}⟩ = armings h.log := skips.record timed.same
    refine ⟨timed.good, timed.steady.trans later, by rwa [armings_snoc], ?_, fun e member => ?_, past, times,
      timed.due.snoc fun id emits => ?_⟩
    · rw [armings_snoc, kept]
      exact timed.same
    · rcases List.mem_append.mp member with old | new
      · exact timed.ended e old
      · rw [List.mem_singleton.mp new]
        cases skips <;> simp [Over, Entry.Emits]
    · simp [Entry.Emits] at emits
  · refine ⟨effect.good timed.good, ?_, by rwa [armings_snoc], ?_, fun e member => ?_, past, times,
      timed.due.snoc (timed.next later effect)⟩
    · rcases effect.clock with same | same
      · exact same ▸ timed.steady.trans later
      · exact Nat.le_of_eq same
    · rw [armings_snoc]
      exact effect.matches timed.good timed.same timed.bounded bounded
    · rcases List.mem_append.mp member with old | new
      · exact effect.over_past (timed.ended e old)
      · exact List.mem_singleton.mp new ▸ effect.over_now timed.good

/-! ### The time between two emissions -/

/-- An entry that is not a reset of the timer keeps its period, and never arms it with an earlier
start. -/
theorem record_keeps {rs : List Arming} {r : Arming} {e : Entry} {since : Nat} (arming : rs[id]? = some r)
    (steady : ¬ e.Resets id) (before : since ≤ r.start) (later : since ≤ e.now) :
    ∃ r', (record rs e)[id]? = some r' ∧ r'.period = r.period ∧ r'.recurring = r.recurring ∧
      since ≤ r'.start := by
  obtain ⟨now, c, o⟩ := e
  cases c with
  | addTimer addr ms cb recurring =>
    have bound := (List.getElem?_eq_some_iff.mp arming).1
    exact ⟨r, by rw [record, List.getElem?_append_left bound, arming], rfl, rfl, before⟩
  | cancel j => exact ⟨r, arming, rfl, rfl, before⟩
  | refresh j =>
    unfold record
    dsimp only
    split
    · rw [getElem?_modify_ite, arming]
      split
      · exact ⟨_, rfl, rfl, rfl, later⟩
      · exact ⟨r, rfl, rfl, rfl, before⟩
    · exact ⟨r, arming, rfl, rfl, before⟩
  | reset j ms fromNow =>
    unfold record
    dsimp only
    split
    · rename_i returned
      have other : j ≠ id := fun here => steady ⟨returned, ms, fromNow, here ▸ rfl⟩
      exact ⟨r, by rw [getElem?_modify_ite, if_neg other, arming], rfl, rfl, before⟩
    · exact ⟨r, arming, rfl, rfl, before⟩
  | listExpiredCb addr =>
    rw [record, List.getElem?_mapIdx, arming]
    refine ⟨_, rfl, ?_⟩
    dsimp only
    split
    · exact ⟨rfl, rfl, later⟩
    · exact ⟨rfl, rfl, before⟩

theorem armings_keeps {log entries : List Entry} {r : Arming} {since : Nat}
    (arming : (armings log)[id]? = some r) (steady : ∀ e ∈ entries, ¬ e.Resets id)
    (before : since ≤ r.start) (later : ∀ e ∈ entries, since ≤ e.now) :
    ∃ r', (armings (log ++ entries))[id]? = some r' ∧ r'.period = r.period ∧
      r'.recurring = r.recurring ∧ since ≤ r'.start := by
  induction entries generalizing log r with
  | nil => exact ⟨r, by rwa [List.append_nil], rfl, rfl, before⟩
  | cons e entries ih =>
    obtain ⟨r₁, arming₁, period₁, kind₁, before₁⟩ :=
      record_keeps arming (steady e List.mem_cons_self) before (later e List.mem_cons_self)
    rw [← armings_snoc] at arming₁
    obtain ⟨r₂, arming₂, period₂, kind₂, before₂⟩ := ih arming₁
      (fun x member => steady x (List.mem_cons_of_mem _ member)) before₁
      fun x member => later x (List.mem_cons_of_mem _ member)
    rw [List.append_assoc] at arming₂
    exact ⟨r₂, arming₂, period₂.trans period₁, kind₂.trans kind₁, before₂⟩

/-- Two emissions of a timer are a period apart when it has not been reset between them. -/
theorem Timed.gap {h : History} {before between post : List Entry} {first e : Entry} (timed : Timed h)
    (split : h.log = (before ++ first :: between) ++ e :: post) (emitted : e.Emits id)
    (emitted_first : first.Emits id) (steady : ∀ x ∈ between, ¬ x.Resets id) :
    ∃ r, (armings before)[id]? = some r ∧ first.now + r.period ≤ e.now := by
  obtain ⟨r, arming, due, _, _, once, _⟩ := timed.due _ e post split id emitted
  have again : r.recurring = true := by
    by_contra oneShot
    exact once (Bool.eq_false_iff.mpr oneShot) first (by simp) emitted_first
  have split_first : h.log = before ++ first :: (between ++ e :: post) := by
    rw [split, List.append_assoc, List.cons_append]
  obtain ⟨r₀, arming₀, _, ⟨addr, list⟩, _⟩ := timed.due before first _ split_first id emitted_first
  have later : ∀ x ∈ between, first.now ≤ x.now := by
    intro x member
    have times := timed.times
    rw [split_first] at times
    exact (List.pairwise_cons.mp (List.pairwise_append.mp times).2.1).1 x (List.mem_append_left _ member)
  -- the first emission has armed the timer again, at its own time
  have armed : (armings (before ++ [first]))[id]? =
      some (if r₀.recurring = true then { r₀ with start := first.now } else r₀) := by
    rw [armings_snoc, record, list]
    dsimp only
    rw [List.getElem?_mapIdx, arming₀]
    simp [emitted_first]
  refine ⟨r₀, arming₀, ?_⟩
  have kept : ∀ {since : Nat} {r₁ : Arming}, (armings (before ++ [first]))[id]? = some r₁ →
      since ≤ r₁.start → since ≤ first.now →
      r.period = r₁.period ∧ r.recurring = r₁.recurring ∧ since ≤ r.start := by
    intro since r₁ arming₁ start₁ early
    obtain ⟨r', arming', facts⟩ := armings_keeps arming₁ steady start₁
      fun x member => early.trans (later x member)
    rw [List.append_assoc, List.singleton_append, arming] at arming'
    exact Option.some.inj arming' ▸ facts
  by_cases again₀ : r₀.recurring = true
  · rw [if_pos again₀] at armed
    obtain ⟨period, _, start⟩ := kept armed (Nat.le_refl _) (Nat.le_refl _)
    rw [Arming.deadline, period] at due
    exact (Nat.add_le_add_right start _).trans due
  · rw [if_neg again₀] at armed
    obtain ⟨_, kind, _⟩ := kept armed (Nat.zero_le _) (Nat.zero_le _)
    exact absurd (kind ▸ again) again₀

/-- In a run with a clock that does not go back and deadlines within range, every timer that
`listExpiredCb` emits is due by its last arming, is emitted once if it is a one-shot timer, has not
been cancelled, and is a period after its last emission unless it was reset in between. -/
theorem emitted_when_due {start : Nat} {calls : List (Nat × Call)} {h : History} {past post : List Entry}
    {e : Entry} (run : Run History.Step (History.new start) calls h) (entry : h.log = past ++ e :: post)
    (emitted : e.Emits id) :
    ∃ r, (armings past)[id]? = some r ∧ r.start + r.period ≤ e.now ∧
      (e.outcome.emitted.map Prod.fst).Nodup ∧
      (r.recurring = false → ∀ e' ∈ past, ¬ e'.Emits id) ∧
      (∀ e' ∈ past, e'.call = .cancel id → e'.outcome.ret = false) ∧
      ∀ before first between, past = before ++ first :: between → first.Emits id →
        (∀ x ∈ between, ¬ x.Resets id) →
        ∃ r', (armings before)[id]? = some r' ∧ first.now + r'.period ≤ e.now := by
  have timed : Timed h := run.invariant (fun _ _ _ timed step => timed.step step) (new_timed start)
  obtain ⟨r, arming, due, _, nodup, once, live⟩ := timed.due past e post entry id emitted
  refine ⟨r, arming, due, nodup, once, live, ?_⟩
  intro before first between split emitted_first steady
  exact timed.gap (split ▸ entry) emitted emitted_first steady

/-- A recurring timer that is refreshed between its first two emissions. -/
def refreshedOnce : List (Nat × Call) :=
  [] ++ [(0, .addTimer 64 10 (some 1) true)] ++ [(10, .listExpiredCb 48)] ++ [(12, .refresh 0)] ++
    [(25, .listExpiredCb 48)]

theorem emitted_when_due_refreshedOnce :
    ∃ h past e, Run History.Step (History.new 0) refreshedOnce h ∧ h.log = past ++ [e] ∧ e.Emits 0 ∧
      (∃ r, (armings past)[0]? = some r ∧ r.start + r.period ≤ e.now) := by
  have run : Run History.Step (History.new 0) refreshedOnce _ :=
    (((Run.nil.snoc ⟨by decide, by decide, ⟨_, rfl, rfl⟩, by decide⟩).snoc
      ⟨by decide, trivial, ⟨_, rfl, rfl⟩, by decide⟩).snoc
      ⟨by decide, by decide, ⟨_, rfl, rfl⟩, by decide⟩).snoc
      ⟨by decide, trivial, ⟨_, rfl, rfl⟩, by decide⟩
  obtain ⟨r, arming, due, _⟩ := emitted_when_due run rfl (by decide : Entry.Emits _ 0)
  exact ⟨_, _, _, run, rfl, by decide, r, arming, due⟩

end Cool.TimerManager
