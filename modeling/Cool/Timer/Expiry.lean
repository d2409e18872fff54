import Cool.Timer.Calls

/-!
# Which timers expire

`listExpiredCb` on any ordered set: the iterator ends up behind the timers that are due, also behind those that
are due right now, wherever the temporary timer was allocated. After a rollover of the clock every timer is due.
-/

namespace Cool.TimerManager

open Foundation

/-- What counts as expired at time `now`. -/
def Overdue (m : TimerManager) (now : Nat) (id : TimerId) : Prop := m.rollover now = true ∨ (key m.heap id).1 ≤ now

instance (m : TimerManager) (now : Nat) (id : TimerId) : Decidable (Overdue m now id) :=
  inferInstanceAs (Decidable (_ ∨ _))

/-- What is expected of a call at time `now`: the callbacks of the timers that are due, in the order of their
deadlines, the recurring ones among them back in the set with a new deadline, and the others without callback. -/
structure Expires (m : TimerManager) (now : Nat) (o : Outcome) : Prop where
  emitted : o.emitted = (m.timers.filter (Overdue m now ·)).map fun id => (id, (m.heap[id]?).bind Timer.cb)
  order : o.emitted.Pairwise fun e e' => (key m.heap e.1).1 ≤ (key m.heap e'.1).1
  members : ∀ id, id ∈ (m.applyAll o.writes).timers ↔
    id ∈ m.timers ∧ (Overdue m now id → ∃ t, m.heap[id]? = some t ∧ t.recurring = true)
  once : (m.applyAll o.writes).timers.Nodup
  heap : (m.applyAll o.writes).heap =
    m.heap.mapIdx fun id t => if id ∈ m.timers ∧ Overdue m now id then rearmed now t else t

variable {m : TimerManager} {id : TimerId} {now addr : Nat} {o : Outcome}

theorem due_of_steady (steady : m.rollover now = false) : Overdue m now id ↔ (key m.heap id).1 ≤ now := by
  simp [Overdue, steady]

theorem unexpired_rollover (back : m.rollover now = true) : m.unexpired now addr = [] := by
  rw [unexpired, back]
  rfl

theorem mem_expireds_due (sound : Sound m) : id ∈ m.expireds now addr ↔ id ∈ m.timers ∧ Overdue m now id := by
  cases back : m.rollover now with
  | false => rw [mem_expireds sound back, due_of_steady back]
  | true =>
    have all := expireds_append m now addr
    rw [unexpired_rollover back, List.append_nil] at all
    rw [all]
    exact (and_iff_left (.inl back)).symm

theorem expireds_eq_filter (sound : Sound m) : m.expireds now addr = m.timers.filter (Overdue m now ·) := by
  have expire : ∀ id ∈ m.expireds now addr, decide (Overdue m now id) = true := by
    intro id member
    exact decide_eq_true ((mem_expireds_due sound).mp member).2
  have stay : ∀ id ∈ m.unexpired now addr, ¬ decide (Overdue m now id) = true := by
    intro id member due
    have inside : id ∈ m.timers := mem_of_expires (p := True) (.inl member)
    exact sound.apart ((mem_expireds_due sound).mpr ⟨inside, of_decide_eq_true due⟩) member
  conv_rhs => rw [← expireds_append m now addr]
  rw [List.filter_append, List.filter_eq_self.mpr expire, List.filter_eq_nil_iff.mpr stay, List.append_nil]

/-- The order of the set is the order of the deadlines. -/
theorem Sound.deadlines (sound : Sound m) : m.timers.Pairwise fun i j => (key m.heap i).1 ≤ (key m.heap j).1 := by
  refine sound.ordered.imp fun {i j} below => ?_
  rcases lessKey_iff.mp below with earlier | ⟨same, _⟩
  · exact Nat.le_of_lt earlier
  · exact Nat.le_of_eq same

/-- An outcome without writes to the set or the timers is right if no timer is due. -/
theorem expires_nothing (sound : Sound m) (none : ∀ id ∈ m.timers, ¬ Overdue m now id) (emitted : o.emitted = [])
    (timers : (m.applyAll o.writes).timers = m.timers) (heap : (m.applyAll o.writes).heap = m.heap) :
    Expires m now o := by
  refine ⟨?_, ?_, fun id => ?_, ?_, ?_⟩
  · have empty : m.timers.filter (Overdue m now ·) = [] :=
      List.filter_eq_nil_iff.mpr fun id member due => none id member (of_decide_eq_true due)
    rw [emitted, empty]
    rfl
  · rw [emitted]
    exact List.Pairwise.nil
  · rw [timers]
    exact ⟨fun member => ⟨member, fun due => absurd due (none id member)⟩, And.left⟩
  · rw [timers]
    exact sound.nodup
  · refine List.ext_getElem? fun id => ?_
    have idle : ¬ (id ∈ m.timers ∧ Overdue m now id) := fun due => none id due.1 due.2
    rw [heap, List.getElem?_mapIdx]
    simp [idle]

theorem expires_writes (sound : Sound m) (known : ∀ id ∈ m.timers, ∃ t, m.heap[id]? = some t)
    (emitted : o.emitted = (m.expireds now addr).map fun id => (id, (m.heap[id]?).bind Timer.cb))
    (writes : o.writes = m.expireWrites now addr) : Expires m now o := by
  obtain ⟨after, _, members, lookup, _⟩ := expire_spec sound known now addr
  rw [← writes] at after members lookup
  refine ⟨by rw [emitted, expireds_eq_filter sound], ?_, fun id => ?_, after.nodup, ?_⟩
  · rw [emitted, expireds_eq_filter sound]
    exact List.pairwise_map.mpr (sound.deadlines.sublist List.filter_sublist)
  · rw [members]
    constructor
    · intro left
      refine ⟨mem_of_expires left, fun due => ?_⟩
      rcases left with stays | ⟨_, recurring⟩
      · have inside : id ∈ m.timers := mem_of_expires (p := True) (.inl stays)
        exact absurd stays (sound.apart ((mem_expireds_due sound).mpr ⟨inside, due⟩))
      · exact recurring
    · rintro ⟨inside, recurring⟩
      by_cases due : Overdue m now id
      · exact .inr ⟨(mem_expireds_due sound).mpr ⟨inside, due⟩, recurring due⟩
      · rw [← expireds_append m now addr, List.mem_append] at inside
        refine .inl (inside.resolve_left fun member => due ?_)
        exact ((mem_expireds_due sound).mp member).2
  · rw [mapIdx_of_lookup lookup]
    simp only [mem_expireds_due sound]

/-- A call finds no timer that is due and leaves the set and the timers as they are, or it goes through the expired
ones. -/
theorem listExpiredCb_cases (sound : Sound m) (now addr : Nat) : ∃ o, m.listExpiredCb now addr = .ok o ∧
    (((∀ id ∈ m.timers, ¬ Overdue m now id) ∧ o.emitted = [] ∧ (m.applyAll o.writes).timers = m.timers ∧
        (m.applyAll o.writes).heap = m.heap) ∨
      o.emitted = (m.expireds now addr).map (fun id => (id, (m.heap[id]?).bind Timer.cb)) ∧
        o.writes = m.expireWrites now addr) := by
  unfold listExpiredCb listExpiredLocked
  cases timers : m.timers with
  | nil => exact ⟨_, rfl, .inl ⟨by simp, rfl, timers, rfl⟩⟩
  | cons first rest =>
    simp only [List.isEmpty_cons, Bool.false_eq_true, if_false]
    split
    · exact ⟨_, rfl, .inr ⟨rfl, rfl⟩⟩
    · rename_i steady
      split
      · rename_i later
        refine ⟨_, rfl, .inl ⟨fun id member due => ?_, rfl, timers, rfl⟩⟩
        -- The first deadline is the earliest one.
        rw [due_of_steady (Bool.eq_false_iff.mpr steady)] at due
        have order := sound.deadlines
        rw [timers] at order
        rcases List.mem_cons.mp member with rfl | behind
        · omega
        · have := (List.pairwise_cons.mp order).1 id behind
          omega
      · exact ⟨_, rfl, .inr ⟨rfl, rfl⟩⟩

/-- On every ordered set of timers and at every time, `listExpiredCb` does what is expected, whatever the address
`addr` of its temporary timer. -/
theorem listExpiredCb_exact (sound : Sound m) (known : ∀ id ∈ m.timers, ∃ t, m.heap[id]? = some t) (now addr : Nat) :
    ∃ o, m.listExpiredCb now addr = .ok o ∧ Expires m now o := by
  obtain ⟨o, called, ⟨idle, emitted, timers, heap⟩ | ⟨emitted, writes⟩⟩ := listExpiredCb_cases sound now addr
  · exact ⟨o, called, expires_nothing sound idle emitted timers heap⟩
  · exact ⟨o, called, expires_writes sound known emitted writes⟩

/-- Two timers are due at time 20, one of them right then, and the third is not. -/
def threeTimers : TimerManager where
  heap := [⟨true, 10, 20, some 1, 64⟩, ⟨false, 15, 15, some 2, 32⟩, ⟨false, 30, 30, some 3, 16⟩]
  timers := [1, 0, 2]
  tickled := false
  previousTime := 10

theorem listExpiredCb_exact_three : ∃ o, threeTimers.listExpiredCb 20 80 = .ok o ∧
    o.emitted = [(1, some 2), (0, some 1)] ∧ 0 ∈ (threeTimers.applyAll o.writes).timers := by
  have sound : Sound threeTimers := ⟨by unfold OrderedSet.Ordered; decide, by decide⟩
  have bound : ∀ id ∈ threeTimers.timers, id < threeTimers.heap.length := by decide
  obtain ⟨o, called, expires⟩ := listExpiredCb_exact sound
    (fun id member => ⟨_, List.getElem?_eq_getElem (bound id member)⟩) 20 80
  refine ⟨o, called, expires.emitted.trans (by decide), (expires.members 0).mpr ⟨by decide, fun _ => ?_⟩⟩
  exact ⟨_, rfl, rfl⟩

end Cool.TimerManager
