import Cool.Timer.Order

/-!
# What every call does to the timer set

`Effect` says, once for all calls, what the write-locked section of a call returns, what it leaves
in the set and what it has changed of which timer. It starts from an ordered set with every timer
that has a callback in it, and leads to one again. That `m_timers` is exactly the set of the live
timers follows for every run.
-/

namespace Cool.TimerManager

open Foundation Foundation.OrderedSet

variable {m : TimerManager} {id j : TimerId} {t : Timer}

/-- The set is ordered, and every timer whose callback is not empty is in it. -/
structure Good (m : TimerManager) : Prop extends Sound m where
  known : ∀ id ∈ m.timers, ∃ t, m.heap[id]? = some t
  live : ∀ id t, m.heap[id]? = some t → t.cb.isSome = true → id ∈ m.timers

theorem Good.find (good : Good m) (found : m.heap[id]? = some t) (present : t.cb.isSome = true) :
    m.find id = some id :=
  good.toSound.find (good.live id t found present)

theorem new_good (now : Nat) : Good (new now) where
  ordered := List.Pairwise.nil
  addrs := by simp [new]
  known := by simp [new]
  live := by simp [new]

theorem Good.congr {m' : TimerManager} (good : Good m) (heap : m'.heap = m.heap)
    (timers : m'.timers = m.timers) : Good m' := by
  refine ⟨good.toSound.of_keys (by rw [timers]) (fun j _ => by rw [heap]), ?_, ?_⟩
  · rw [timers, heap]
    exact good.known
  · rw [timers, heap]
    exact good.live

/-- What a call leaves behind: the timers, and which of them are in the set. -/
structure Leaves (m : TimerManager) (now : Nat) (o : Outcome) (heap : List Timer)
    (member : TimerId → Prop) : Prop where
  good : Good (m.applyAll o.writes)
  fixed : DeadlinesFixed m o.writes
  heap_eq : (m.applyAll o.writes).heap = heap
  members : ∀ j, j ∈ (m.applyAll o.writes).timers ↔ member j
  clock : (m.applyAll o.writes).previousTime = m.previousTime ∨ (m.applyAll o.writes).previousTime = now

/-- The writes of `listExpiredCb` when it does not return early. -/
def expireWrites (m : TimerManager) (now addr : Nat) : List Write :=
  .setPreviousTime now ::
    ((m.expireds now addr).map .erase ++ (m.expireds now addr).flatMap (m.rearm now))

/-- What the write-locked section of a call may do, by the call and its outcome. -/
inductive Effect (m : TimerManager) (now : Nat) : Call → Outcome → Prop where
  | added {addr ms : Nat} {cb : Option Callback} {recurring : Bool} {o : Outcome}
      (leaves : Leaves m now o (m.heap ++ [⟨recurring, ms, u64 (now + ms), cb, addr⟩])
        fun j => j = m.heap.length ∨ j ∈ m.timers)
      (silent : o.emitted = []) : Effect m now (.addTimer addr ms cb recurring) o
  | refused {c : Call} {id : TimerId} {t : Timer}
      (on : c = .cancel id ∨ c = .refresh id ∨ ∃ ms fromNow, c = .reset id ms fromNow)
      (found : m.heap[id]? = some t) (gone : t.cb = none) : Effect m now c { ret := false }
  | cancelled {id : TimerId} {t : Timer} {o : Outcome} (found : m.heap[id]? = some t)
      (present : t.cb.isSome = true)
      (leaves : Leaves m now o (m.heap.modify id ({ · with cb := none })) fun j => j ≠ id ∧ j ∈ m.timers)
      (silent : o.emitted = []) : Effect m now (.cancel id) o
  | refreshed {id : TimerId} {t : Timer} {o : Outcome} (found : m.heap[id]? = some t)
      (present : t.cb.isSome = true)
      (leaves : Leaves m now o (m.heap.modify id ({ · with next := u64 (now + t.ms) })) (· ∈ m.timers))
      (returned : o.ret = true) (silent : o.emitted = []) : Effect m now (.refresh id) o
  | moved {id : TimerId} {t : Timer} {ms : Nat} {fromNow : Bool} {o : Outcome}
      (found : m.heap[id]? = some t) (present : t.cb.isSome = true)
      (leaves : Leaves m now o (m.heap.modify id ({ · with
          ms := ms, next := u64 ((if fromNow then now else u64Sub t.next t.ms) + ms) })) (· ∈ m.timers))
      (returned : o.ret = true) (silent : o.emitted = []) : Effect m now (.reset id ms fromNow) o
  | early {addr : Nat} {o : Outcome} (leaves : Leaves m now o m.heap (· ∈ m.timers))
      (silent : o.emitted = []) : Effect m now (.listExpiredCb addr) o
  | expired {addr : Nat} {o : Outcome}
      (leaves : Leaves m now o
        (m.heap.mapIdx fun j t => if j ∈ m.expireds now addr then rearmed now t else t)
        fun j => j ∈ m.unexpired now addr ∨
          j ∈ m.expireds now addr ∧ ∃ t, m.heap[j]? = some t ∧ t.recurring = true)
      (writes : o.writes = m.expireWrites now addr)
      (emitted : o.emitted = (m.expireds now addr).map fun id => (id, (m.heap[id]?).bind Timer.cb)) :
      Effect m now (.listExpiredCb addr) o

/-! ### Taking a timer out and putting it back -/

theorem mem_erase_iff (sound : Sound m) : j ∈ (m.apply (.erase id)).timers ↔ j ≠ id ∧ j ∈ m.timers :=
  sound.nodup.mem_erase_iff

theorem Sound.erased (sound : Sound m) (member : id ∈ m.timers) :
    Sound (m.apply (.erase id)) ∧ id ∉ (m.apply (.erase id)).timers ∧
      ∀ j ∈ (m.apply (.erase id)).timers, (key m.heap id).2 ≠ (key m.heap j).2 := by
  refine ⟨sound.erase id, fun present => ((mem_erase_iff sound).mp present).1 rfl, ?_⟩
  intro j present
  obtain ⟨different, old⟩ := (mem_erase_iff sound).mp present
  exact sound.addrs id member j old different.symm

theorem mem_put_back (sound : Sound m) (member : id ∈ m.timers) :
    j = id ∨ j ∈ (m.apply (.erase id)).timers ↔ j ∈ m.timers := by
  rw [mem_erase_iff sound]
  refine ⟨?_, fun old => ?_⟩
  · rintro (rfl | ⟨_, old⟩)
    · exact member
    · exact old
  · by_cases same : j = id
    · exact .inl same
    · exact .inr ⟨same, old⟩

/-- Erasing a timer of the set, rewriting its deadline and inserting it again. -/
theorem Sound.refresh (sound : Sound m) (member : id ∈ m.timers) (next : Nat) :
    let ws : List Write := [.erase id, .setNext id next, .insert id]
    Sound (m.applyAll ws) ∧ DeadlinesFixed m ws ∧ (∀ j, j ∈ (m.applyAll ws).timers ↔ j ∈ m.timers) ∧
      (m.applyAll ws).heap = m.heap.modify id ({ · with next := next }) := by
  intro ws
  obtain ⟨erased, out, fresh⟩ := sound.erased member
  obtain ⟨sound', fixed, members⟩ := erased.schedule next out fresh
  exact ⟨sound', ⟨by rintro _ _ ⟨⟩, fixed⟩, fun j => (members j).trans (mem_put_back sound member), rfl⟩

/-- The same with a write of the period in between. -/
theorem Sound.reset (sound : Sound m) (member : id ∈ m.timers) (ms next : Nat) :
    let ws : List Write := [.erase id, .setMs id ms, .setNext id next, .insert id]
    Sound (m.applyAll ws) ∧ DeadlinesFixed m ws ∧ (∀ j, j ∈ (m.applyAll ws).timers ↔ j ∈ m.timers) ∧
      (m.applyAll ws).heap = m.heap.modify id ({ · with ms := ms, next := next }) := by
  intro ws
  obtain ⟨erased, out, fresh⟩ := sound.erased member
  have changed : Sound ((m.apply (.erase id)).apply (.setMs id ms)) :=
    erased.of_keys (List.Sublist.refl _) fun j _ =>
      key_modify_same _ (fun t => { t with ms := ms }) (fun _ => rfl) j
  have fresh' : ∀ j ∈ ((m.apply (.erase id)).apply (.setMs id ms)).timers,
      (key ((m.apply (.erase id)).apply (.setMs id ms)).heap id).2 ≠
        (key ((m.apply (.erase id)).apply (.setMs id ms)).heap j).2 := by
    intro j present
    simp only [apply, addr_modify _ (fun t => { t with ms := ms }) (fun _ => rfl)]
    exact fresh j present
  obtain ⟨sound', fixed, members⟩ := changed.schedule next out fresh'
  refine ⟨sound', ⟨by rintro _ _ ⟨⟩, by rintro _ _ ⟨⟩, fixed⟩,
    fun j => (members j).trans (mem_put_back sound member), ?_⟩
  show (m.heap.modify id _).modify id _ = _
  rw [List.modify_modify_eq]
  rfl

/-- Rewriting a timer of the set but for its callback. -/
theorem Good.of_modify {m' : TimerManager} {f : Timer → Timer} (good : Good m) (sound : Sound m')
    (members : ∀ j, j ∈ m'.timers ↔ j ∈ m.timers) (heap : m'.heap = m.heap.modify id f)
    (keeps : ∀ t, (f t).cb = t.cb) : Good m' where
  toSound := sound
  known := by
    intro j member
    obtain ⟨t, found⟩ := good.known j ((members j).mp member)
    rw [heap, getElem?_modify_ite, found]
    split <;> simp
  live := by
    intro j t found present
    rw [heap, getElem?_modify_ite] at found
    rw [members]
    split at found
    · obtain ⟨t, old, rfl⟩ := Option.map_eq_some_iff.mp found
      exact good.live j t old (keeps t ▸ present)
    · exact good.live j t found present

/-! ### The calls on one timer -/

theorem cancel_effect (good : Good m) (now : Nat) (found : m.heap[id]? = some t) :
    ∃ o, m.cancel id = .ok o ∧ Effect m now (.cancel id) o := by
  rw [cancel, found]
  dsimp only
  cases present : t.cb with
  | none => exact ⟨_, rfl, .refused (.inl rfl) found present⟩
  | some cb =>
    have live : t.cb.isSome = true := by rw [present]; rfl
    rw [good.find found live]
    have cleared : Sound (m.apply (.clearCb id)) :=
      good.toSound.of_keys (List.Sublist.refl _) fun j _ =>
        key_modify_same _ (fun t => { t with cb := none }) (fun _ => rfl) j
    have members : ∀ j, j ∈ (m.applyAll [.clearCb id, .erase id]).timers ↔ j ≠ id ∧ j ∈ m.timers :=
      fun j => mem_erase_iff cleared
    refine ⟨_, rfl, .cancelled found live ⟨⟨cleared.erase id, fun j member => ?_, fun j t' old here => ?_⟩,
      ⟨by rintro _ _ ⟨⟩, by rintro _ _ ⟨⟩, trivial⟩, rfl, members, .inl rfl⟩ rfl⟩
    · obtain ⟨other, old⟩ := (members j).mp member
      show ∃ t', (m.heap.modify id _)[j]? = some t'
      rw [getElem?_modify_ite, if_neg other.symm]
      exact good.known j old
    · replace old : (m.heap.modify id _)[j]? = some t' := old
      rw [getElem?_modify_ite] at old
      refine (members j).mpr ?_
      split at old
      · obtain ⟨_, _, rfl⟩ := Option.map_eq_some_iff.mp old
        cases here
      · rename_i other
        exact ⟨Ne.symm other, good.live j t' old here⟩

theorem refresh_effect (good : Good m) (now : Nat) (found : m.heap[id]? = some t) :
    ∃ o, m.refresh now id = .ok o ∧ Effect m now (.refresh id) o := by
  rw [refresh, found]
  dsimp only
  cases present : t.cb with
  | none => exact ⟨_, rfl, .refused (.inr (.inl rfl)) found present⟩
  | some cb =>
    have live : t.cb.isSome = true := by rw [present]; rfl
    rw [good.find found live]
    obtain ⟨sound, fixed, members, heap⟩ :=
      good.toSound.refresh (good.live id t found live) (u64 (now + t.ms))
    have good' := good.of_modify sound members heap fun _ => rfl
    exact ⟨_, rfl, .refreshed found live ⟨good', fixed, heap, members, .inl rfl⟩ rfl rfl⟩

/-! ### `addTimer` -/

theorem addTimerLocked_writes (m : TimerManager) (ws : List Write) (id : TimerId) :
    ∃ o, m.addTimerLocked ws id = o ∧ o.ret = true ∧ o.emitted = [] ∧
      (m.applyAll o.writes).heap = (m.applyAll (ws ++ [.insert id])).heap ∧
      (m.applyAll o.writes).timers = (m.applyAll (ws ++ [.insert id])).timers ∧
      (m.applyAll o.writes).previousTime = (m.applyAll ws).previousTime ∧
      (DeadlinesFixed m (ws ++ [.insert id]) → DeadlinesFixed m o.writes) := by
  have clock : (m.applyAll (ws ++ [.insert id])).previousTime = (m.applyAll ws).previousTime := by
    rw [applyAll_append]
    rfl
  refine ⟨_, rfl, rfl, rfl, ?_⟩
  dsimp only [addTimerLocked]
  split
  · rw [applyAll_append]
    refine ⟨rfl, rfl, clock,
      fun fixed => deadlinesFixed_append.mpr ⟨fixed, ?_, trivial⟩⟩
    rintro _ _ ⟨⟩
  · exact ⟨rfl, rfl, clock, fun fixed => fixed⟩

theorem resetLocked_effect (good : Good m) (now ms : Nat) (fromNow : Bool) (found : m.heap[id]? = some t) :
    ∃ o, m.resetLocked now id ms fromNow = .ok o ∧ Effect m now (.reset id ms fromNow) o := by
  rw [resetLocked, found]
  dsimp only
  cases present : t.cb with
  | none => exact ⟨_, rfl, .refused (.inr (.inr ⟨ms, fromNow, rfl⟩)) found present⟩
  | some cb =>
    have live : t.cb.isSome = true := by rw [present]; rfl
    rw [good.find found live]
    refine ⟨_, rfl, ?_⟩
    generalize next : u64 ((if fromNow then now else u64Sub t.next t.ms) + ms) = deadline
    obtain ⟨sound, fixed, members, heap⟩ := good.toSound.reset (good.live id t found live) ms deadline
    obtain ⟨o, same, returned, silent, heap', timers', clock, fixed'⟩ :=
      addTimerLocked_writes m [.erase id, .setMs id ms, .setNext id deadline] id
    rw [same]
    refine .moved found live ⟨?_, fixed' fixed, ?_, fun j => ?_, .inl clock⟩ returned silent
    · exact (good.of_modify sound members heap fun _ => rfl).congr heap' timers'
    · rw [next]
      exact heap'.trans heap
    · rw [timers']
      exact members j

theorem addTimer_effect (good : Good m) (now addr ms : Nat) (cb : Option Callback) (recurring : Bool)
    (fresh : ∀ j ∈ m.timers, addr ≠ (key m.heap j).2) :
    Effect m now (.addTimer addr ms cb recurring) (m.addTimer now addr ms cb recurring) := by
  have bound : ∀ j ∈ m.timers, j < m.heap.length := by
    intro j member
    obtain ⟨_, found⟩ := good.known j member
    exact (List.getElem?_eq_some_iff.mp found).1
  rw [addTimer]
  generalize made : (⟨recurring, ms, u64 (now + ms), cb, addr⟩ : Timer) = t
  have grown : Sound (m.apply (.alloc t)) :=
    good.toSound.of_keys (List.Sublist.refl _) fun j member => key_append (bound j member)
  have apart : ∀ j ∈ (m.apply (.alloc t)).timers,
      (key (m.apply (.alloc t)).heap m.heap.length).2 ≠ (key (m.apply (.alloc t)).heap j).2 := by
    intro j member
    have self : key (m.heap ++ [t]) m.heap.length = t.key := by simp [key]
    show (key (m.heap ++ [t]) m.heap.length).2 ≠ (key (m.heap ++ [t]) j).2
    rw [self, key_append (bound j member), ← made]
    exact fresh j member
  obtain ⟨sound, members⟩ := grown.insert apart
  obtain ⟨o, same, _, silent, heap, timers, clock, fixed⟩ :=
    addTimerLocked_writes m [.alloc t] m.heap.length
  rw [same]
  refine .added ⟨Good.congr (m := m.applyAll [.alloc t, .insert m.heap.length]) ?_ heap timers,
    fixed ⟨by rintro _ _ ⟨⟩, by rintro _ _ ⟨⟩, trivial⟩, by rw [made]; exact heap,
    fun j => by rw [timers]; exact members j, .inl clock⟩ silent
  refine ⟨sound, fun j member => ?_, fun j t' found present => (members j).mpr ?_⟩
  · show ∃ t', (m.heap ++ [t])[j]? = some t'
    rcases (members j).mp member with rfl | old
    · exact ⟨t, by simp⟩
    · rw [List.getElem?_append_left (bound j old)]
      exact good.known j old
  · replace found : (m.heap ++ [t])[j]? = some t' := found
    by_cases old : j < m.heap.length
    · rw [List.getElem?_append_left old] at found
      exact .inr (good.live j t' found present)
    · have last : j < (m.heap ++ [t]).length := (List.getElem?_eq_some_iff.mp found).1
      rw [List.length_append, List.length_singleton] at last
      exact .inl (Nat.le_antisymm (Nat.le_of_lt_succ last) (Nat.le_of_not_lt old))

/-! ### `listExpiredCb` -/

/-- The iterator splits the set into the timers that expire and those that stay. -/
theorem expireds_append (m : TimerManager) (now addr : Nat) :
    m.expireds now addr ++ m.unexpired now addr = m.timers := by
  have suffix : m.unexpired now addr <:+ m.timers := by
    refine (List.dropWhile_suffix _).trans ?_
    split
    · exact List.nil_suffix
    · exact List.dropWhile_suffix _
  obtain ⟨front, whole⟩ := suffix
  rw [expireds]
  conv_lhs => rw [← whole]
  rw [List.length_append, Nat.add_sub_cancel, List.take_left, whole]

theorem Sound.apart (sound : Sound m) {now addr : Nat} (expires : id ∈ m.expireds now addr) :
    id ∉ m.unexpired now addr := by
  have nodup := sound.nodup
  rw [← expireds_append m now addr] at nodup
  exact fun stays => (List.nodup_append.mp nodup).2.2 id expires id stays rfl

theorem mem_of_expires {now addr : Nat} {p : Prop}
    (either : id ∈ m.unexpired now addr ∨ id ∈ m.expireds now addr ∧ p) : id ∈ m.timers := by
  rw [← expireds_append m now addr, List.mem_append]
  exact either.symm.imp_left And.left

theorem Sound.recurring_of_back (sound : Sound m) {now addr : Nat}
    (expires : id ∈ m.expireds now addr) (found : m.heap[id]? = some t)
    (back : id ∈ m.unexpired now addr ∨
      id ∈ m.expireds now addr ∧ ∃ t, m.heap[id]? = some t ∧ t.recurring = true) :
    t.recurring = true := by
  rcases back with stays | ⟨_, t', found', again⟩
  · exact absurd stays (sound.apart expires)
  · obtain rfl := Option.some.inj (found.symm.trans found')
    exact again

/-- Without a clock rollover the timers left in the set are those due after `now`, whatever address
the temporary timer has. -/
theorem unexpired_eq (sound : Sound m) {now : Nat} (addr : Nat) (steady : m.rollover now = false) :
    m.unexpired now addr = m.timers.filter fun id => now < (key m.heap id).1 := by
  have bound : m.timers.dropWhile (fun id => lessKey (key m.heap id) (now, addr)) =
      m.timers.filter fun id => !lessKey (key m.heap id) (now, addr) :=
    dropWhile_eq_filter (fun _ _ _ _ below holds => lessKey_trans below holds) sound.ordered
  rw [unexpired, steady]
  simp only [Bool.false_eq_true, if_false]
  rw [bound, dropWhile_eq_filter ?_ (sound.ordered.sublist List.filter_sublist),
    List.filter_filter]
  · refine List.filter_congr fun id _ => ?_
    rw [Bool.eq_iff_iff]
    simp only [Bool.and_eq_true, Bool.not_eq_true', decide_eq_true_eq, ← Bool.not_eq_true, lessKey_iff,
      beq_iff_eq]
    omega
  · intro i mi j mj below here
    have above := (List.mem_filter.mp mi).2
    simp only [Bool.not_eq_true', ← Bool.not_eq_true, lessKey_iff, beq_iff_eq, less] at above below here ⊢
    omega

theorem mem_expireds (sound : Sound m) {now addr : Nat} (steady : m.rollover now = false) :
    id ∈ m.expireds now addr ↔ id ∈ m.timers ∧ (key m.heap id).1 ≤ now := by
  constructor
  · intro member
    have inside : id ∈ m.timers := mem_of_expires (.inr ⟨member, trivial⟩)
    refine ⟨inside, Nat.le_of_not_lt fun later => sound.apart member ?_⟩
    rw [unexpired_eq sound addr steady]
    exact List.mem_filter.mpr ⟨inside, by simpa using later⟩
  · rintro ⟨inside, due⟩
    rw [← expireds_append m now addr, unexpired_eq sound addr steady] at inside
    refine (List.mem_append.mp inside).resolve_right fun later => ?_
    have := (List.mem_filter.mp later).2
    simp only [decide_eq_true_eq] at this
    omega

theorem applyAll_erase (ids rest : List TimerId) (split : m.timers = ids ++ rest) :
    (m.applyAll (ids.map .erase)).timers = rest ∧ (m.applyAll (ids.map .erase)).heap = m.heap := by
  induction ids generalizing m with
  | nil => exact ⟨split, rfl⟩
  | cons id ids ih =>
    exact ih (m := m.apply (.erase id)) (by simp [apply, split])

theorem deadlinesFixed_erase (ids : List TimerId) : DeadlinesFixed m (ids.map .erase) := by
  induction ids generalizing m with
  | nil => trivial
  | cons id ids ih => exact ⟨by rintro _ _ ⟨⟩, ih⟩

theorem previousTime_applyAll {ws : List Write} (quiet : ∀ time, .setPreviousTime time ∉ ws) :
    (m.applyAll ws).previousTime = m.previousTime := by
  induction ws generalizing m with
  | nil => rfl
  | cons w ws ih =>
    rw [applyAll_cons, ih fun time member => quiet time (List.mem_cons_of_mem _ member)]
    cases w with
    | setPreviousTime time => exact absurd List.mem_cons_self (quiet time)
    | _ => rfl

theorem expire_quiet (ids : List TimerId) (now time : Nat) :
    .setPreviousTime time ∉ ids.map .erase ++ ids.flatMap (m.rearm now) := by
  have turn : ∀ id, .setPreviousTime time ∉ m.rearm now id := by
    intro id
    unfold rearm
    split
    · simp
    · split <;> simp
  simp [turn]

theorem Sound.erasedAll {m₁ : TimerManager} {ids : List TimerId} (sound : Sound m)
    (split : ids ++ m₁.timers = m.timers) (heap : m₁.heap = m.heap) : Sound m₁ ∧ Outside m₁ ids := by
  have nodup := sound.nodup
  rw [← split] at nodup
  obtain ⟨nodup_ids, _, apart⟩ := List.nodup_append.mp nodup
  have left : ∀ id ∈ ids, id ∈ m.timers := fun id member => split ▸ List.mem_append_left _ member
  have right : ∀ id ∈ m₁.timers, id ∈ m.timers := fun id member => split ▸ List.mem_append_right _ member
  have addrs := sound.addrs
  rw [← heap] at addrs
  constructor
  · refine sound.of_keys ?_ fun j _ => by rw [heap]
    rw [← split]
    exact List.sublist_append_right _ _
  · refine ⟨nodup_ids, fun id member later => apart id member id later rfl,
      fun id member j later => ?_, fun i mi j mj => addrs i (left i mi) j (left j mj)⟩
    exact addrs id (left id member) j (right j later) (apart id member j later)

/-- The loop and the erasures before it, on any ordered set. -/
theorem expire_spec (sound : Sound m) (known : ∀ id ∈ m.timers, ∃ t, m.heap[id]? = some t) (now addr : Nat) :
    Sound (m.applyAll (m.expireWrites now addr)) ∧ DeadlinesFixed m (m.expireWrites now addr) ∧
      (∀ j, j ∈ (m.applyAll (m.expireWrites now addr)).timers ↔ j ∈ m.unexpired now addr ∨
        j ∈ m.expireds now addr ∧ ∃ t, m.heap[j]? = some t ∧ t.recurring = true) ∧
      (∀ j, (m.applyAll (m.expireWrites now addr)).heap[j]? =
        if j ∈ m.expireds now addr then (m.heap[j]?).map (rearmed now) else m.heap[j]?) ∧
      (m.applyAll (m.expireWrites now addr)).previousTime = now := by
  have split := expireds_append m now addr
  unfold expireWrites
  generalize m.expireds now addr = ids at split ⊢
  generalize m.unexpired now addr = rest at split ⊢
  have inside : ∀ id ∈ ids, id ∈ m.timers := fun id member => split ▸ List.mem_append_left _ member
  obtain ⟨timers₁, heap₁⟩ := applyAll_erase (m := m.apply (.setPreviousTime now)) ids rest split.symm
  have fixed₁ := deadlinesFixed_erase (m := m.apply (.setPreviousTime now)) ids
  have clock := previousTime_applyAll (m := m.apply (.setPreviousTime now)) (expire_quiet (m := m) ids now)
  rw [DeadlinesFixed, deadlinesFixed_append, applyAll_cons]
  rw [applyAll_append] at clock ⊢
  generalize (m.apply (.setPreviousTime now)).applyAll (ids.map .erase) = m₁ at *
  replace heap₁ : m₁.heap = m.heap := heap₁
  obtain ⟨sound₁, outside⟩ := sound.erasedAll (timers₁ ▸ split) heap₁
  have same : ∀ id ∈ ids, ∃ t, m.heap[id]? = some t ∧ m₁.heap[id]? = some t := by
    intro id member
    obtain ⟨t, found⟩ := known id (inside id member)
    exact ⟨t, found, by rw [heap₁, found]⟩
  obtain ⟨sound₂, fixed₂, members₂, lookup₂⟩ := rearmAll_spec now sound₁ outside same
  rw [timers₁] at members₂
  rw [heap₁] at lookup₂
  exact ⟨sound₂, ⟨by rintro _ _ ⟨⟩, fixed₁, fixed₂⟩, members₂, lookup₂, clock⟩

theorem mapIdx_of_lookup {heap : List Timer} {ids : List TimerId} {now : Nat}
    (lookup : ∀ j, heap[j]? = if j ∈ ids then (m.heap[j]?).map (rearmed now) else m.heap[j]?) :
    heap = m.heap.mapIdx fun j t => if j ∈ ids then rearmed now t else t := by
  refine List.ext_getElem? fun j => ?_
  rw [lookup, List.getElem?_mapIdx]
  split <;> simp_all

theorem expire_leaves (good : Good m) (now addr : Nat) {o : Outcome}
    (writes : o.writes = m.expireWrites now addr) :
    Leaves m now o (m.heap.mapIdx fun j t => if j ∈ m.expireds now addr then rearmed now t else t)
      fun j => j ∈ m.unexpired now addr ∨
        j ∈ m.expireds now addr ∧ ∃ t, m.heap[j]? = some t ∧ t.recurring = true := by
  obtain ⟨sound, fixed, members, lookup, clock⟩ := expire_spec good.toSound good.known now addr
  rw [← writes] at sound fixed members lookup clock
  refine ⟨⟨sound, fun j member => ?_, fun j t found present => ?_⟩, fixed, mapIdx_of_lookup lookup, members, .inr clock⟩
  · obtain ⟨t, found⟩ := good.known j (mem_of_expires ((members j).mp member))
    rw [lookup, found]
    split <;> simp
  · rw [lookup] at found
    refine (members j).mpr ?_
    split at found
    · rename_i member
      obtain ⟨t, old, rfl⟩ := Option.map_eq_some_iff.mp found
      refine .inr ⟨member, t, old, ?_⟩
      by_contra oneShot
      simp [rearmed, oneShot] at present
    · rename_i other
      have old := good.live j t found present
      rw [← expireds_append m now addr, List.mem_append] at old
      exact .inl (old.resolve_left other)

theorem listExpiredLocked_effect (good : Good m) (now addr : Nat)
    (ready : m.rollover now = true ∨ m.timers ≠ []) :
    ∃ o, m.listExpiredLocked now addr = .ok o ∧ Effect m now (.listExpiredCb addr) o := by
  unfold listExpiredLocked
  dsimp only
  cases back : m.rollover now with
  | true => exact ⟨_, rfl, .expired (expire_leaves good now addr rfl) rfl rfl⟩
  | false =>
    cases timers : m.timers with
    | nil => simp [back, timers] at ready
    | cons first rest =>
      simp only [Bool.false_eq_true, if_false]
      split
      · refine ⟨_, rfl, .early ⟨good.congr rfl rfl, ⟨by rintro _ _ ⟨⟩, trivial⟩, rfl, fun _ => Iff.rfl,
          .inr rfl⟩ rfl⟩
      · exact ⟨_, rfl, .expired (expire_leaves good now addr rfl) rfl rfl⟩

/-! ### Every call -/

/-- What callers and the allocator guarantee: a member function is called on a timer that exists,
and a new timer does not share its address with a timer in the set. -/
def Allowed (m : TimerManager) : Call → Prop
  | .addTimer addr _ _ _ => ∀ j ∈ m.timers, addr ≠ (key m.heap j).2
  | .cancel id | .refresh id | .reset id _ _ => id < m.heap.length
  | .listExpiredCb _ => True

instance (m : TimerManager) : (c : Call) → Decidable (Allowed m c)
  | .addTimer addr _ _ _ => inferInstanceAs (Decidable (∀ j ∈ m.timers, addr ≠ (key m.heap j).2))
  | .cancel id | .refresh id | .reset id _ _ => inferInstanceAs (Decidable (id < m.heap.length))
  | .listExpiredCb _ => inferInstanceAs (Decidable True)

/-- The write-locked section of a call, entered by `listExpiredCb` with a timer in the set or after
the clock went back. -/
theorem locked_effect {c : Call} (good : Good m) (now : Nat) (allowed : Allowed m c)
    (ready : ∀ addr, c = .listExpiredCb addr → m.rollover now = true ∨ m.timers ≠ []) :
    ∃ o, m.locked now c = .ok o ∧ Effect m now c o := by
  cases c with
  | addTimer addr ms cb recurring => exact ⟨_, rfl, addTimer_effect good now addr ms cb recurring allowed⟩
  | cancel id => exact cancel_effect good now (List.getElem?_eq_getElem allowed)
  | refresh id => exact refresh_effect good now (List.getElem?_eq_getElem allowed)
  | reset id ms fromNow => exact resetLocked_effect good now ms fromNow (List.getElem?_eq_getElem allowed)
  | listExpiredCb addr => exact listExpiredLocked_effect good now addr (ready addr rfl)

/-- The calls that return before they take the write lock: a reset to the period the timer has, and
`listExpiredCb` on an empty set. -/
inductive Skips (m : TimerManager) : Call → Prop where
  | reset {id : TimerId} {t : Timer} (found : m.heap[id]? = some t) : Skips m (.reset id t.ms false)
  | listExpiredCb {addr : Nat} (empty : m.timers = []) : Skips m (.listExpiredCb addr)

/-- A call either does nothing and returns true, or runs its write-locked section. -/
theorem call_effect {c : Call} (good : Good m) (now : Nat) (allowed : Allowed m c) :
    ∃ o, m.call now c = .ok o ∧ ((o = {} ∧ Skips m c) ∨ Effect m now c o) := by
  cases c with
  | reset id ms fromNow =>
    obtain ⟨t, found⟩ : ∃ t, m.heap[id]? = some t := ⟨_, List.getElem?_eq_getElem allowed⟩
    rw [call, reset, found]
    dsimp only
    split
    · rename_i same
      obtain ⟨rfl, rfl⟩ := same
      exact ⟨_, rfl, .inl ⟨rfl, .reset found⟩⟩
    · obtain ⟨o, same, effect⟩ := resetLocked_effect good now ms fromNow found
      exact ⟨o, same, .inr effect⟩
  | listExpiredCb addr =>
    rw [call, listExpiredCb]
    cases empty : m.timers with
    | nil => exact ⟨_, rfl, .inl ⟨rfl, .listExpiredCb empty⟩⟩
    | cons first rest =>
      obtain ⟨o, same, effect⟩ := listExpiredLocked_effect good now addr (.inr (by simp [empty]))
      exact ⟨o, same, .inr effect⟩
  | _ =>
    obtain ⟨o, same, effect⟩ := locked_effect good now allowed (by rintro _ ⟨⟩)
    exact ⟨o, same, .inr effect⟩

theorem Effect.good {now : Nat} {c : Call} {o : Outcome} (effect : Effect m now c o) (good : Good m) :
    Good (m.applyAll o.writes) := by
  cases effect with
  | refused => exact good
  | _ => rename Leaves _ _ _ _ _ => leaves; exact leaves.good

theorem Effect.fixed {now : Nat} {c : Call} {o : Outcome} (effect : Effect m now c o) :
    DeadlinesFixed m o.writes := by
  cases effect with
  | refused => trivial
  | _ => rename Leaves _ _ _ _ _ => leaves; exact leaves.fixed

theorem Effect.clock {now : Nat} {c : Call} {o : Outcome} (effect : Effect m now c o) :
    (m.applyAll o.writes).previousTime = m.previousTime ∨ (m.applyAll o.writes).previousTime = now := by
  cases effect with
  | refused => exact .inl rfl
  | _ => rename Leaves _ _ _ _ _ => leaves; exact leaves.clock

/-! ### Every run -/

/-- A call made at a time. -/
def Step (m : TimerManager) (a : Nat × Call) (m' : TimerManager) : Prop :=
  Allowed m a.2 ∧ ∃ o, m.call a.1 a.2 = .ok o ∧ m.applyAll o.writes = m'

/-- Every timer is made with a callback. -/
def Call.HasCallback : Call → Prop
  | .addTimer _ _ cb _ => cb.isSome = true
  | _ => True

/-- Every timer in the set has a callback. -/
def Full (m : TimerManager) : Prop := ∀ id ∈ m.timers, ∀ t, m.heap[id]? = some t → t.cb.isSome = true

theorem Effect.full {now : Nat} {c : Call} {o : Outcome} (effect : Effect m now c o) (good : Good m)
    (full : Full m) (callback : c.HasCallback) : Full (m.applyAll o.writes) := by
  have modified : ∀ {id : TimerId} {f : Timer → Timer},
      Leaves m now o (m.heap.modify id f) (· ∈ m.timers) → (∀ t, (f t).cb = t.cb) →
      Full (m.applyAll o.writes) := by
    intro id f leaves keeps j member t found
    rw [leaves.heap_eq, getElem?_modify_ite] at found
    rw [leaves.members] at member
    split at found
    · obtain ⟨t, old, rfl⟩ := Option.map_eq_some_iff.mp found
      rw [keeps]
      exact full j member t old
    · exact full j member t found
  cases effect with
  | refused => exact full
  | refreshed _ _ leaves => exact modified leaves fun _ => rfl
  | moved _ _ leaves => exact modified leaves fun _ => rfl
  | early leaves =>
    intro j member t found
    rw [leaves.heap_eq] at found
    exact full j ((leaves.members j).mp member) t found
  | added leaves =>
    intro j member t found
    rw [leaves.heap_eq] at found
    rcases (leaves.members j).mp member with rfl | old
    · rw [List.getElem?_append_right (Nat.le_refl _), Nat.sub_self] at found
      exact Option.some.inj found ▸ callback
    · obtain ⟨_, here⟩ := good.known j old
      rw [List.getElem?_append_left (List.getElem?_eq_some_iff.mp here).1] at found
      exact full j old t found
  | cancelled _ _ leaves =>
    intro j member t found
    obtain ⟨other, old⟩ := (leaves.members j).mp member
    rw [leaves.heap_eq, getElem?_modify_ite, if_neg other.symm] at found
    exact full j old t found
  | @expired addr _ leaves =>
    intro j member t found
    have old : j ∈ m.timers := mem_of_expires ((leaves.members j).mp member)
    obtain ⟨t', here⟩ := good.known j old
    have present := full j old t' here
    rw [leaves.heap_eq, List.getElem?_mapIdx, here] at found
    obtain rfl := Option.some.inj found
    split
    · rename_i expires
      have again := good.recurring_of_back expires here ((leaves.members j).mp member)
      simpa [rearmed, again] using present
    · exact present

theorem step_good {m' : TimerManager} {a : Nat × Call} (good : Good m) (step : Step m a m') :
    Good m' ∧ (a.2.HasCallback → Full m → Full m') := by
  obtain ⟨allowed, o, same, rfl⟩ := step
  obtain ⟨o', same', cases⟩ := call_effect good a.1 allowed
  obtain rfl : o' = o := Except.ok.inj (same'.symm.trans same)
  rcases cases with ⟨rfl, _⟩ | effect
  · exact ⟨good, fun _ full => full⟩
  · exact ⟨effect.good good, fun callback full => effect.full good full callback⟩

/-- After any sequence of calls that make timers with a callback, `m_timers` is the strictly ordered
set of the timers that have one, the next call finds the timer it is made on, and no call rewrites
the deadline of a timer that is in the set. -/
theorem timers_ordered {start : Nat} {calls : List (Nat × Call)}
    (run : Run (fun m a m' => a.2.HasCallback ∧ Step m a m') (new start) calls m) :
    (∀ id, id ∈ m.timers ↔ ∃ t, m.heap[id]? = some t ∧ t.cb.isSome = true) ∧
    m.timers.Pairwise (fun i j => lessKey (key m.heap i) (key m.heap j) = true) ∧
    (∀ now c, Allowed m c → ∃ o, m.call now c = .ok o ∧ DeadlinesFixed m o.writes) ∧
    (∀ id t, m.heap[id]? = some t → t.cb.isSome = true → m.find id = some id) := by
  obtain ⟨good, full⟩ : Good m ∧ Full m := by
    refine run.invariant (I := fun m => Good m ∧ Full m) ?_ ⟨new_good start, by simp [Full, new]⟩
    rintro m a m' ⟨good, full⟩ ⟨callback, step⟩
    obtain ⟨good', full'⟩ := step_good good step
    exact ⟨good', full' callback full⟩
  refine ⟨fun id => ⟨fun member => ?_, fun ⟨t, found, present⟩ => good.live id t found present⟩,
    good.ordered, fun now c allowed => ?_, fun id t found present => good.find found present⟩
  · obtain ⟨t, found⟩ := good.known id member
    exact ⟨t, found, full id member t found⟩
  · obtain ⟨o, same, ⟨rfl, _⟩ | effect⟩ := call_effect good now allowed
    · exact ⟨_, same, trivial⟩
    · exact ⟨o, same, effect.fixed⟩

/-- Two timers, after the first has expired and been armed again. -/
def twoTimers : TimerManager where
  heap := [⟨true, 10, 20, some 1, 64⟩, ⟨false, 30, 30, some 2, 32⟩]
  timers := [0, 1]
  tickled := true
  previousTime := 10

theorem timers_ordered_twoTimers : twoTimers.find 0 = some 0 ∧ twoTimers.timers = [0, 1] := by
  have run : Run (fun m a m' => a.2.HasCallback ∧ Step m a m') (new 0)
      ([] ++ [(0, .addTimer 64 10 (some 1) true)] ++ [(0, .addTimer 32 30 (some 2) false)] ++
        [(10, .listExpiredCb 48)]) twoTimers :=
    ((Run.nil.snoc ⟨rfl, by decide, _, rfl, rfl⟩).snoc
      ⟨rfl, by decide, _, rfl, rfl⟩).snoc ⟨trivial, trivial, _, rfl, rfl⟩
  exact ⟨(timers_ordered run).2.2.2 0 _ rfl rfl, rfl⟩

end Cool.TimerManager
