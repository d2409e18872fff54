import Cool.Timer.Manager
import Cool.Foundation.Run

/-!
# The timer set stays ordered

`m_timers` holds exactly the timers that still have a callback, in the order of their deadlines and
addresses, after every call. The calls change deadlines only of timers they have taken out of the
set before, which is what keeps the order, and so the look-ups, right.
-/

namespace Cool.TimerManager

open Foundation Foundation.OrderedSet

/-! ### The comparator -/

theorem lessKey_irrefl (a : Nat × Nat) : lessKey a a = false := by simp [lessKey]

theorem lessKey_iff {a b : Nat × Nat} : lessKey a b = true ↔ a.1 < b.1 ∨ a.1 = b.1 ∧ a.2 < b.2 := by
  unfold lessKey
  split
  · simp_all
  · split <;> simp <;> omega

theorem lessKey_trans {a b c : Nat × Nat} (first : lessKey a b = true) (second : lessKey b c = true) :
    lessKey a c = true := by
  rw [lessKey_iff] at *
  omega

theorem lessKey_total {a b : Nat × Nat} (distinct : a.2 ≠ b.2) :
    lessKey a b = true ∨ lessKey b a = true := by
  rw [lessKey_iff, lessKey_iff]
  omega

/-! ### What a write changes -/

variable {m : TimerManager} {id j : TimerId}

theorem getElem?_modify_ite {α : Type} (l : List α) (f : α → α) (id j : TimerId) :
    (l.modify id f)[j]? = if id = j then (l[j]?).map f else l[j]? := by
  rw [List.getElem?_modify]
  split <;> simp

theorem key_modify_other (heap : List Timer) (f : Timer → Timer) (other : id ≠ j) :
    key (heap.modify id f) j = key heap j := by
  rw [key, getElem?_modify_ite, if_neg other, key]

theorem key_modify_same (heap : List Timer) (f : Timer → Timer) (same : ∀ t, (f t).key = t.key) (j : TimerId) :
    key (heap.modify id f) j = key heap j := by
  rw [key, getElem?_modify_ite, key]
  split
  · cases heap[j]? with
    | none => rfl
    | some t => exact same t
  · rfl

theorem addr_modify (heap : List Timer) (f : Timer → Timer) (same : ∀ t, (f t).addr = t.addr) (j : TimerId) :
    (key (heap.modify id f) j).2 = (key heap j).2 := by
  rw [key, getElem?_modify_ite, key]
  split
  · cases heap[j]? with
    | none => rfl
    | some t => exact same t
  · rfl

theorem key_append {heap added : List Timer} (old : j < heap.length) :
    key (heap ++ added) j = key heap j := by
  rw [key, List.getElem?_append_left old, key]

/-- The set is strictly ordered, and no two timers in it share an address. -/
structure Sound (m : TimerManager) : Prop where
  ordered : Ordered (less m.heap) m.timers
  addrs : ∀ i ∈ m.timers, ∀ j ∈ m.timers, i ≠ j → (key m.heap i).2 ≠ (key m.heap j).2

theorem Sound.nodup (sound : Sound m) : m.timers.Nodup :=
  sound.ordered.nodup fun _ => lessKey_irrefl _

theorem Sound.find (sound : Sound m) (member : id ∈ m.timers) : m.find id = some id :=
  find_of_mem (fun _ => lessKey_irrefl _) sound.ordered member

/-- Writes that leave the keys of the timers in the set alone leave it ordered. -/
theorem Sound.of_keys {m' : TimerManager} (sound : Sound m) (subset : m'.timers.Sublist m.timers)
    (same : ∀ j ∈ m'.timers, key m'.heap j = key m.heap j) : Sound m' where
  ordered := by
    refine (sound.ordered.sublist subset).imp_of_mem ?_
    intro i j mi mj below
    rwa [less, same i mi, same j mj]
  addrs := by
    intro i mi j mj distinct
    rw [same i mi, same j mj]
    exact sound.addrs i (subset.subset mi) j (subset.subset mj) distinct

theorem Sound.erase (sound : Sound m) (id : TimerId) : Sound (m.apply (.erase id)) :=
  sound.of_keys List.erase_sublist fun _ _ => rfl

theorem Sound.total (distinct : ∀ j ∈ m.timers, (key m.heap id).2 ≠ (key m.heap j).2) :
    ∀ j ∈ m.timers, less m.heap id j = true ∨ less m.heap j id = true :=
  fun j member => lessKey_total (distinct j member)

theorem Sound.insert (sound : Sound m) (distinct : ∀ j ∈ m.timers, (key m.heap id).2 ≠ (key m.heap j).2) :
    Sound (m.apply (.insert id)) ∧ ∀ j, j ∈ (m.apply (.insert id)).timers ↔ j = id ∨ j ∈ m.timers := by
  have members : ∀ j, j ∈ (m.apply (.insert id)).timers ↔ j = id ∨ j ∈ m.timers :=
    fun j => mem_insert (Sound.total distinct)
  refine ⟨⟨ordered_insert (fun _ _ _ => lessKey_trans) sound.ordered, ?_⟩, members⟩
  intro i mi j mj different
  rcases (members i).mp mi with rfl | old_i <;> rcases (members j).mp mj with rfl | old_j
  · exact absurd rfl different
  · exact distinct j old_j
  · exact (distinct i old_i).symm
  · exact sound.addrs i old_i j old_j different

/-- No write changes the deadline of a timer that is in the set at that moment. -/
def DeadlinesFixed : TimerManager → List Write → Prop
  | _, [] => True
  | m, w :: ws => (∀ id next, w = .setNext id next → id ∉ m.timers) ∧ DeadlinesFixed (m.apply w) ws

theorem applyAll_append (m : TimerManager) (ws ws' : List Write) :
    m.applyAll (ws ++ ws') = (m.applyAll ws).applyAll ws' := by
  simp [applyAll]

theorem applyAll_cons (m : TimerManager) (w : Write) (ws : List Write) :
    m.applyAll (w :: ws) = (m.apply w).applyAll ws := rfl

theorem applyAll_nil (m : TimerManager) : m.applyAll [] = m := rfl

theorem deadlinesFixed_append {ws ws' : List Write} :
    DeadlinesFixed m (ws ++ ws') ↔ DeadlinesFixed m ws ∧ DeadlinesFixed (m.applyAll ws) ws' := by
  induction ws generalizing m with
  | nil => simp [DeadlinesFixed, applyAll_nil]
  | cons w ws ih => simp only [List.cons_append, DeadlinesFixed, ih, applyAll_cons, and_assoc]

/-- Rewriting the deadline of a timer that is out of the set and putting it in. -/
theorem Sound.schedule (sound : Sound m) (next : Nat) (out : id ∉ m.timers)
    (distinct : ∀ j ∈ m.timers, (key m.heap id).2 ≠ (key m.heap j).2) :
    Sound (m.applyAll [.setNext id next, .insert id]) ∧
      DeadlinesFixed m [.setNext id next, .insert id] ∧
      ∀ j, j ∈ (m.applyAll [.setNext id next, .insert id]).timers ↔ j = id ∨ j ∈ m.timers := by
  have moved : Sound (m.apply (.setNext id next)) := by
    refine sound.of_keys (List.Sublist.refl _) fun j member => ?_
    exact key_modify_other _ _ fun same => out (same ▸ member)
  have still : ∀ j ∈ (m.apply (.setNext id next)).timers,
      (key (m.apply (.setNext id next)).heap id).2 ≠ (key (m.apply (.setNext id next)).heap j).2 := by
    intro j member
    simp only [apply, addr_modify _ (fun t => { t with next := next }) (fun _ => rfl)]
    exact distinct j member
  obtain ⟨inserted, members⟩ := moved.insert still
  refine ⟨inserted, ⟨?_, ?_, trivial⟩, members⟩
  · rintro _ _ ⟨⟩
    exact out
  · rintro _ _ ⟨⟩

/-! ### The loop of `listExpiredCb` -/

/-- What the loop makes of one expired timer. -/
def rearmed (now : Nat) (t : Timer) : Timer :=
  if t.recurring then { t with next := u64 (now + t.ms) } else { t with cb := none }

theorem rearmed_addr (now : Nat) (t : Timer) : (rearmed now t).addr = t.addr := by
  unfold rearmed; split <;> rfl

theorem rearmed_recurring (now : Nat) (t : Timer) : (rearmed now t).recurring = t.recurring := by
  unfold rearmed; split <;> rfl

theorem rearmed_cb {t : Timer} (now : Nat) (gone : t.cb = none) : (rearmed now t).cb = none := by
  unfold rearmed; split <;> simp [gone]

/-- The timers in `ids` are out of the set, and may be put in it in any order. -/
structure Outside (m : TimerManager) (ids : List TimerId) : Prop where
  nodup : ids.Nodup
  out : ∀ id ∈ ids, id ∉ m.timers
  fresh : ∀ id ∈ ids, ∀ j ∈ m.timers, (key m.heap id).2 ≠ (key m.heap j).2
  apart : ∀ i ∈ ids, ∀ j ∈ ids, i ≠ j → (key m.heap i).2 ≠ (key m.heap j).2

theorem rearm_spec {origin : TimerManager} {t : Timer} (now : Nat) (found : origin.heap[id]? = some t)
    (sound : Sound m) (out : id ∉ m.timers)
    (fresh : ∀ j ∈ m.timers, (key m.heap id).2 ≠ (key m.heap j).2) (same : m.heap[id]? = some t) :
    Sound (m.applyAll (origin.rearm now id)) ∧ DeadlinesFixed m (origin.rearm now id) ∧
      (∀ j, j ∈ (m.applyAll (origin.rearm now id)).timers ↔
        j ∈ m.timers ∨ (j = id ∧ t.recurring = true)) ∧
      (∀ j, (m.applyAll (origin.rearm now id)).heap[j]? =
        if id = j then (m.heap[j]?).map (rearmed now) else m.heap[j]?) := by
  rw [rearm, found]
  dsimp only
  by_cases again : t.recurring = true
  · rw [if_pos again]
    obtain ⟨sound', fixed, members⟩ := sound.schedule (u64 (now + t.ms)) out fresh
    refine ⟨sound', fixed, fun j => ?_, fun j => ?_⟩
    · rw [members]
      tauto
    · show (m.heap.modify id _)[j]? = _
      rw [getElem?_modify_ite]
      split
      · rename_i here
        rw [← here, same]
        simp [rearmed, again]
      · rfl
  · rw [if_neg again]
    refine ⟨?_, ⟨by rintro _ _ ⟨⟩, trivial⟩, fun j => ?_, fun j => ?_⟩
    · exact sound.of_keys (List.Sublist.refl _) fun j _ =>
        key_modify_same _ (fun t => { t with cb := none }) (fun _ => rfl) j
    · show j ∈ m.timers ↔ _
      tauto
    · show (m.heap.modify id _)[j]? = _
      rw [getElem?_modify_ite]
      split
      · rename_i here
        rw [← here, same]
        simp [rearmed, again]
      · rfl

theorem rearm_addr {origin : TimerManager} {now : Nat}
    (lookup : ∀ j, (m.applyAll (origin.rearm now id)).heap[j]? =
      if id = j then (m.heap[j]?).map (rearmed now) else m.heap[j]?) (j : TimerId) :
    (key (m.applyAll (origin.rearm now id)).heap j).2 = (key m.heap j).2 := by
  rw [key, lookup, key]
  split
  · cases m.heap[j]? with
    | none => rfl
    | some t => exact rearmed_addr now t
  · rfl

/-- After a turn that put at most its own timer back, the timers still to come are outside. -/
theorem Outside.rest {m₁ : TimerManager} {ids : List TimerId} {back : Prop}
    (outside : Outside m (id :: ids))
    (members : ∀ j, j ∈ m₁.timers ↔ j ∈ m.timers ∨ (j = id ∧ back))
    (addrs : ∀ j, (key m₁.heap j).2 = (key m.heap j).2) : Outside m₁ ids := by
  obtain ⟨absent, nodup⟩ := List.nodup_cons.mp outside.nodup
  have other : ∀ j ∈ ids, j ≠ id := fun j member equal => absent (equal ▸ member)
  refine ⟨nodup, ?_, ?_, ?_⟩
  · intro j member present
    rcases (members j).mp present with old | ⟨equal, _⟩
    · exact outside.out j (List.mem_cons_of_mem _ member) old
    · exact other j member equal
  · intro i mi j present
    rw [addrs, addrs]
    rcases (members j).mp present with old | ⟨rfl, _⟩
    · exact outside.fresh i (List.mem_cons_of_mem _ mi) j old
    · exact outside.apart i (List.mem_cons_of_mem _ mi) j List.mem_cons_self (other i mi)
  · intro i mi j mj different
    rw [addrs, addrs]
    exact outside.apart i (List.mem_cons_of_mem _ mi) j (List.mem_cons_of_mem _ mj) different

/-- The whole loop: the recurring timers are back in the set, the others have lost their callback,
and no other timer has changed. -/
theorem rearmAll_spec {origin : TimerManager} {ids : List TimerId} (now : Nat) (sound : Sound m)
    (outside : Outside m ids) (same : ∀ id ∈ ids, ∃ t, origin.heap[id]? = some t ∧ m.heap[id]? = some t) :
    Sound (m.applyAll (ids.flatMap (origin.rearm now))) ∧
      DeadlinesFixed m (ids.flatMap (origin.rearm now)) ∧
      (∀ j, j ∈ (m.applyAll (ids.flatMap (origin.rearm now))).timers ↔
        j ∈ m.timers ∨ (j ∈ ids ∧ ∃ t, origin.heap[j]? = some t ∧ t.recurring = true)) ∧
      (∀ j, (m.applyAll (ids.flatMap (origin.rearm now))).heap[j]? =
        if j ∈ ids then (m.heap[j]?).map (rearmed now) else m.heap[j]?) := by
  -- Each turn touches its own timer only, so the timers still to come are as they were.
  induction ids generalizing m with
  | nil => exact ⟨sound, trivial, by simp [applyAll_nil], by simp [applyAll_nil]⟩
  | cons id ids ih =>
    have absent := (List.nodup_cons.mp outside.nodup).1
    obtain ⟨t, found, here⟩ := same id List.mem_cons_self
    obtain ⟨sound₁, fixed₁, members₁, lookup₁⟩ := rearm_spec now found sound
      (outside.out id List.mem_cons_self) (outside.fresh id List.mem_cons_self) here
    have addr₁ := rearm_addr lookup₁
    rw [List.flatMap_cons, applyAll_append, deadlinesFixed_append]
    have other : ∀ j ∈ ids, id ≠ j := fun j member equal => absent (equal ▸ member)
    generalize m.applyAll (origin.rearm now id) = m₁ at *
    have same₁ : ∀ j ∈ ids, ∃ t, origin.heap[j]? = some t ∧ m₁.heap[j]? = some t := by
      intro j member
      rw [lookup₁, if_neg (other j member)]
      exact same j (List.mem_cons_of_mem _ member)
    obtain ⟨sound₂, fixed₂, members₂, lookup₂⟩ := ih sound₁ (outside.rest members₁ addr₁) same₁
    refine ⟨sound₂, ⟨fixed₁, fixed₂⟩, fun j => ?_, fun j => ?_⟩
    · rw [members₂, members₁, List.mem_cons, or_assoc]
      refine or_congr_right ⟨?_, ?_⟩
      · rintro (⟨rfl, again⟩ | ⟨member, timer⟩)
        · exact ⟨.inl rfl, t, found, again⟩
        · exact ⟨.inr member, timer⟩
      · rintro ⟨rfl | member, timer, at_j, again⟩
        · obtain rfl : t = timer := Option.some.inj (found.symm.trans at_j)
          exact .inl ⟨rfl, again⟩
        · exact .inr ⟨member, timer, at_j, again⟩
    · rw [lookup₂, lookup₁]
      by_cases member : j ∈ ids
      · rw [if_pos member, if_neg (other j member), if_pos (List.mem_cons_of_mem _ member)]
      · rw [if_neg member]
        by_cases here : id = j
        · rw [if_pos here, if_pos (by simp [here])]
        · rw [if_neg here, if_neg (by simp [member, Ne.symm here])]

end Cool.TimerManager
