import Mathlib.Data.List.Nodup
import Mathlib.Data.List.Pairwise
import Mathlib.Logic.Function.Basic

/-!
# The last word on a key

Calls that bind a key, release it or leave it alone. A binding stands while no later call is about its key. A map holds
the bindings that stand, and a list that is changed at its end and by erasing holds them in the order of their calls.
-/

namespace Foundation.History

variable {α κ ν : Type*} {effect : α → Option (κ × Option ν)} {calls : List α} {a : α} {k k' : κ} {v v' : ν}
  {w : Option ν} {t t' : Nat}

/-- The call at place `t` binds `k` to `v`, and no later one is about `k`. -/
structure Stands (effect : α → Option (κ × Option ν)) (calls : List α) (t : Nat) (k : κ) (v : ν) : Prop where
  made : ∃ a, calls[t]? = some a ∧ effect a = some (k, some v)
  last : ∀ t' a w, t < t' → calls[t']? = some a → effect a ≠ some (k, w)

theorem not_stands_nil : ¬ Stands effect [] t k v := by
  rintro ⟨⟨a, made, -⟩, -⟩
  simp at made

theorem Stands.lt (stands : Stands effect calls t k v) : t < calls.length := by
  obtain ⟨a, made, -⟩ := stands.made
  exact (List.getElem?_eq_some_iff.mp made).1

theorem Stands.key (stands : Stands effect calls t k v) (stands' : Stands effect calls t k' v') : k = k' ∧ v = v' := by
  obtain ⟨a, made, binds⟩ := stands.made
  obtain ⟨a', made', binds'⟩ := stands'.made
  obtain rfl := Option.some.inj (made.symm.trans made')
  simpa [binds] using binds'

theorem Stands.place (stands : Stands effect calls t k v) (stands' : Stands effect calls t' k v') : t = t' := by
  obtain ⟨a, made, binds⟩ := stands.made
  obtain ⟨a', made', binds'⟩ := stands'.made
  rcases Nat.lt_trichotomy t t' with before | same | after
  · exact absurd binds' (stands.last t' a' _ before made')
  · exact same
  · exact absurd binds (stands'.last t a _ after made)

/-- A new call binds its own key, or leaves standing what is about other keys. -/
theorem stands_snoc : Stands effect (calls ++ [a]) t k v ↔
    (t = calls.length ∧ effect a = some (k, some v)) ∨ (Stands effect calls t k v ∧ ∀ w, effect a ≠ some (k, w)) := by
  constructor
  · intro stands
    obtain ⟨b, made, binds⟩ := stands.made
    -- the place is one of the old calls, or that of the new one
    by_cases old : t < calls.length
    · rw [List.getElem?_append_left old] at made
      refine .inr ⟨⟨⟨b, made, binds⟩, fun t' c w later there => ?_⟩, fun w => ?_⟩
      · apply stands.last t' c w later
        rw [List.getElem?_append_left (List.getElem?_eq_some_iff.mp there).1, there]
      · exact stands.last calls.length a w old (by simp)
    · have end' : t = calls.length := by
        have := stands.lt
        simp at this
        omega
      subst end'
      simp at made
      exact .inl ⟨rfl, made ▸ binds⟩
  · rintro (⟨rfl, binds⟩ | ⟨stands, other⟩)
    · refine ⟨⟨a, by simp, binds⟩, fun t' c w later there => ?_⟩
      have := (List.getElem?_eq_some_iff.mp there).1
      simp at this
      omega
    · obtain ⟨b, made, binds⟩ := stands.made
      refine ⟨⟨b, by rw [List.getElem?_append_left stands.lt, made], binds⟩, fun t' c w later there => ?_⟩
      by_cases old : t' < calls.length
      · rw [List.getElem?_append_left old] at there
        exact stands.last t' c w later there
      · have here : t' = calls.length := by
          have := (List.getElem?_eq_some_iff.mp there).1
          simp at this
          omega
        subst here
        simp at there
        exact there ▸ other w

theorem stands_snoc_none (silent : effect a = none) : Stands effect (calls ++ [a]) t k v ↔ Stands effect calls t k v := by
  simp [stands_snoc, silent]

theorem stands_snoc_of_ne (about : effect a = some (k', w)) (other : k ≠ k') :
    Stands effect (calls ++ [a]) t k v ↔ Stands effect calls t k v := by
  simp [stands_snoc, about, other.symm]

theorem stands_snoc_self (about : effect a = some (k, w)) :
    Stands effect (calls ++ [a]) t k v ↔ t = calls.length ∧ w = some v := by
  simp [stands_snoc, about]

/-! ### A map -/

def Represents (effect : α → Option (κ × Option ν)) (calls : List α) (m : κ → Option ν) : Prop :=
  ∀ k v, m k = some v ↔ ∃ t, Stands effect calls t k v

theorem represents_nil : Represents effect [] fun _ => none := by
  simp [Represents, not_stands_nil]

theorem Represents.keep {m : κ → Option ν} (held : Represents effect calls m) (silent : effect a = none) :
    Represents effect (calls ++ [a]) m := by
  intro k v
  simp only [stands_snoc_none silent]
  exact held k v

theorem Represents.update [DecidableEq κ] {m : κ → Option ν} (held : Represents effect calls m)
    (about : effect a = some (k, w)) : Represents effect (calls ++ [a]) (Function.update m k w) := by
  intro k' v
  by_cases here : k' = k
  · subst here
    simp [stands_snoc_self about]
  · rw [Function.update_of_ne here]
    simp only [stands_snoc_of_ne about here]
    exact held k' v

/-! ### A list -/

structure Listed (effect : α → Option (κ × Option ν)) (calls : List α) (l : List (κ × ν)) : Prop where
  mem : ∀ k v, (k, v) ∈ l ↔ ∃ t, Stands effect calls t k v
  nodup : (l.map Prod.fst).Nodup
  order : l.Pairwise fun e e' =>
    ∀ t t', Stands effect calls t e.1 e.2 → Stands effect calls t' e'.1 e'.2 → t < t'

theorem listed_nil : Listed effect [] [] := ⟨by simp [not_stands_nil], .nil, .nil⟩

theorem Listed.keep {l : List (κ × ν)} (listed : Listed effect calls l) (silent : effect a = none) :
    Listed effect (calls ++ [a]) l := by
  obtain ⟨mem, nodup, order⟩ := listed
  refine ⟨?_, nodup, ?_⟩
  · simpa only [stands_snoc_none silent] using mem
  · simpa only [stands_snoc_none silent] using order

section

variable [DecidableEq κ] {l : List (κ × ν)}

/-- Erasing the first entry of a key erases the key. -/
theorem mem_erase (nodup : (l.map Prod.fst).Nodup) {e : κ × ν} :
    e ∈ l.eraseP (fun e => e.1 = k) ↔ e ∈ l ∧ e.1 ≠ k := by
  induction l with
  | nil => simp
  | cons d l ih =>
    obtain ⟨fresh, rest⟩ := List.nodup_cons.mp nodup
    by_cases here : d.1 = k
    · rw [List.eraseP_cons_of_pos (by simpa using here), List.mem_cons]
      constructor
      · intro member
        refine ⟨.inr member, fun same => fresh ?_⟩
        rw [here, ← same]
        exact List.mem_map_of_mem member
      · rintro ⟨rfl | member, other⟩
        · exact absurd here other
        · exact member
    · rw [List.eraseP_cons_of_neg (by simpa using here), List.mem_cons, List.mem_cons, ih rest]
      constructor
      · rintro (rfl | ⟨member, other⟩)
        · exact ⟨.inl rfl, here⟩
        · exact ⟨.inr member, other⟩
      · rintro ⟨rfl | member, other⟩
        · exact .inl rfl
        · exact .inr ⟨member, other⟩

/-- What is left when the key of a call is erased. -/
theorem Listed.erased (listed : Listed effect calls l) (about : effect a = some (k, w)) :
    (∀ k' v, (k', v) ∈ l.eraseP (fun e => e.1 = k) ↔ k' ≠ k ∧ ∃ t, Stands effect (calls ++ [a]) t k' v) ∧
      ((l.eraseP fun e => e.1 = k).map Prod.fst).Nodup ∧
      (l.eraseP fun e => e.1 = k).Pairwise fun e e' =>
        ∀ t t', Stands effect (calls ++ [a]) t e.1 e.2 → Stands effect (calls ++ [a]) t' e'.1 e'.2 → t < t' := by
  have inside : (l.eraseP fun e => e.1 = k).Sublist l := List.eraseP_sublist
  refine ⟨fun k' v => ?_, (inside.map _).nodup listed.nodup, ?_⟩
  · rw [mem_erase listed.nodup, listed.mem, and_comm]
    refine and_congr_right fun other => ?_
    simp only [stands_snoc_of_ne about other]
  · refine (listed.order.sublist inside).imp_of_mem fun {e e'} member member' before t t' stands stands' => ?_
    rw [stands_snoc_of_ne about ((mem_erase listed.nodup).mp member).2] at stands
    rw [stands_snoc_of_ne about ((mem_erase listed.nodup).mp member').2] at stands'
    exact before t t' stands stands'

theorem Listed.erase (listed : Listed effect calls l) (releases : effect a = some (k, none)) :
    Listed effect (calls ++ [a]) (l.eraseP fun e => e.1 = k) := by
  obtain ⟨mem, nodup, order⟩ := listed.erased releases
  refine ⟨fun k' v => (mem k' v).trans ⟨And.right, fun stands => ⟨?_, stands⟩⟩, nodup, order⟩
  rintro rfl
  obtain ⟨t, stands⟩ := stands
  simp [stands_snoc_self releases] at stands

theorem Listed.push (listed : Listed effect calls l) (binds : effect a = some (k, some v)) :
    Listed effect (calls ++ [a]) (l.eraseP (fun e => e.1 = k) ++ [(k, v)]) := by
  obtain ⟨mem, nodup, order⟩ := listed.erased binds
  have others (e : κ × ν) (member : e ∈ l.eraseP fun e => e.1 = k) : e.1 ≠ k := ((mem e.1 e.2).mp member).1
  refine ⟨fun k' v' => ?_, ?_, List.pairwise_append.mpr ⟨order, List.pairwise_singleton _ _, ?_⟩⟩
  · rw [List.mem_append, List.mem_singleton, mem]
    by_cases here : k' = k
    · subst here
      simp [stands_snoc_self binds, eq_comm]
    · simp [here]
  · rw [List.map_append]
    refine List.nodup_append.mpr ⟨nodup, List.nodup_singleton _, ?_⟩
    intro key member key' last
    obtain ⟨e, inside, rfl⟩ := List.mem_map.mp member
    rw [List.mem_singleton.mp last]
    exact others e inside
  · intro e member e' last t t' stands stands'
    rw [List.mem_singleton.mp last, stands_snoc_self binds] at stands'
    rw [stands_snoc_of_ne binds (others e member)] at stands
    exact stands'.1 ▸ stands.lt

end

/-- The first entry with a property is the oldest binding with it. -/
theorem Listed.find?_some {l : List (κ × ν)} (listed : Listed effect calls l) {p : κ × ν → Bool} {e : κ × ν}
    (found : l.find? p = some e) :
    p e = true ∧ ∃ t, Stands effect calls t e.1 e.2 ∧
      ∀ t' k' v', Stands effect calls t' k' v' → p (k', v') = true → t ≤ t' := by
  obtain ⟨holds, before, after, split, skipped⟩ := List.find?_eq_some_iff_append.mp found
  have member : (e.1, e.2) ∈ l := by simp [split]
  obtain ⟨t, stands⟩ := (listed.mem e.1 e.2).mp member
  refine ⟨holds, t, stands, fun t' k' v' stands' holds' => ?_⟩
  have member' := (listed.mem k' v').mpr ⟨t', stands'⟩
  have order := listed.order
  rw [split] at member' order
  -- an entry before the found one has not the property, and one behind it is younger
  rcases List.mem_append.mp member' with early | late
  · have := skipped _ early
    simp [holds'] at this
  · rcases List.mem_cons.mp late with rfl | late
    · exact Nat.le_of_eq (stands.place stands')
    · have below := (List.pairwise_cons.mp (List.pairwise_append.mp order).2.1).1 _ late
      exact Nat.le_of_lt (below t t' stands stands')

theorem Listed.find?_none {l : List (κ × ν)} (listed : Listed effect calls l) {p : κ × ν → Bool}
    (missing : l.find? p = none) (stands : Stands effect calls t k v) : p (k, v) = false := by
  have member := (listed.mem k v).mpr ⟨t, stands⟩
  simpa using List.find?_eq_none.mp missing _ member

end Foundation.History
