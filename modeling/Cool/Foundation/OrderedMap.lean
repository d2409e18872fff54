import Mathlib.Data.List.Lex
import Mathlib.Order.Lattice

/-!
# Maps ordered by a comparator

An ordered map kept as the list of its entries in the order of their keys, with the look-up and the
assignment of a search tree. The comparator compares what a function `f` reads off the keys, so that
keys of one class are one key.
-/

namespace Foundation.OrderedMap

variable {α β κ : Type*} {lt : α → α → Bool} {f : α → κ} {m l : List (α × β)}
  {key : α} {val : β} {e : α × β}

def set (lt : α → α → Bool) (m : List (α × β)) (key : α) (val : β) : List (α × β) :=
  match m with
  | [] => [(key, val)]
  | e :: m =>
    if lt e.1 key then e :: set lt m key val
    else if lt key e.1 then (key, val) :: e :: m
    else (e.1, val) :: m

def setAll (lt : α → α → Bool) (m l : List (α × β)) : List (α × β) :=
  l.foldl (fun m e => set lt m e.1 e.2) m

theorem setAll_append (m l r : List (α × β)) : setAll lt m (l ++ r) = setAll lt (setAll lt m l) r :=
  List.foldl_append

def find (lt : α → α → Bool) (m : List (α × β)) (key : α) : Option β :=
  (m.find? fun e => !lt e.1 key && !lt key e.1).map Prod.snd

def erase (lt : α → α → Bool) (m : List (α × β)) (key : α) : List (α × β) :=
  m.filter fun e => lt e.1 key || lt key e.1

/-- The insertion of a multimap, behind all keys that are not greater. -/
def insert (lt : α → α → Bool) (m : List (α × β)) (key : α) (val : β) : List (α × β) :=
  match m with
  | [] => [(key, val)]
  | e :: m => if lt key e.1 then (key, val) :: e :: m else e :: insert lt m key val

def insertAll (lt : α → α → Bool) (m l : List (α × β)) : List (α × β) :=
  l.foldl (fun m e => insert lt m e.1 e.2) m

def equalRange (lt : α → α → Bool) (m : List (α × β)) (key : α) : List (α × β) :=
  m.filter fun e => !lt e.1 key && !lt key e.1

def Fresh (f : α → κ) (m : List (α × β)) (key : α) : Prop := ∀ e ∈ m, f e.1 ≠ f key

/-- No two entries of the one list or of both have one key. -/
def Apart (f : α → κ) (m l : List (α × β)) : Prop :=
  (l.Pairwise fun e e' => f e.1 ≠ f e'.1) ∧ ∀ e ∈ l, Fresh f m e.1

theorem Fresh.tail (fresh : Fresh f (e :: m) key) : Fresh f m key :=
  fun e member => fresh e (List.mem_cons_of_mem _ member)

variable [LinearOrder κ]

def Compares (lt : α → α → Bool) (f : α → κ) : Prop := ∀ a b, lt a b = true ↔ f a < f b

def Ordered (f : α → κ) (m : List (α × β)) : Prop := m.Pairwise fun e e' => f e.1 < f e'.1

theorem set_cases (compares : Compares lt f) (e : α × β) (m : List (α × β)) (fresh : f e.1 ≠ f key) :
    (f e.1 < f key ∧ set lt (e :: m) key val = e :: set lt m key val) ∨
      (f key < f e.1 ∧ set lt (e :: m) key val = (key, val) :: e :: m) := by
  rw [set]
  rcases lt_or_gt_of_ne fresh with below | above
  · exact .inl ⟨below, if_pos ((compares _ _).mpr below)⟩
  · refine .inr ⟨above, ?_⟩
    rw [if_neg (fun below => lt_asymm above ((compares _ _).mp below)), if_pos ((compares _ _).mpr above)]

theorem mem_set (compares : Compares lt f) (fresh : Fresh f m key) :
    e ∈ set lt m key val ↔ e = (key, val) ∨ e ∈ m := by
  induction m with
  | nil => simp [set]
  | cons d m ih =>
    rcases set_cases compares d m (fresh d List.mem_cons_self) with ⟨-, eq⟩ | ⟨-, eq⟩
    · rw [eq, List.mem_cons, ih fresh.tail, List.mem_cons]
      tauto
    · rw [eq, List.mem_cons]

theorem ordered_set (compares : Compares lt f) (ordered : Ordered f m) (fresh : Fresh f m key) :
    Ordered f (set lt m key val) := by
  induction m with
  | nil => simp [set, Ordered]
  | cons d m ih =>
    obtain ⟨below, rest⟩ := List.pairwise_cons.mp ordered
    rcases set_cases compares d m (fresh d List.mem_cons_self) with ⟨before, eq⟩ | ⟨after, eq⟩
    · rw [eq]
      refine List.pairwise_cons.mpr ⟨fun e member => ?_, ih rest fresh.tail⟩
      rcases (mem_set compares fresh.tail).mp member with rfl | member
      · exact before
      · exact below e member
    · rw [eq]
      refine List.pairwise_cons.mpr ⟨fun e member => ?_, ordered⟩
      rcases List.mem_cons.mp member with rfl | member
      · exact after
      · exact lt_trans after (below e member)

/-- A key above all others goes to the end. -/
theorem set_last (compares : Compares lt f) (above : ∀ e ∈ m, f e.1 < f key) :
    set lt m key val = m ++ [(key, val)] := by
  induction m with
  | nil => rfl
  | cons d m ih =>
    rw [set, if_pos ((compares _ _).mpr (above d List.mem_cons_self)),
      ih fun e member => above e (List.mem_cons_of_mem _ member)]
    rfl

/-- A key below all others goes to the front. -/
theorem set_first (compares : Compares lt f) (below : ∀ e ∈ m, f key < f e.1) :
    set lt m key val = (key, val) :: m := by
  cases m with
  | nil => rfl
  | cons d m =>
    have first := below d List.mem_cons_self
    rcases set_cases compares d m (ne_of_gt first) with ⟨before, -⟩ | ⟨-, eq⟩
    · exact absurd before (lt_asymm first)
    · exact eq

/-- Assigning a new key and leaving out some keys commute. -/
theorem filter_set (compares : Compares lt f) (ordered : Ordered f m) (fresh : Fresh f m key)
    (P : α → Bool) :
    (set lt m key val).filter (fun e => P e.1) =
      if P key then set lt (m.filter fun e => P e.1) key val else m.filter fun e => P e.1 := by
  induction m with
  | nil => simp only [set, List.filter_cons, List.filter_nil]
  | cons d m ih =>
    obtain ⟨below, rest⟩ := List.pairwise_cons.mp ordered
    have later := ih rest fresh.tail
    rcases set_cases compares d m (fresh d List.mem_cons_self) with ⟨before, eq⟩ | ⟨after, eq⟩
    · rw [eq, List.filter_cons, List.filter_cons, later]
      split
      · split
        · rw [set, if_pos ((compares _ _).mpr before)]
        · rfl
      · rfl
    · have first : ∀ e ∈ (d :: m).filter (fun e => P e.1), f key < f e.1 := by
        intro e member
        rcases List.mem_cons.mp (List.mem_of_mem_filter member) with rfl | member
        · exact after
        · exact lt_trans after (below e member)
      rw [eq, List.filter_cons, set_first compares first]

theorem Compares.equal_iff (compares : Compares lt f) (a b : α) : (!lt a b && !lt b a) = true ↔ f a = f b := by
  simp only [Bool.and_eq_true, Bool.not_eq_true', ← Bool.not_eq_true, compares a b, compares b a, not_lt]
  exact ⟨fun both => le_antisymm both.2 both.1, fun same => ⟨same.ge, same.le⟩⟩

/-- A strict total order that goes with an equality: of two keys exactly one is below the other, or they are equal. -/
structure StrictTotal (lt eq : α → α → Bool) : Prop where
  irrefl : ∀ a, lt a a = false
  trans : ∀ a b c, lt a b = true → lt b c = true → lt a c = true
  trichotomy : ∀ a b, lt a b = true ∧ lt b a = false ∧ eq a b = false ∨
    lt a b = false ∧ lt b a = true ∧ eq a b = false ∨ lt a b = false ∧ lt b a = false ∧ eq a b = true

theorem Compares.strictTotal (compares : Compares lt f) {eq : α → α → Bool} (equal : ∀ a b, eq a b = true ↔ f a = f b) :
    StrictTotal lt eq := by
  have less (a b : α) : lt a b = false ↔ ¬ f a < f b := by rw [← compares a b, Bool.not_eq_true]
  have unequal (a b : α) : eq a b = false ↔ f a ≠ f b := by rw [ne_eq, ← equal a b, Bool.not_eq_true]
  refine ⟨fun a => (less a a).mpr (lt_irrefl _), fun a b c first second => ?_, fun a b => ?_⟩
  · exact (compares a c).mpr (lt_trans ((compares a b).mp first) ((compares b c).mp second))
  · rw [compares a b, compares b a, less a b, less b a, equal, unequal]
    rcases lt_trichotomy (f a) (f b) with below | same | above
    · exact .inl ⟨below, lt_asymm below, ne_of_lt below⟩
    · exact .inr (.inr ⟨not_lt_of_ge same.ge, not_lt_of_ge same.le, same⟩)
    · exact .inr (.inl ⟨lt_asymm above, above, (ne_of_lt above).symm⟩)

theorem find_cons (compares : Compares lt f) (e : α × β) (m : List (α × β)) (key : α) :
    find lt (e :: m) key = if f e.1 = f key then some e.2 else find lt m key := by
  unfold find
  rw [List.find?_cons]
  by_cases same : f e.1 = f key
  · rw [(compares.equal_iff e.1 key).mpr same, if_pos same]
    rfl
  · rw [Bool.eq_false_iff.mpr (mt (compares.equal_iff e.1 key).mp same), if_neg same]

theorem find_of_mem (compares : Compares lt f) (ordered : Ordered f m) (member : e ∈ m)
    (same : f e.1 = f key) : find lt m key = some e.2 := by
  induction m with
  | nil => cases member
  | cons d m ih =>
    obtain ⟨below, rest⟩ := List.pairwise_cons.mp ordered
    rw [find_cons compares]
    rcases List.mem_cons.mp member with rfl | later
    · rw [if_pos same]
    · have before : f d.1 < f key := same ▸ below e later
      rw [if_neg (ne_of_lt before), ih rest later]

theorem find_of_fresh (compares : Compares lt f) (fresh : Fresh f m key) : find lt m key = none := by
  induction m with
  | nil => rfl
  | cons d m ih => rw [find_cons compares, if_neg (fresh d List.mem_cons_self), ih fresh.tail]

theorem find_congr (compares : Compares lt f) {k : α} (same : f key = f k) (m : List (α × β)) :
    find lt m key = find lt m k := by
  induction m with
  | nil => rfl
  | cons e m ih => rw [find_cons compares, find_cons compares, ih, same]

/-- An assignment is seen at the keys of its class, also where there was one before. -/
theorem find_set (compares : Compares lt f) (m : List (α × β)) (key : α) (val : β) (k : α) :
    find lt (set lt m key val) k = if f key = f k then some val else find lt m k := by
  induction m with
  | nil => exact find_cons compares (key, val) [] k
  | cons e m ih =>
    rw [set]
    split
    · rename_i below
      have before := (compares _ _).mp below
      rw [find_cons compares, find_cons compares, ih]
      by_cases here : f e.1 = f k
      · rw [if_pos here, if_neg (fun same => ne_of_lt before (here.trans same.symm)), if_pos here]
      · rw [if_neg here, if_neg here]
    · split
      · exact find_cons compares (key, val) (e :: m) k
      · rename_i notBelow notAbove
        have same : f e.1 = f key := (compares.equal_iff e.1 key).mp (by simp [notBelow, notAbove])
        rw [find_cons compares, find_cons compares, same]
        split <;> rfl

theorem find_erase (compares : Compares lt f) (m : List (α × β)) (key k : α) :
    find lt (erase lt m key) k = if f key = f k then none else find lt m k := by
  induction m with
  | nil => exact (ite_self _).symm
  | cons e m ih =>
    have kept : (lt e.1 key || lt key e.1) = true ↔ f e.1 ≠ f key := by
      rw [Bool.or_eq_true, compares, compares]
      exact ne_iff_lt_or_gt.symm
    unfold erase at ih ⊢
    rw [List.filter_cons]
    by_cases same : f e.1 = f key
    · rw [if_neg (fun keep => kept.mp keep same), ih, find_cons compares, same]
      split <;> rfl
    · rw [if_pos (kept.mpr same), find_cons compares, find_cons compares, ih]
      by_cases here : f e.1 = f k
      · rw [if_pos here, if_neg (fun same' => same (here.trans same'.symm)), if_pos here]
      · rw [if_neg here, if_neg here]

/-! ### Many assignments -/

theorem Apart.step (apart : Apart f m (e :: l)) (compares : Compares lt f) :
    Apart f (set lt m e.1 e.2) l := by
  obtain ⟨others, rest⟩ := List.pairwise_cons.mp apart.1
  refine ⟨rest, fun d member b inside => ?_⟩
  rcases (mem_set compares (apart.2 e List.mem_cons_self)).mp inside with rfl | inside
  · exact others d member
  · exact apart.2 d (List.mem_cons_of_mem _ member) b inside

theorem ordered_setAll (compares : Compares lt f) (ordered : Ordered f m) (apart : Apart f m l) :
    Ordered f (setAll lt m l) := by
  induction l generalizing m with
  | nil => exact ordered
  | cons d l ih =>
    exact ih (ordered_set compares ordered (apart.2 d List.mem_cons_self)) (apart.step compares)

theorem mem_setAll (compares : Compares lt f) (apart : Apart f m l) :
    e ∈ setAll lt m l ↔ e ∈ m ∨ e ∈ l := by
  induction l generalizing m with
  | nil => simp [setAll]
  | cons d l ih =>
    rw [show setAll lt m (d :: l) = setAll lt (set lt m d.1 d.2) l from rfl, ih (apart.step compares),
      mem_set compares (apart.2 d List.mem_cons_self), List.mem_cons]
    tauto

theorem filter_setAll (compares : Compares lt f) (ordered : Ordered f m) (apart : Apart f m l)
    (P : α → Bool) :
    (setAll lt m l).filter (fun e => P e.1) =
      setAll lt (m.filter fun e => P e.1) (l.filter fun e => P e.1) := by
  induction l generalizing m with
  | nil => rfl
  | cons d l ih =>
    have fresh := apart.2 d List.mem_cons_self
    rw [show setAll lt m (d :: l) = setAll lt (set lt m d.1 d.2) l from rfl,
      ih (ordered_set compares ordered fresh) (apart.step compares),
      filter_set compares ordered fresh, List.filter_cons]
    split <;> rfl

/-- The entries of a map in their own order build the map. -/
theorem setAll_ordered (compares : Compares lt f) (ordered : Ordered f (m ++ l)) :
    setAll lt m l = m ++ l := by
  induction l generalizing m with
  | nil => exact (List.append_nil m).symm
  | cons d l ih =>
    have above : ∀ e ∈ m, f e.1 < f d.1 := fun e member =>
      (List.pairwise_append.mp ordered).2.2 e member d List.mem_cons_self
    rw [show setAll lt m (d :: l) = setAll lt (set lt m d.1 d.2) l from rfl, set_last compares above, ih]
    · rw [List.append_assoc]
      rfl
    · rw [List.append_assoc]
      exact ordered

/-! ### Many values for a key -/

omit [LinearOrder κ] in
theorem perm_insert (m : List (α × β)) (key : α) (val : β) : (insert lt m key val).Perm ((key, val) :: m) := by
  induction m with
  | nil => exact .refl _
  | cons e m ih =>
    rw [insert]
    split
    · exact .refl _
    · exact (ih.cons e).trans (.swap _ _ _)

def Sorted (f : α → κ) (m : List (α × β)) : Prop := m.Pairwise fun e e' => f e.1 ≤ f e'.1

theorem sorted_insert (compares : Compares lt f) (sorted : Sorted f m) : Sorted f (insert lt m key val) := by
  induction m with
  | nil => exact List.pairwise_singleton _ _
  | cons e m ih =>
    obtain ⟨above, rest⟩ := List.pairwise_cons.mp sorted
    rw [insert]
    split
    · rename_i below
      have first := (compares _ _).mp below
      refine List.pairwise_cons.mpr ⟨fun d member => ?_, sorted⟩
      rcases List.mem_cons.mp member with rfl | later
      · exact first.le
      · exact first.le.trans (above d later)
    · rename_i notBelow
      refine List.pairwise_cons.mpr ⟨fun d member => ?_, ih rest⟩
      rcases List.mem_cons.mp ((perm_insert m key val).mem_iff.mp member) with rfl | old
      · exact not_lt.mp fun below => notBelow ((compares _ _).mpr below)
      · exact above d old

/-- A new entry goes behind the ones that have its key. -/
theorem equalRange_insert (compares : Compares lt f) (sorted : Sorted f m) (k : α) :
    equalRange lt (insert lt m key val) k =
      equalRange lt m k ++ if f key = f k then [(key, val)] else [] := by
  have inRange (e : α × β) : (!lt e.1 k && !lt k e.1) = decide (f e.1 = f k) := by
    rw [Bool.eq_iff_iff, compares.equal_iff, decide_eq_true_eq]
  simp only [equalRange, inRange]
  induction m with
  | nil => by_cases same : f key = f k <;> simp [insert, same]
  | cons e m ih =>
    obtain ⟨above, rest⟩ := List.pairwise_cons.mp sorted
    rw [insert]
    split
    · rename_i below
      have first := (compares _ _).mp below
      by_cases same : f key = f k
      · have none : (e :: m).filter (fun e => decide (f e.1 = f k)) = [] := by
          rw [List.filter_eq_nil_iff]
          intro d member found
          have here := of_decide_eq_true found
          rcases List.mem_cons.mp member with rfl | later
          · exact absurd (here.trans same.symm) first.ne'
          · exact absurd (here.trans same.symm) (first.trans_le (above d later)).ne'
        rw [List.filter_cons, none]
        simp [same]
      · rw [List.filter_cons, if_neg (by simpa using same), if_neg same, List.append_nil]
    · rw [List.filter_cons, List.filter_cons, ih rest]
      split <;> simp

omit [LinearOrder κ] in
theorem perm_insertAll (m l : List (α × β)) : (insertAll lt m l).Perm (m ++ l) := by
  induction l generalizing m with
  | nil =>
    rw [List.append_nil]
    exact .refl m
  | cons e l ih =>
    exact (ih _).trans (((perm_insert m e.1 e.2).append_right l).trans List.perm_middle.symm)

omit [LinearOrder κ] in
theorem insertAll_eq_nil {m l : List (α × β)} : insertAll lt m l = [] ↔ m = [] ∧ l = [] := by
  rw [← List.length_eq_zero_iff, (perm_insertAll m l).length_eq, List.length_eq_zero_iff, List.append_eq_nil_iff]

theorem equalRange_insertAll (compares : Compares lt f) [DecidableEq κ] (sorted : Sorted f m) (k : α) :
    equalRange lt (insertAll lt m l) k = equalRange lt m k ++ l.filter fun e => decide (f e.1 = f k) := by
  induction l generalizing m with
  | nil => exact (List.append_nil _).symm
  | cons e l ih =>
    rw [insertAll, List.foldl_cons, ← insertAll, ih (sorted_insert compares sorted),
      equalRange_insert compares sorted, List.append_assoc, List.filter_cons]
    by_cases same : f e.1 = f k <;> simp [same]

end Foundation.OrderedMap
