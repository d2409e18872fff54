import Cool.Config.FromString
import Cool.Log.Cast
import Mathlib.Data.Finmap

/-!
# The casts of containers

The specialisations of `LexicalCast` for containers. An element goes through text and YAML on the way
out, and through YAML and text on the way back, so it is its own cast that says what becomes of it.
Containers may hold containers, to any depth.
-/

namespace Cool

open Foundation ConfigVar

/-- `LexicalCast<std::string, T>` and `LexicalCast<T, std::string>`, with texts `δ`. -/
structure Casts (δ α : Type) where
  fromStr : δ → Except Thrown α
  toStr : α → Except Thrown δ

/-- What comes back from the text of a value. -/
def Casts.Returns {δ α : Type} (c : Casts δ α) (x x' : α) : Prop :=
  ∃ text, c.toStr x = .ok text ∧ c.fromStr text = .ok x'

/-- `YAML::Load` and the printing of a node; a node that is not there is printed as nothing. -/
structure YamlText (δ : Type) where
  load : δ → Except Thrown YamlNode
  emit : YamlNode → δ
  blank : δ
  preserves : ∀ node, load (emit node) = .ok node

/-- `operator<` of the elements of a set. -/
structure Less (α : Type) where
  lt : α → α → Bool
  trans : ∀ x y z, lt x y = true → lt y z = true → lt x z = true

/-- `std::set`, in its order. -/
@[ext]
structure StdSet {α : Type} (less : Less α) where
  items : List α
  ordered : OrderedSet.Ordered less.lt items
  deriving DecidableEq

namespace StdSet

variable {α : Type} {less : Less α}

def empty : StdSet less := ⟨[], .nil⟩

def insert (s : StdSet less) (x : α) : StdSet less :=
  ⟨OrderedSet.insert less.lt x s.items, OrderedSet.ordered_insert less.trans s.ordered⟩

/-- What the calls of `insert` make of an empty set. -/
def ofList (less : Less α) (l : List α) : StdSet less := l.foldl insert empty

theorem items_foldl {s : StdSet less} {l : List α} (ordered : OrderedSet.Ordered less.lt (s.items ++ l)) :
    (l.foldl insert s).items = s.items ++ l := by
  -- the set so far is below all that come, so every insertion is at its end
  induction l generalizing s with
  | nil => exact (List.append_nil _).symm
  | cons x l ih =>
    have above : ∀ y ∈ s.items, less.lt y x = true := fun y member =>
      (List.pairwise_append.mp ordered).2.2 y member x List.mem_cons_self
    have last : (s.insert x).items = s.items ++ [x] := OrderedSet.insert_last above
    have moved : (s.insert x).items ++ l = s.items ++ x :: l := by rw [last, List.append_assoc, List.singleton_append]
    rw [List.foldl_cons, ih (moved ▸ ordered), moved]

theorem items_ofList {l : List α} (ordered : OrderedSet.Ordered less.lt l) : (ofList less l).items = l :=
  items_foldl (s := empty) ordered

end StdSet

/-- Keys are compared, as they are in `std::map<std::string, T>`. -/
def keyLess (α : Type) : Less (Text × α) where
  lt e e' := decide (e.1 < e'.1)
  trans _ _ _ first second := decide_eq_true (lt_trans (of_decide_eq_true first) (of_decide_eq_true second))

/-- The pairs that are met between `begin()` and `end()`: an item of a sequence has no `first`. -/
def YamlNode.members : YamlNode → Except Thrown (List (Text × YamlNode))
  | .map entries => .ok entries
  | .seq (_ :: _) => .error .std
  | _ => .ok []

namespace YamlText

variable {δ α γ : Type} (y : YamlText δ)

/-- `ss << node[i]`. -/
def print : Option YamlNode → δ
  | some node => y.emit node
  | none => y.blank

/-- `YAML::Load(LexicalCast<T, std::string>()(i))`. -/
def write (c : Casts δ α) (x : α) : Except Thrown YamlNode := do y.load (← c.toStr x)

/-- A container that is walked, and built from what is read. -/
def elementsCast (c : Casts δ α) (walk : γ → List α) (build : List α → γ) : Casts δ γ where
  toStr g := do
    let items ← (walk g).mapM (y.write c)
    return y.emit (.ofItems items)
  fromStr text := do
    let node ← y.load text
    let items ← node.elements.mapM fun e => c.fromStr (y.print e)
    return build items

def entriesCast (c : Casts δ α) (walk : γ → List (Text × α)) (build : List (Text × α) → γ) : Casts δ γ where
  toStr g := do
    let entries ← (walk g).mapM fun e => do return (e.1, ← y.write c e.2)
    return y.emit (.ofEntries entries)
  fromStr text := do
    let node ← y.load text
    let entries ← (← node.members).mapM fun e => do return (e.1, ← c.fromStr (y.emit e.2))
    return build entries

section

variable (c : Casts δ α)

def vector : Casts δ (List α) := y.elementsCast c id id

def list : Casts δ (List α) := y.elementsCast c id id

def set (less : Less α) : Casts δ (StdSet less) := y.elementsCast c StdSet.items (StdSet.ofList less)

/-- `order` is how the container is walked. -/
def unorderedSet [DecidableEq α] (order : Finset α → List α) : Casts δ (Finset α) :=
  y.elementsCast c order List.toFinset

def map : Casts δ (StdSet (keyLess α)) := y.entriesCast c StdSet.items (StdSet.ofList (keyLess α))

def unorderedMap (order : Finmap (fun _ : Text => α) → List (Text × α)) : Casts δ (Finmap fun _ : Text => α) :=
  y.entriesCast c order fun l => (l.map fun e => ⟨e.1, e.2⟩).toFinmap

end

/-! ### One element -/

/-- What an element comes back as. -/
def Decodes (c : Casts δ α) (x x' : α) : Prop := ∃ node, y.write c x = .ok node ∧ c.fromStr (y.emit node) = .ok x'

end YamlText

theorem pure_ok_iff {ε α : Type} {a b : α} : (pure a : Except ε α) = .ok b ↔ a = b :=
  ⟨Except.ok.inj, congrArg Except.ok⟩

theorem mapM_ok_iff {ε α β : Type} {f : α → Except ε β} {l : List α} {l' : List β} :
    l.mapM f = .ok l' ↔ List.Forall₂ (fun x x' => f x = .ok x') l l' := by
  induction l generalizing l' with
  | nil =>
    rw [List.mapM_nil, List.forall₂_nil_left_iff]
    exact ⟨fun same => (Except.ok.inj same).symm, fun same => congrArg _ same.symm⟩
  | cons x l ih =>
    rw [List.mapM_cons, bind_ok_iff, List.forall₂_cons_left_iff]
    apply exists_congr
    intro x'
    rw [bind_ok_iff]
    constructor
    · rintro ⟨first, rest, later, same⟩
      exact ⟨rest, first, ih.mp later, (Except.ok.inj same).symm⟩
    · rintro ⟨rest, first, later, rfl⟩
      exact ⟨first, rest, ih.mpr later, rfl⟩

/-- Two passes over a list, the second over what the first returns. -/
theorem forall₂_comp {α β γ : Type} {P : α → β → Prop} {Q : β → γ → Prop} {l : List α} {r : List γ} :
    List.Forall₂ (fun x z => ∃ y, P x y ∧ Q y z) l r ↔ ∃ m, List.Forall₂ P l m ∧ List.Forall₂ Q m r := by
  constructor
  · intro both
    induction both with
    | nil => exact ⟨[], .nil, .nil⟩
    | cons first _ ih =>
      obtain ⟨y, p, q⟩ := first
      obtain ⟨m, ps, qs⟩ := ih
      exact ⟨y :: m, .cons p ps, .cons q qs⟩
  · rintro ⟨m, ps, qs⟩
    induction ps generalizing r with
    | nil =>
      cases qs
      exact .nil
    | cons p _ ih =>
      cases qs with
      | cons q qs => exact .cons ⟨_, p, q⟩ (ih qs)

namespace YamlText

variable {δ α γ : Type} {y : YamlText δ} {c : Casts δ α} {g g' : γ}

section

variable {walk : γ → List α} {build : List α → γ}

theorem elements_toStr {text : δ} : (y.elementsCast c walk build).toStr g = .ok text ↔
    ∃ items, List.Forall₂ (fun x node => y.write c x = .ok node) (walk g) items ∧ y.emit (.ofItems items) = text := by
  rw [elementsCast, bind_ok_iff]
  apply exists_congr
  intro items
  rw [mapM_ok_iff]
  exact and_congr_right fun _ => pure_ok_iff

theorem elements_fromStr {items : List YamlNode} :
    (y.elementsCast c walk build).fromStr (y.emit (.ofItems items)) = .ok g' ↔
      ∃ decoded, List.Forall₂ (fun node x => c.fromStr (y.emit node) = .ok x) items decoded ∧ build decoded = g' := by
  constructor
  · intro back
    obtain ⟨node, loaded, rest⟩ := bind_ok_iff.mp back
    rw [y.preserves] at loaded
    cases loaded
    obtain ⟨decoded, reads, built⟩ := bind_ok_iff.mp rest
    rw [LexicalCast.elements_ofItems, mapM_ok_iff, List.forall₂_map_left_iff] at reads
    exact ⟨decoded, reads, pure_ok_iff.mp built⟩
  · rintro ⟨decoded, reads, built⟩
    apply bind_ok_iff.mpr
    refine ⟨_, y.preserves _, bind_ok_iff.mpr ⟨decoded, ?_, pure_ok_iff.mpr built⟩⟩
    rw [LexicalCast.elements_ofItems, mapM_ok_iff, List.forall₂_map_left_iff]
    exact reads

/-- A container comes back as what its elements come back as. -/
theorem elements_returns : (y.elementsCast c walk build).Returns g g' ↔
    ∃ decoded, List.Forall₂ (y.Decodes c) (walk g) decoded ∧ build decoded = g' := by
  constructor
  · rintro ⟨text, written, back⟩
    obtain ⟨items, writes, rfl⟩ := elements_toStr.mp written
    obtain ⟨decoded, reads, built⟩ := elements_fromStr.mp back
    exact ⟨decoded, forall₂_comp.mpr ⟨items, writes, reads⟩, built⟩
  · rintro ⟨decoded, each, built⟩
    obtain ⟨items, writes, reads⟩ := forall₂_comp.mp each
    exact ⟨_, elements_toStr.mpr ⟨items, writes, rfl⟩, elements_fromStr.mpr ⟨decoded, reads, built⟩⟩

theorem elements_decodes :
    y.Decodes (y.elementsCast c walk build) g g' ↔ (y.elementsCast c walk build).Returns g g' := by
  constructor
  · rintro ⟨node, written, back⟩
    obtain ⟨text, told, loaded⟩ := bind_ok_iff.mp written
    obtain ⟨items, writes, rfl⟩ := elements_toStr.mp told
    rw [y.preserves] at loaded
    cases loaded
    exact ⟨_, told, back⟩
  · rintro ⟨text, told, back⟩
    obtain ⟨items, writes, rfl⟩ := elements_toStr.mp told
    exact ⟨_, bind_ok_iff.mpr ⟨_, told, y.preserves _⟩, back⟩

end

section

variable {walk : γ → List (Text × α)} {build : List (Text × α) → γ}

/-- The key of an entry is kept. -/
def Entry {β : Type} (R : α → β → Prop) (e : Text × α) (e' : Text × β) : Prop := e.1 = e'.1 ∧ R e.2 e'.2

theorem entry_ok_iff {β : Type} {f : α → Except Thrown β} {e : Text × α} {e' : Text × β} :
    (do return (e.1, ← f e.2)) = (.ok e' : Except Thrown (Text × β)) ↔ Entry (fun x x' => f x = .ok x') e e' := by
  obtain ⟨key, x⟩ := e
  obtain ⟨key', x'⟩ := e'
  rw [bind_ok_iff]
  constructor
  · rintro ⟨a, ok, same⟩
    obtain ⟨rfl, rfl⟩ := Prod.mk.inj (pure_ok_iff.mp same)
    exact ⟨rfl, ok⟩
  · rintro ⟨rfl, ok⟩
    exact ⟨x', ok, rfl⟩

theorem entries_toStr {text : δ} : (y.entriesCast c walk build).toStr g = .ok text ↔
    ∃ entries, List.Forall₂ (Entry fun x node => y.write c x = .ok node) (walk g) entries ∧
      y.emit (.ofEntries entries) = text := by
  rw [entriesCast, bind_ok_iff]
  apply exists_congr
  intro entries
  rw [mapM_ok_iff]
  simp only [entry_ok_iff]
  exact and_congr_right fun _ => pure_ok_iff

theorem members_ofEntries (entries : List (Text × YamlNode)) : (YamlNode.ofEntries entries).members = .ok entries := by
  cases entries <;> rfl

theorem entries_fromStr {entries : List (Text × YamlNode)} :
    (y.entriesCast c walk build).fromStr (y.emit (.ofEntries entries)) = .ok g' ↔
      ∃ decoded, List.Forall₂ (Entry fun node x => c.fromStr (y.emit node) = .ok x) entries decoded ∧
        build decoded = g' := by
  constructor
  · intro back
    obtain ⟨node, loaded, rest⟩ := bind_ok_iff.mp back
    rw [y.preserves] at loaded
    cases loaded
    obtain ⟨pairs, listed, rest⟩ := bind_ok_iff.mp rest
    rw [members_ofEntries] at listed
    cases listed
    obtain ⟨decoded, reads, built⟩ := bind_ok_iff.mp rest
    exact ⟨decoded, (mapM_ok_iff.mp reads).imp fun _ _ => entry_ok_iff.mp, pure_ok_iff.mp built⟩
  · rintro ⟨decoded, reads, built⟩
    apply bind_ok_iff.mpr
    refine ⟨_, y.preserves _, bind_ok_iff.mpr ⟨_, members_ofEntries entries, bind_ok_iff.mpr ⟨decoded, ?_, ?_⟩⟩⟩
    · exact mapM_ok_iff.mpr (reads.imp fun _ _ => entry_ok_iff.mpr)
    · exact pure_ok_iff.mpr built

theorem entry_comp {β : Type} {P : α → β → Prop} {Q : β → α → Prop} {e e' : Text × α} :
    Entry (fun x z => ∃ m, P x m ∧ Q m z) e e' ↔ ∃ m, Entry P e m ∧ Entry Q m e' := by
  constructor
  · rintro ⟨same, m, p, q⟩
    exact ⟨(e.1, m), ⟨rfl, p⟩, same, q⟩
  · rintro ⟨m, ⟨first, p⟩, second, q⟩
    exact ⟨first.trans second, m.2, p, q⟩

theorem entries_returns : (y.entriesCast c walk build).Returns g g' ↔
    ∃ decoded, List.Forall₂ (Entry (y.Decodes c)) (walk g) decoded ∧ build decoded = g' := by
  constructor
  · rintro ⟨text, written, back⟩
    obtain ⟨entries, writes, rfl⟩ := entries_toStr.mp written
    obtain ⟨decoded, reads, built⟩ := entries_fromStr.mp back
    refine ⟨decoded, ?_, built⟩
    exact (forall₂_comp.mpr ⟨entries, writes, reads⟩).imp fun _ _ => entry_comp.mpr
  · rintro ⟨decoded, each, built⟩
    obtain ⟨entries, writes, reads⟩ := forall₂_comp.mp (each.imp fun _ _ => entry_comp.mp)
    exact ⟨_, entries_toStr.mpr ⟨entries, writes, rfl⟩, entries_fromStr.mpr ⟨decoded, reads, built⟩⟩

theorem entries_decodes :
    y.Decodes (y.entriesCast c walk build) g g' ↔ (y.entriesCast c walk build).Returns g g' := by
  constructor
  · rintro ⟨node, written, back⟩
    obtain ⟨text, told, loaded⟩ := bind_ok_iff.mp written
    obtain ⟨entries, writes, rfl⟩ := entries_toStr.mp told
    rw [y.preserves] at loaded
    cases loaded
    exact ⟨_, told, back⟩
  · rintro ⟨text, told, back⟩
    obtain ⟨entries, writes, rfl⟩ := entries_toStr.mp told
    exact ⟨_, bind_ok_iff.mpr ⟨_, told, y.preserves _⟩, back⟩

end

/-! ### Containers in containers -/

/-- A cast that is built from casts of leaves, and what becomes of a value in terms of its leaves. -/
inductive Nested (y : YamlText δ) : {α : Type} → Casts δ α → (α → α → Prop) → Prop where
  | leaf {α : Type} (c : Casts δ α) : Nested y c (y.Decodes c)
  | elements {α γ : Type} {c : Casts δ α} {R : α → α → Prop} (walk : γ → List α) (build : List α → γ)
      (inner : Nested y c R) :
      Nested y (y.elementsCast c walk build) fun g g' => ∃ decoded, List.Forall₂ R (walk g) decoded ∧ build decoded = g'
  | entries {α γ : Type} {c : Casts δ α} {R : α → α → Prop} (walk : γ → List (Text × α))
      (build : List (Text × α) → γ) (inner : Nested y c R) :
      Nested y (y.entriesCast c walk build) fun g g' =>
        ∃ decoded, List.Forall₂ (Entry R) (walk g) decoded ∧ build decoded = g'

theorem Nested.decodes {R : α → α → Prop} (nested : Nested y c R) : y.Decodes c = R := by
  induction nested with
  | leaf => rfl
  | elements walk build inner ih =>
    funext g g'
    rw [elements_decodes, elements_returns, ih]
  | entries walk build inner ih =>
    funext g g'
    rw [entries_decodes, entries_returns, ih]

theorem keys_eq {R : α → α → Prop} {l l' : List (Text × α)} (each : List.Forall₂ (Entry R) l l') :
    l.map Prod.fst = l'.map Prod.fst := by
  induction each with
  | nil => rfl
  | cons first _ ih => rw [List.map_cons, List.map_cons, first.1, ih]

/-- Entries that keep their keys are in the order of a map. -/
theorem items_ofList_entries {R : α → α → Prop} {m : StdSet (keyLess α)} {decoded : List (Text × α)}
    (each : List.Forall₂ (Entry R) m.items decoded) : (StdSet.ofList (keyLess α) decoded).items = decoded := by
  apply StdSet.items_ofList
  have ordered : (m.items.map Prod.fst).Pairwise (· < ·) :=
    List.pairwise_map.mpr (m.ordered.imp fun below => of_decide_eq_true below)
  rw [keys_eq each, List.pairwise_map] at ordered
  exact ordered.imp fun below => decide_eq_true below

theorem elements_id_returns {R : α → α → Prop} (nested : Nested y c R) (v v' : List α) :
    (y.elementsCast c id id).Returns v v' ↔ List.Forall₂ R v v' := by
  rw [elements_returns, nested.decodes]
  constructor
  · rintro ⟨decoded, each, rfl⟩
    exact each
  · intro each
    exact ⟨v', each, rfl⟩

theorem map_returns {R : α → α → Prop} (nested : Nested y c R) (m m' : StdSet (keyLess α)) :
    (y.map c).Returns m m' ↔ List.Forall₂ (Entry R) m.items m'.items := by
  rw [map, entries_returns, nested.decodes]
  constructor
  · rintro ⟨decoded, each, rfl⟩
    rwa [items_ofList_entries each]
  · intro each
    exact ⟨m'.items, each, StdSet.ext (items_ofList_entries each)⟩

/-- For elements of any nesting: what a container comes back as, from its own text. -/
theorem containers_return {R : α → α → Prop} (nested : Nested y c R) :
    (∀ v v', (y.vector c).Returns v v' ↔ List.Forall₂ R v v') ∧
    (∀ v v', (y.list c).Returns v v' ↔ List.Forall₂ R v v') ∧
    (∀ less s s', (y.set c less).Returns s s' ↔
      ∃ decoded, List.Forall₂ R s.items decoded ∧ StdSet.ofList less decoded = s') ∧
    (∀ [DecidableEq α] (order : Finset α → List α) s s', (y.unorderedSet c order).Returns s s' ↔
      ∃ decoded, List.Forall₂ R (order s) decoded ∧ decoded.toFinset = s') ∧
    (∀ m m', (y.map c).Returns m m' ↔ List.Forall₂ (Entry R) m.items m'.items) ∧
    (∀ order m m', (y.unorderedMap c order).Returns m m' ↔
      ∃ decoded, List.Forall₂ (Entry R) (order m) decoded ∧
        (decoded.map fun e => ⟨e.1, e.2⟩ : List (Σ _ : Text, α)).toFinmap = m') := by
  refine ⟨elements_id_returns nested, elements_id_returns nested, fun less s s' => ?_, fun order s s' => ?_,
    map_returns nested, fun order m m' => ?_⟩
  · rw [set, elements_returns, nested.decodes]
  · rw [unorderedSet, elements_returns, nested.decodes]
  · rw [unorderedMap, entries_returns, nested.decodes]

/-- Nodes as texts of their own, and one more text that is not YAML. -/
def nodes : YamlText (Option YamlNode) where
  load
    | some node => .ok node
    | none => .error .std
  emit := some
  blank := some .null
  preserves _ := rfl

/-- Strings, where the word for a null node is read as one and printed as another, and a bracket is not YAML. -/
def words : Casts (Option YamlNode) Text where
  toStr text := .ok (if text = "[".toList then none else some (if text = "null".toList then .null else .scalar text))
  fromStr
    | some (.scalar text) => .ok text
    | some .null => .ok "~".toList
    | _ => .error .std

/-- A vector of strings comes back with another string in it. -/
theorem containers_return_words :
    (nodes.vector words).Returns ["a".toList, "null".toList] ["a".toList, "~".toList] :=
  ((containers_return (.leaf words)).1 _ _).mpr (.cons ⟨_, rfl, rfl⟩ (.cons ⟨_, rfl, rfl⟩ .nil))

end YamlText

/-! ### A variable and its own text -/

namespace ConfigVar

variable {δ τ α : Type}

/-- `to_string`; what is not a `std::exception` leaves it. -/
def toString (empty : δ) (c : Casts δ τ) (var : ConfigVar τ) : Except Thrown δ :=
  match c.toStr var.val with
  | .error .std => .ok empty
  | result => result

/-- `from_string(to_string())`. -/
def restore [DecidableEq τ] (empty : δ) (c : Casts δ τ) (cb : Listeners τ) (var : ConfigVar τ) :
    Except Thrown (Reply τ) :=
  (var.toString empty c).map (fromString c.fromStr cb var)

section

variable [DecidableEq τ] {empty : δ} {c : Casts δ τ} {cb : Listeners τ} {var : ConfigVar τ}

theorem restore_of_returns (returns : c.Returns var.val var.val) :
    restore empty c cb var = .ok ⟨some false, var, []⟩ := by
  obtain ⟨text, told, back⟩ := returns
  simp [restore, toString, told, fromString, back, trySetValue, Except.map]

theorem restore_of_error {v : τ} (quiet : ∀ key old v, cb key old v = none) (blank : c.fromStr empty = .ok v)
    (throws : c.toStr var.val = .error .std) :
    restore empty c cb var = .ok ⟨some false, (var.setValue v).1, (var.setValue v).2⟩ := by
  simp [restore, toString, throws, fromString, blank, trySetValue_quiet quiet, Except.map]

end

theorem mapM_error {β : Type} {f : α → Except Thrown β} {before after : List α} {x : α} {e : Thrown}
    (written : ∀ b ∈ before, ∃ r, f b = .ok r) (throws : f x = .error e) :
    (before ++ x :: after).mapM f = .error e := by
  induction before with
  | nil =>
    rw [List.nil_append, List.mapM_cons, throws]
    rfl
  | cons b before ih =>
    obtain ⟨r, first⟩ := written b List.mem_cons_self
    rw [List.cons_append, List.mapM_cons, first, ih fun b member => written b (List.mem_cons_of_mem _ member)]
    rfl

/-- The text of an element is not YAML, and those of the elements before it are. -/
def Unwritable (y : YamlText δ) (c : Casts δ α) (l : List α) : Prop :=
  ∃ before x after, l = before ++ x :: after ∧ (∀ b ∈ before, ∃ node, y.write c b = .ok node) ∧
    y.write c x = .error .std

variable {y : YamlText δ} {c : Casts δ α} {R : α → α → Prop}

theorem vector_error {v : List α} (unwritable : Unwritable y c v) : (y.vector c).toStr v = .error .std := by
  obtain ⟨before, x, after, rfl, written, throws⟩ := unwritable
  have failed : (before ++ x :: after).mapM (y.write c) = .error .std := mapM_error written throws
  show ((before ++ x :: after).mapM (y.write c) >>= _) = _
  rw [failed]
  rfl

theorem map_error {m : StdSet (keyLess α)} (unwritable : Unwritable y c (m.items.map Prod.snd)) :
    (y.map c).toStr m = .error .std := by
  obtain ⟨before, x, after, split, written, throws⟩ := unwritable
  obtain ⟨front, rest, items, rfl, behind⟩ := List.map_eq_append_iff.mp split
  obtain ⟨e, back, rfl, rfl, rfl⟩ := List.map_eq_cons_iff.mp behind
  have failed : (front ++ e :: back).mapM (fun e => do return (e.1, ← y.write c e.2)) = .error .std := by
    apply mapM_error
    · intro b member
      obtain ⟨node, ok⟩ := written b.2 (List.mem_map_of_mem member)
      exact ⟨(b.1, node), by rw [ok]; rfl⟩
    · rw [throws]
      rfl
  show (m.items.mapM _ >>= _) = _
  rw [items, failed]
  rfl

/-- A variable that is given its own text keeps its value where all elements come back as they are. Where
the text of one is not YAML, `to_string` returns the empty text and the variable becomes empty. -/
theorem restore_containers [DecidableEq α] (nested : y.Nested c R) {empty : δ} (blank : y.load empty = .ok .null)
    (cb : Listeners (List α)) (cb' : Listeners (StdSet (keyLess α)))
    (quiet : ∀ key old v, cb key old v = none) (quiet' : ∀ key old v, cb' key old v = none)
    (var : ConfigVar (List α)) (var' : ConfigVar (StdSet (keyLess α))) :
    ((∀ x ∈ var.val, R x x) → restore empty (y.vector c) cb var = .ok ⟨some false, var, []⟩) ∧
    (Unwritable y c var.val →
      restore empty (y.vector c) cb var = .ok ⟨some false, (var.setValue []).1, (var.setValue []).2⟩) ∧
    ((∀ e ∈ var'.val.items, R e.2 e.2) → restore empty (y.map c) cb' var' = .ok ⟨some false, var', []⟩) ∧
    (Unwritable y c (var'.val.items.map Prod.snd) →
      restore empty (y.map c) cb' var' = .ok ⟨some false, (var'.setValue .empty).1, (var'.setValue .empty).2⟩) := by
  refine ⟨fun same => ?_, fun unwritable => ?_, fun same => ?_, fun unwritable => ?_⟩
  · exact restore_of_returns ((YamlText.elements_id_returns nested _ _).mpr (List.forall₂_same.mpr same))
  · apply restore_of_error quiet
    · show (y.load empty >>= _) = _
      rw [blank]
      rfl
    · exact vector_error unwritable
  · apply restore_of_returns
    exact (YamlText.map_returns nested _ _).mpr (List.forall₂_same.mpr fun e member => ⟨rfl, same e member⟩)
  · apply restore_of_error quiet'
    · show (y.load empty >>= _) = _
      rw [blank]
      rfl
    · exact map_error unwritable

/-- A text that is not YAML empties the variable, and the listener is told. -/
theorem restore_containers_bracket :
    restore (some .null) (YamlText.nodes.vector YamlText.words) (fun _ _ _ => none) ⟨["[".toList], [1], 1, by decide⟩ =
      .ok ⟨some false, ⟨[], [1], 1, by decide⟩, [(1, ["[".toList], [])]⟩ :=
  (restore_containers (.leaf YamlText.words) rfl (fun _ _ _ => none) (fun _ _ _ => none) (fun _ _ _ => rfl)
    (fun _ _ _ => rfl) ⟨["[".toList], [1], 1, by decide⟩ ⟨.empty, [], 0, by decide⟩).2.1
    ⟨[], "[".toList, [], rfl, by simp, rfl⟩

end ConfigVar

end Cool
