import Cool.Config.Var
import Mathlib.Data.List.Nodup

/-!
# The registry of configuration variables

`Config::GetDatas` maps names to variables of different types. A type of variables is a code `t`, its
values are `El t`, and `convert` is `FromStr` of that type: nothing where it throws. The calls of
`from_string` and those of the listeners are recorded in order.
-/

namespace Cool

abbrev Text := List Char

namespace Config

/-- The characters of a name that `listAllMember` accepts. -/
def allowed : Text := "abcdefghijklmnopqrstuvwxyz._0123456789".toList

/-- Those that `Config::lookup` accepts. -/
def allowedName : Text := "abcdefghijklmnopqrstuvwxyzABCDEFGHIJKLMNOPQRSTUVWXYZ._0123456789".toList

def valid (path : Text) : Bool := path.all (allowed.contains ·)

def validName (name : Text) : Bool := name.all (allowedName.contains ·)

def tolower (name : Text) : Text := name.map Char.toLower

theorem tolower_of_valid {path : Text} (ok : valid path = true) : tolower path = path := by
  have kept : allowed.all (fun c => c.toLower == c) = true := by decide +kernel
  have same (c : Char) (member : c ∈ allowed) : c.toLower = c := by
    simpa using List.all_eq_true.mp kept c member
  rw [valid, List.all_eq_true] at ok
  refine (List.map_congr_left ?_).trans (List.map_id path)
  intro c member
  exact same c (List.contains_iff_mem.mp (ok c member))

theorem valid_append {a b : Text} : valid (a ++ b) = true ↔ valid a = true ∧ valid b = true := by
  simp [valid, List.all_append]

end Config

/-- `ConfigVarBase` and the `ConfigVar` it is. -/
structure Variable {Ty : Type} (El : Ty → Type) where
  name : Text
  type : Ty
  var : ConfigVar (El type)

/-- A variable is its place in `vars`; `datas` is the map from names. -/
structure Config {Ty : Type} (El : Ty → Type) where
  datas : List (Text × Nat)
  vars : List (Variable El)
  calls : List (Nat × Text)
  notices : List (Nat × Σ t, ConfigVar.Notice (El t))
  known : ∀ entry ∈ datas, entry.2 < vars.length
  separate : (datas.map (·.2)).Nodup

namespace Config

variable {Ty : Type} [DecidableEq Ty] {El : Ty → Type} [∀ t, DecidableEq (El t)]
  (convert : (t : Ty) → Text → Option (El t))

def empty : Config El := ⟨[], [], [], [], fun _ member => absurd member List.not_mem_nil, List.nodup_nil⟩

def lookupBase (c : Config El) (name : Text) : Option Nat := c.datas.lookup name

omit [DecidableEq Ty] [∀ t, DecidableEq (El t)] in
theorem mem_of_lookupBase {c : Config El} {name : Text} {id : Nat} (found : c.lookupBase name = some id) :
    (name, id) ∈ c.datas := by
  obtain ⟨before, after, split, _⟩ := List.lookup_eq_some_iff.mp found
  rw [split]
  exact List.mem_append_right _ List.mem_cons_self

omit [DecidableEq Ty] [∀ t, DecidableEq (El t)] in
theorem lookupBase_lt {c : Config El} {name : Text} {id : Nat} (found : c.lookupBase name = some id) :
    id < c.vars.length := by
  exact c.known _ (mem_of_lookupBase found)

omit [DecidableEq Ty] [∀ t, DecidableEq (El t)] in
/-- A variable stands under one name. -/
theorem lookupBase_inj {c : Config El} {name name' : Text} {id : Nat} (found : c.lookupBase name = some id)
    (found' : c.lookupBase name' = some id) : name = name' := by
  have same := List.inj_on_of_nodup_map c.separate (mem_of_lookupBase found) (mem_of_lookupBase found') rfl
  exact congrArg Prod.fst same

omit [DecidableEq Ty] [∀ t, DecidableEq (El t)] in
theorem separate_cons (c : Config El) (name : Text) :
    (((name, c.vars.length) :: c.datas).map (·.2)).Nodup := by
  refine List.nodup_cons.mpr ⟨?_, c.separate⟩
  intro member
  obtain ⟨entry, old, same⟩ := List.mem_map.mp member
  exact absurd same (Nat.ne_of_lt (c.known entry old))

/-- `Config::lookup(name, default)` at type `t`: the variable, or a null pointer where the name has a
variable of another type; an invalid new name is thrown. -/
def lookup (c : Config El) (t : Ty) (name : Text) (default : El t) : Except Text (Option Nat × Config El) :=
  match c.lookupBase name with
  | some id => .ok (if c.vars[id]?.map (·.type) = some t then some id else none, c)
  | none =>
    if validName name then
      .ok (some c.vars.length,
        { c with
          datas := (name, c.vars.length) :: c.datas
          vars := c.vars ++ [⟨tolower name, t, default, [], 0, fun _ absent => absurd absent List.not_mem_nil⟩]
          known := by
            intro entry member
            rw [List.length_append]
            rcases List.mem_cons.mp member with rfl | old
            · exact Nat.lt_succ_self _
            · exact Nat.lt_add_right _ (c.known entry old)
          separate := separate_cons c name })
    else .error name

omit [∀ t, DecidableEq (El t)] in
/-- The variable that a `lookup` returns is registered under the name, and has the type. -/
theorem lookup_ok {c c' : Config El} {t : Ty} {name : Text} {default : El t} {id : Nat}
    (found : c.lookup t name default = .ok (some id, c')) :
    c'.lookupBase name = some id ∧ c'.vars[id]?.map (·.type) = some t := by
  unfold lookup at found
  split at found
  · rename_i known there
    split at found
    · rename_i type
      cases found
      exact ⟨there, type⟩
    · cases found
  · split at found
    · cases found
      exact ⟨List.lookup_cons_self, by simp⟩
    · cases found

omit [∀ t, DecidableEq (El t)] in
theorem lookup_again {c : Config El} {t : Ty} {name : Text} {id : Nat} (there : c.lookupBase name = some id)
    (type : c.vars[id]?.map (·.type) = some t) (default : El t) : c.lookup t name default = .ok (some id, c) := by
  unfold lookup
  simp only [there, type, if_true]

omit [∀ t, DecidableEq (El t)] in
/-- No other name has the variable. -/
theorem lookup_same_iff {c : Config El} {t : Ty} {name : Text} {id : Nat} (there : c.lookupBase name = some id)
    (type : c.vars[id]?.map (·.type) = some t) (name' : Text) (default : El t) :
    (∃ c', c.lookup t name' default = .ok (some id, c')) ↔ name' = name := by
  constructor
  · intro ⟨c', found⟩
    unfold lookup at found
    split at found
    · rename_i id' there'
      split at found
      · cases found
        exact lookupBase_inj there' there
      · cases found
    · split at found
      · cases found
        exact absurd (lookupBase_lt there) (Nat.lt_irrefl _)
      · cases found
  · intro same
    subst same
    exact ⟨c, lookup_again there type default⟩

/-- `from_string` of a variable: its listeners' calls, and the variable after it. -/
def Variable.fromString (v : Variable El) (text : Text) : Variable El × List (Σ t, ConfigVar.Notice (El t)) :=
  match convert v.type text with
  | none => (v, [])
  | some value =>
    let (var, notices) := v.var.setValue value
    (⟨v.name, v.type, var⟩, notices.map fun notice => ⟨v.type, notice⟩)

def fromString (c : Config El) (id : Nat) (text : Text) : Config El :=
  match c.vars[id]? with
  | none => c
  | some v =>
    { datas := c.datas
      vars := c.vars.set id (Variable.fromString convert v text).1
      calls := c.calls ++ [(id, text)]
      notices := c.notices ++ (Variable.fromString convert v text).2.map fun notice => (id, notice)
      known := by
        rw [List.length_set]
        exact c.known
      separate := c.separate }

omit [DecidableEq Ty] in
theorem fromString_lt {c : Config El} {id : Nat} (inside : id < c.vars.length) (text : Text) :
    ∃ v, c.vars[id]? = some v ∧
      (c.fromString convert id text).vars = c.vars.set id (Variable.fromString convert v text).1 ∧
      (c.fromString convert id text).calls = c.calls ++ [(id, text)] ∧
      (c.fromString convert id text).notices =
        c.notices ++ (Variable.fromString convert v text).2.map fun notice => (id, notice) := by
  have there : c.vars[id]? = some c.vars[id] := List.getElem?_eq_getElem inside
  refine ⟨c.vars[id], there, ?_⟩
  unfold fromString
  rw [there]
  exact ⟨rfl, rfl, rfl⟩

omit [DecidableEq Ty] in
theorem fromString_datas (c : Config El) (id : Nat) (text : Text) :
    (c.fromString convert id text).datas = c.datas := by
  unfold fromString
  split <;> rfl

omit [DecidableEq Ty] in
theorem fromString_length (c : Config El) (id : Nat) (text : Text) :
    (c.fromString convert id text).vars.length = c.vars.length := by
  unfold fromString
  split
  · rfl
  · exact List.length_set

omit [DecidableEq Ty] in
/-- A variable keeps its type. -/
theorem fromString_type (c : Config El) (id other : Nat) (text : Text) :
    (c.fromString convert id text).vars[other]?.map (·.type) = c.vars[other]?.map (·.type) := by
  unfold fromString
  split
  · rfl
  · rename_i v there
    by_cases here : id = other
    · subst here
      have kept : (Variable.fromString convert v text).1.type = v.type := by
        unfold Variable.fromString
        split <;> rfl
      rw [List.getElem?_set_self (List.getElem?_eq_some_iff.mp there).1, there, Option.map_some, Option.map_some, kept]
    · rw [List.getElem?_set_ne here]

/-- What another variable sees of a `from_string`. -/
structure Untouched (id : Nat) (c c' : Config El) : Prop where
  var : c'.vars[id]? = c.vars[id]?
  notices : c'.notices.filter (·.1 = id) = c.notices.filter (·.1 = id)

omit [DecidableEq Ty] in
theorem fromString_other (c : Config El) {id other : Nat} (apart : id ≠ other) (text : Text) :
    Untouched other c (c.fromString convert id text) := by
  unfold fromString
  split
  · exact ⟨rfl, rfl⟩
  · rename_i v there
    refine ⟨List.getElem?_set_ne apart, ?_⟩
    have none : ((Variable.fromString convert v text).2.map fun notice => (id, notice)).filter (·.1 = other) = [] := by
      rw [List.filter_eq_nil_iff]
      intro entry member
      obtain ⟨notice, -, rfl⟩ := List.mem_map.mp member
      simpa using apart
    rw [List.filter_append, none, List.append_nil]

omit [DecidableEq Ty] in
theorem fromString_fails {c : Config El} {id : Nat} {v : Variable El} {text : Text}
    (there : c.vars[id]? = some v) (fails : convert v.type text = none) :
    (c.fromString convert id text).vars = c.vars ∧ (c.fromString convert id text).notices = c.notices := by
  have nothing : Variable.fromString convert v text = (v, []) := by
    simp only [Variable.fromString, fails]
  unfold fromString
  rw [there]
  simp only [nothing, List.map_nil, List.append_nil, and_true]
  obtain ⟨inside, rfl⟩ := List.getElem?_eq_some_iff.mp there
  exact List.set_getElem_self inside

omit [DecidableEq Ty] in
theorem fromString_sets {c : Config El} {id : Nat} {v : Variable El} {text : Text} {value : El v.type}
    (there : c.vars[id]? = some v) (converts : convert v.type text = some value) :
    ∃ var, (c.fromString convert id text).vars[id]? = some ⟨v.name, v.type, var⟩ ∧ var.val = value := by
  obtain ⟨v', there', vars, _, _⟩ := fromString_lt convert (List.getElem?_eq_some_iff.mp there).1 text
  cases there.symm.trans there'
  have inside := (List.getElem?_eq_some_iff.mp there).1
  refine ⟨(v.var.setValue value).1, ?_, ?_⟩
  · rw [vars, List.getElem?_set_self inside]
    simp only [Variable.fromString, converts]
  · unfold ConfigVar.setValue ConfigVar.compare
    by_cases same : value = v.var.val
    · rw [if_pos same]
      exact same.symm
    · rw [if_neg same]
      rfl

end Config

end Cool
