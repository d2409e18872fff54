import Cool.Foundation.OrderedSet
import Cool.Foundation.Results
import Cool.Log.Define
import Mathlib.Data.Char
import Mathlib.Data.List.Lex

/-!
# The text of a log configuration

The two casts between `std::set<LogDefine>` and text. The one to text writes the formatter of an appender on standard
output, and the one from text reads a formatter only for a file.
-/

namespace Cool

open Foundation

/-- `YAML::YamlNode`. A null node has no fields and no elements. -/
inductive YamlNode where
  | null
  | scalar (text : Text)
  | seq (items : List YamlNode)
  | map (entries : List (Text × YamlNode))

/-- What yaml-cpp throws. -/
inductive YamlError where
  | badSubscript | badConversion
  deriving DecidableEq, Repr

namespace YamlNode

/-- `node[key]` of a node that may be undefined: only a scalar has no keys to look for. -/
def field (key : String) : Option YamlNode → Except YamlError (Option YamlNode)
  | some (.scalar _) => .error .badSubscript
  | some (.map entries) => .ok (entries.lookup key.toList)
  | _ => .ok none

/-- `as<std::string>()`. -/
def asString : YamlNode → Except YamlError Text
  | .scalar text => .ok text
  | .null => .ok "null".toList
  | _ => .error .badConversion

/-- `node[0]`, ..., `node[node.size() - 1]`: the numbers are keys of a map. -/
def elements : YamlNode → List (Option YamlNode)
  | .seq items => items.map some
  | .map entries => (List.range entries.length).map fun i => entries.lookup (Nat.toDigits 10 i)
  | _ => []

/-- What a null node is after the assignments to its keys. -/
def ofEntries : List (Text × YamlNode) → YamlNode
  | [] => .null
  | entries => .map entries

/-- What a null node is after the calls of `push_back`. -/
def ofItems : List YamlNode → YamlNode
  | [] => .null
  | items => .seq items

end YamlNode

/-! ### The set -/

namespace LogDefine

/-- `operator<`. -/
def before (a b : LogDefine) : Bool := decide (a.name < b.name)

theorem before_iff {a b : LogDefine} : before a b = true ↔ a.name < b.name := decide_eq_true_iff

theorem before_trans (a b c : LogDefine) (ab : before a b = true) (bc : before b c = true) : before a c = true :=
  before_iff.mpr (lt_trans (before_iff.mp ab) (before_iff.mp bc))

theorem distinct_of_ordered {items : List LogDefine} (ordered : OrderedSet.Ordered before items) :
    (items.map (·.name)).Nodup := by
  apply List.pairwise_map.mpr
  exact List.Pairwise.imp (fun below => ne_of_lt (before_iff.mp below)) ordered

end LogDefine

/-- `std::set<LogDefine>` in its order. -/
@[ext]
structure LogSet extends LogDefines where
  ordered : OrderedSet.Ordered LogDefine.before items

namespace LogSet

def ofOrdered (items : List LogDefine) (ordered : OrderedSet.Ordered LogDefine.before items) : LogSet :=
  ⟨⟨items, LogDefine.distinct_of_ordered ordered⟩, ordered⟩

def empty : LogSet := ofOrdered [] .nil

def insert (s : LogSet) (d : LogDefine) : LogSet :=
  ofOrdered (OrderedSet.insert LogDefine.before d s.items)
    (OrderedSet.ordered_insert LogDefine.before_trans s.ordered)

end LogSet

/-! ### From text -/

namespace LexicalCast

open YamlNode

def readAppender (a : Option YamlNode) : Except YamlError (Option LogAppenderDefine) := do
  match ← field "type" a with
  | none => return none
  | some type =>
    let type ← asString type
    if type = "FileLogAppender".toList then
      match ← field "file" a with
      | none => return none
      | some file =>
        let file ← asString file
        match ← field "formatter" a with
        | none => return some ⟨1, [], file⟩
        | some formatter => return some ⟨1, ← asString formatter, file⟩
    else if type = "StdoutLogAppender".toList then return some ⟨2, [], []⟩
    else return none

/-- The inner loop. -/
def readAppenders : List (Option YamlNode) → Except YamlError (List LogAppenderDefine)
  | [] => return []
  | a :: rest => do
    let lad ← readAppender a
    let later ← readAppenders rest
    return lad.toList ++ later

/-- A field that is not there is an empty string. -/
def readText (key : String) (n : Option YamlNode) : Except YamlError Text := do
  match ← field key n with
  | none => return []
  | some text => asString text

def readDefine (n : Option YamlNode) : Except YamlError (Option LogDefine) := do
  match ← field "name" n with
  | none => return none
  | some name =>
    let name ← asString name
    let level ← readText "level" n
    let formatter ← readText "formatter" n
    let appenders ← match ← field "appenders" n with
      | none => pure []
      | some appenders => readAppenders (elements appenders)
    return some ⟨name, LogLevel.fromString level, formatter, appenders⟩

/-- The outer loop. -/
def readDefines (vec : LogSet) : List (Option YamlNode) → Except YamlError LogSet
  | [] => return vec
  | n :: rest => do
    match ← readDefine n with
    | none => readDefines vec rest
    | some ld => readDefines (vec.insert ld) rest

/-- `LexicalCast<std::string, std::set<LogDefine>>`, behind `YAML::Load`. -/
def fromNode (node : YamlNode) : Except YamlError LogSet := readDefines .empty (elements node)

/-! ### To text -/

def writeAppender (a : LogAppenderDefine) : YamlNode :=
  ofEntries <|
    (if a.type = 1 then
      [("type".toList, .scalar "FileLogAppender".toList), ("file".toList, .scalar a.file)]
    else if a.type = 2 then [("type".toList, .scalar "StdoutLogAppender".toList)]
    else []) ++
    if a.formatter = [] then [] else [("formatter".toList, .scalar a.formatter)]

def writeDefine (i : LogDefine) : YamlNode :=
  .map <|
    [("name".toList, .scalar i.name), ("level".toList, .scalar i.level.toString)] ++
    (if i.formatter = [] then [] else [("formatter".toList, .scalar i.formatter)]) ++
    if i.appenders = [] then [] else [("appenders".toList, ofItems (i.appenders.map writeAppender))]

/-- `LexicalCast<std::set<LogDefine>, std::string>`, before the node is printed. -/
def toNode (v : LogSet) : YamlNode := ofItems (v.items.map writeDefine)

/-! ### There and back -/

/-- What is left of an appender. -/
def read (a : LogAppenderDefine) : LogAppenderDefine := if a.type = 1 then a else ⟨a.type, [], []⟩

theorem readAppender_write {a : LogAppenderDefine} (makes : LoggerManager.Makes a) :
    readAppender (some (writeAppender a)) = .ok (some (read a)) := by
  obtain ⟨type, formatter, file⟩ := a
  rcases makes with rfl | rfl
  · by_cases plain : formatter = []
    · subst plain
      rfl
    · simp only [writeAppender, if_neg plain]
      rfl
  · by_cases plain : formatter = []
    · subst plain
      rfl
    · simp only [writeAppender, if_neg plain]
      rfl

theorem readAppenders_write {as : List LogAppenderDefine} (makes : ∀ a ∈ as, LoggerManager.Makes a) :
    readAppenders ((as.map writeAppender).map some) = .ok (as.map read) := by
  induction as with
  | nil => rfl
  | cons a as ih =>
    have later := ih fun a member => makes a (List.mem_cons_of_mem _ member)
    rw [List.map_cons, List.map_cons, readAppenders, readAppender_write (makes a List.mem_cons_self), ok_bind, later]
    rfl

theorem elements_ofItems (items : List YamlNode) : elements (ofItems items) = items.map some := by
  cases items <;> rfl

/-- The definitions that the casts are about. -/
structure Plain (d : LogDefine) : Prop where
  level : ∀ value, d.level ≠ .other value
  makes : ∀ a ∈ d.appenders, LoggerManager.Makes a

def readBack (d : LogDefine) : LogDefine := { d with appenders := d.appenders.map read }

section

variable (d : LogDefine)

theorem readText_formatter : readText "formatter" (some (writeDefine d)) = .ok d.formatter := by
  obtain ⟨name, level, formatter, appenders⟩ := d
  by_cases plain : formatter = []
  · subst plain
    by_cases none : appenders = []
    · subst none
      rfl
    · simp only [writeDefine, if_neg none]
      rfl
  · simp only [writeDefine, if_neg plain]
    rfl

theorem field_appenders : field "appenders" (some (writeDefine d)) =
    .ok (if d.appenders = [] then none else some (ofItems (d.appenders.map writeAppender))) := by
  obtain ⟨name, level, formatter, appenders⟩ := d
  by_cases plain : formatter = []
  · by_cases none : appenders = []
    · subst plain none
      rfl
    · simp only [writeDefine, if_pos plain, if_neg none]
      rfl
  · by_cases none : appenders = []
    · simp only [writeDefine, if_neg plain, if_pos none]
      rfl
    · simp only [writeDefine, if_neg plain, if_neg none]
      rfl

end

theorem readDefine_write {d : LogDefine} (plain : Plain d) :
    readDefine (some (writeDefine d)) = .ok (some (readBack d)) := by
  have back := LogLevel.fromString_toString plain.level
  have each := readAppenders_write plain.makes
  have name : field "name" (some (writeDefine d)) = .ok (some (.scalar d.name)) := rfl
  have level : readText "level" (some (writeDefine d)) = .ok d.level.toString := rfl
  rw [readDefine, name, ok_bind]
  simp only [asString, ok_bind, level, readText_formatter, field_appenders, back]
  by_cases none : d.appenders = []
  · simp [none, readBack]
    rfl
  · simp only [if_neg none, elements_ofItems, each, ok_bind]
    rfl

/-- Definitions that are read in the order of their names are the set. -/
theorem readDefines_write {s : LogSet} {ds : List LogDefine} (plain : ∀ d ∈ ds, Plain d)
    (ordered : OrderedSet.Ordered LogDefine.before (s.items ++ ds.map readBack)) :
    readDefines s ((ds.map writeDefine).map some) = .ok (.ofOrdered _ ordered) := by
  -- the set so far is below all names that come, so every insertion is at its end
  induction ds generalizing s with
  | nil =>
    simp only [List.map_nil, readDefines, pure, Except.pure]
    congr 1
    ext1
    simp [LogSet.ofOrdered]
  | cons d ds ih =>
    have above : ∀ other ∈ s.items, LogDefine.before other (readBack d) = true := fun other member =>
      (List.pairwise_append.mp ordered).2.2 other member _ (by simp)
    have inserted : (s.insert (readBack d)).items = s.items ++ [readBack d] := OrderedSet.insert_last above
    have moved : (s.insert (readBack d)).items ++ ds.map readBack = s.items ++ (d :: ds).map readBack := by
      simp [inserted]
    have later := ih (s := s.insert (readBack d)) (fun d member => plain d (List.mem_cons_of_mem _ member))
      (moved ▸ ordered)
    rw [List.map_cons, List.map_cons, readDefines, readDefine_write (plain d List.mem_cons_self), ok_bind]
    simp only [later]
    congr 1
    ext1
    simp [LogSet.ofOrdered, moved]

theorem ordered_readBack {ds : List LogDefine} (ordered : OrderedSet.Ordered LogDefine.before ds) :
    OrderedSet.Ordered LogDefine.before (ds.map readBack) :=
  List.pairwise_map.mpr ordered

theorem fromNode_toNode {v : LogSet} (plain : ∀ d ∈ v.items, Plain d) :
    fromNode (toNode v) = .ok (.ofOrdered _ (ordered_readBack v.ordered)) := by
  rw [fromNode, toNode, elements_ofItems]
  exact readDefines_write (s := .empty) plain (ordered_readBack v.ordered)

theorem read_eq_iff {a : LogAppenderDefine} (makes : LoggerManager.Makes a) :
    read a = a ↔ (a.type = 2 → a.formatter = [] ∧ a.file = []) := by
  obtain ⟨type, formatter, file⟩ := a
  rcases makes with rfl | rfl
  · simp [read]
  · simp [read, eq_comm]

theorem map_eq_self_iff {α : Type} {f : α → α} {l : List α} : l.map f = l ↔ ∀ x ∈ l, f x = x := by
  induction l with
  | nil => simp
  | cons x l ih => simp [ih]

theorem readBack_eq_iff {d : LogDefine} (plain : Plain d) :
    readBack d = d ↔ ∀ a ∈ d.appenders, a.type = 2 → a.formatter = [] ∧ a.file = [] := by
  have same : readBack d = d ↔ d.appenders.map read = d.appenders := by
    obtain ⟨name, level, formatter, appenders⟩ := d
    simp [readBack]
  rw [same, map_eq_self_iff]
  exact forall₂_congr fun a member => read_eq_iff (plain.makes a member)

/-- Printed and loaded again, a set is the same exactly when no appender on standard output has a formatter or a
file. -/
theorem cast_cast_iff {δ : Type} (emit : YamlNode → δ) (load : δ → YamlNode)
    (preserves : ∀ node, load (emit node) = node) {v : LogSet} (plain : ∀ d ∈ v.items, Plain d) :
    fromNode (load (emit (toNode v))) = .ok v ↔
      ∀ d ∈ v.items, ∀ a ∈ d.appenders, a.type = 2 → a.formatter = [] ∧ a.file = [] := by
  have items : fromNode (load (emit (toNode v))) = .ok v ↔ v.items.map readBack = v.items := by
    rw [preserves, fromNode_toNode plain, Except.ok.injEq, LogSet.ext_iff]
    rfl
  rw [items, map_eq_self_iff]
  exact forall₂_congr fun d member => readBack_eq_iff (plain d member)

def console (formatter : Text) : LogSet :=
  .ofOrdered [⟨"root".toList, .info, [], [⟨2, formatter, []⟩]⟩] (List.pairwise_singleton _ _)

theorem plain_console (formatter : Text) : ∀ d ∈ (console formatter).items, Plain d := by
  intro d member
  rw [List.mem_singleton.mp member]
  exact ⟨fun value => by simp, fun a inside => .inr (by rw [List.mem_singleton.mp inside])⟩

theorem cast_cast_console : fromNode (toNode (console [])) = .ok (console []) :=
  (cast_cast_iff id id (fun _ => rfl) (plain_console [])).mpr (by decide)

/-- The formatter of an appender on standard output is lost. -/
theorem cast_cast_loses : fromNode (toNode (console "%m%n".toList)) = .ok (console []) := by
  rw [fromNode_toNode (plain_console _)]
  rfl

end LexicalCast

end Cool
