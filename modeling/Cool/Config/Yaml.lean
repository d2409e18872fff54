import Cool.Config.Registry
import Mathlib.Data.List.Induction

/-!
# Loading a YAML document

`Config::load_from_yaml` lists the nodes that are reached through maps, with their dotted paths, and
calls `from_string` of each variable named by one. An abstract view of a document is the list of its
nodes in document order, each with the keys that lead to it; what the code makes of the keys is a path.
-/

namespace Cool

inductive Yaml where
  | scalar (text : Text)
  | seq (items : List Yaml)
  | map (entries : List (Text × Yaml))

namespace Config

variable {Ty : Type} {El : Ty → Type} [∀ t, DecidableEq (El t)]

/-- The path of a child: no dot after an empty path. -/
def extend (path key : Text) : Text := if path = [] then key else path ++ '.' :: key

mutual

def listAllMember (path : Text) : Yaml → List (Text × Yaml)
  | .scalar text => if valid path then [(path, .scalar text)] else []
  | .seq items => if valid path then [(path, .seq items)] else []
  | .map entries => if valid path then (path, .map entries) :: listMembers path entries else []

/-- The loop of `listAllMember` over a map. -/
def listMembers (path : Text) : List (Text × Yaml) → List (Text × Yaml)
  | [] => []
  | (key, node) :: rest => listAllMember (extend path key) node ++ listMembers path rest

end

/-- The scalar, or the YAML that the node is printed as. -/
def text (emit : Yaml → Text) : Yaml → Text
  | .scalar text => text
  | node => emit node

def visit (convert : (t : Ty) → Text → Option (El t)) (emit : Yaml → Text) (c : Config El) (entry : Text × Yaml) :
    Config El :=
  if entry.1 = [] then c
  else
    match c.lookupBase (tolower entry.1) with
    | none => c
    | some id => c.fromString convert id (text emit entry.2)

def loadFromYaml (convert : (t : Ty) → Text → Option (El t)) (emit : Yaml → Text) (root : Yaml) (c : Config El) :
    Config El :=
  (listAllMember [] root).foldl (visit convert emit) c

/-! ## The nodes of a document -/

mutual

/-- The nodes below a node that are reached through maps, in document order. -/
def nodes (keys : List Text) : Yaml → List (List Text × Yaml)
  | .scalar _ => []
  | .seq _ => []
  | .map entries => entryNodes keys entries

def entryNodes (keys : List Text) : List (Text × Yaml) → List (List Text × Yaml)
  | [] => []
  | (key, node) :: rest => (keys ++ [key], node) :: (nodes (keys ++ [key]) node ++ entryNodes keys rest)

end

def pathOf (keys : List Text) : Text := keys.foldl extend []

theorem pathOf_concat (keys : List Text) (key : Text) : pathOf (keys ++ [key]) = extend (pathOf keys) key := by
  rw [pathOf, List.foldl_append]
  rfl

def dotted (keys : List Text) : Text := ['.'].intercalate keys

theorem dotted_concat {keys : List Text} (some_ : keys ≠ []) (key : Text) :
    dotted (keys ++ [key]) = dotted keys ++ '.' :: key := by
  induction keys with
  | nil => exact absurd rfl some_
  | cons first rest ih =>
    cases rest with
    | nil => simp [dotted, List.intercalate]
    | cons second rest =>
      have tail := ih (List.cons_ne_nil second rest)
      simp only [dotted, List.cons_append, List.intercalate_cons_cons] at tail ⊢
      rw [tail]
      simp

theorem dotted_ne_nil {keys : List Text} (some_ : keys ≠ []) (named : keys.head? ≠ some []) : dotted keys ≠ [] := by
  cases keys with
  | nil => exact absurd rfl some_
  | cons first rest =>
    have first_ : first ≠ [] := fun empty => named (by rw [empty]; rfl)
    cases rest with
    | nil => simpa [dotted, List.intercalate] using first_
    | cons second rest => simp [dotted, List.intercalate_cons_cons]

/-- The code's path is the dotted one unless the first key is empty. -/
theorem pathOf_eq {keys : List Text} (named : keys.head? ≠ some []) : pathOf keys = dotted keys := by
  induction keys using List.reverseRecOn with
  | nil => rfl
  | append_singleton keys key ih =>
    rw [pathOf_concat, extend]
    by_cases none : keys = []
    · subst none
      simp [pathOf, dotted, List.intercalate]
    · have front : keys.head? ≠ some [] := by
        rwa [List.head?_append_of_ne_nil _ none] at named
      rw [ih front, if_neg (dotted_ne_nil none front), dotted_concat none]

theorem valid_of_extend {path key : Text} (ok : valid (extend path key) = true) : valid path = true := by
  unfold extend at ok
  split at ok
  · rename_i empty
    rw [empty]
    rfl
  · exact (valid_append.mp ok).1

theorem valid_of_append {keys : List Text} (more : List Text) (ok : valid (pathOf (keys ++ more)) = true) :
    valid (pathOf keys) = true := by
  induction more using List.reverseRecOn with
  | nil => rwa [List.append_nil] at ok
  | append_singleton more key ih =>
    rw [← List.append_assoc, pathOf_concat] at ok
    exact ih (valid_of_extend ok)

mutual

theorem nodes_below (keys : List Text) : (node : Yaml) → ∀ below ∈ nodes keys node, ∃ more, below.1 = keys ++ more
  | .scalar _ => fun _ member => absurd member List.not_mem_nil
  | .seq _ => fun _ member => absurd member List.not_mem_nil
  | .map entries => entryNodes_below keys entries

theorem entryNodes_below (keys : List Text) :
    (entries : List (Text × Yaml)) → ∀ below ∈ entryNodes keys entries, ∃ more, below.1 = keys ++ more
  | [] => fun _ member => absurd member List.not_mem_nil
  | (key, node) :: rest => by
    intro below member
    rw [entryNodes, List.mem_cons, List.mem_append] at member
    rcases member with rfl | inside | later
    · exact ⟨[key], rfl⟩
    · obtain ⟨more, same⟩ := nodes_below (keys ++ [key]) node below inside
      exact ⟨key :: more, by rw [same, List.append_assoc]; rfl⟩
    · exact entryNodes_below keys rest below later

end

/-- What `listAllMember` makes of a node that stands under some keys. -/
def keep (node : List Text × Yaml) : Option (Text × Yaml) :=
  if valid (pathOf node.1) then some (pathOf node.1, node.2) else none

theorem keep_below {keys : List Text} (bad : ¬ valid (pathOf keys) = true) (node : Yaml) :
    ((keys, node) :: nodes keys node).filterMap keep = [] := by
  rw [List.filterMap_eq_nil_iff]
  intro below member
  have longer : ∃ more, below.1 = keys ++ more := by
    rcases List.mem_cons.mp member with rfl | inside
    · exact ⟨[], (List.append_nil keys).symm⟩
    · exact nodes_below keys node below inside
  obtain ⟨more, same⟩ := longer
  have bad' : ¬ valid (pathOf below.1) = true := by
    rw [same]
    exact fun ok => bad (valid_of_append more ok)
  exact if_neg bad'

mutual

/-- An invalid path cuts off the nodes below it, and these are invalid themselves. -/
theorem listAllMember_eq (keys : List Text) :
    (node : Yaml) → listAllMember (pathOf keys) node = ((keys, node) :: nodes keys node).filterMap keep
  | .scalar text => by
    rw [listAllMember]
    split
    · rename_i ok
      simp [nodes, keep, ok]
    · rename_i bad
      exact (keep_below bad _).symm
  | .seq items => by
    rw [listAllMember]
    split
    · rename_i ok
      simp [nodes, keep, ok]
    · rename_i bad
      exact (keep_below bad _).symm
  | .map entries => by
    rw [listAllMember]
    split
    · rename_i ok
      rw [listMembers_eq keys entries, List.filterMap_cons, keep, if_pos ok]
      rfl
    · rename_i bad
      exact (keep_below bad _).symm

theorem listMembers_eq (keys : List Text) :
    (entries : List (Text × Yaml)) → listMembers (pathOf keys) entries = (entryNodes keys entries).filterMap keep
  | [] => rfl
  | (key, node) :: rest => by
    rw [listMembers, ← pathOf_concat, listAllMember_eq (keys ++ [key]) node, listMembers_eq keys rest, entryNodes,
      ← List.filterMap_append]
    rfl

end

/-! ## The calls that are made -/

variable (convert : (t : Ty) → Text → Option (El t)) (emit : Yaml → Text)

/-- The `from_string` that a node leads to: the variable and the text. -/
def callFor (datas : List (Text × Nat)) (node : List Text × Yaml) : Option (Nat × Text) :=
  if pathOf node.1 ≠ [] ∧ valid (pathOf node.1) = true then
    (datas.lookup (pathOf node.1)).map fun id => (id, text emit node.2)
  else none

def applyCall (c : Config El) (call : Nat × Text) : Config El :=
  c.fromString convert call.1 call.2

theorem visit_keep (c : Config El) (node : List Text × Yaml) :
    ((keep node).elim c fun entry => visit convert emit c entry) =
      ((callFor emit c.datas node).elim c fun call => applyCall convert c call) := by
  unfold keep callFor
  by_cases ok : valid (pathOf node.1) = true
  · rw [if_pos ok, Option.elim_some, visit]
    by_cases empty : pathOf node.1 = []
    · rw [if_pos empty, if_neg fun both => both.1 empty]
      rfl
    · rw [if_neg empty, if_pos ⟨empty, ok⟩, tolower_of_valid ok]
      dsimp only
      cases found : c.lookupBase (pathOf node.1) with
      | none =>
        have found : c.datas.lookup (pathOf node.1) = none := found
        rw [found]
        rfl
      | some id =>
        have found : c.datas.lookup (pathOf node.1) = some id := found
        rw [found]
        rfl
  · rw [if_neg ok, if_neg fun both => ok both.2]
    rfl

theorem foldl_filterMap_cons {α β γ : Type} (f : α → Option β) (g : γ → β → γ) (c : γ) (a : α) (l : List α) :
    ((a :: l).filterMap f).foldl g c = (l.filterMap f).foldl g ((f a).elim c (g c)) := by
  rw [List.filterMap_cons]
  cases f a <;> rfl

theorem applyCall_datas (c : Config El) (call : Option (Nat × Text)) :
    (call.elim c fun call => applyCall convert c call).datas = c.datas := by
  cases call with
  | none => rfl
  | some call => exact fromString_datas convert c call.1 call.2

theorem foldl_visit (list : List (List Text × Yaml)) (c : Config El) :
    (list.filterMap keep).foldl (visit convert emit) c =
      (list.filterMap (callFor emit c.datas)).foldl (applyCall convert) c := by
  induction list generalizing c with
  | nil => rfl
  | cons node rest ih =>
    have step := ih ((callFor emit c.datas node).elim c fun call => applyCall convert c call)
    rw [applyCall_datas] at step
    rw [foldl_filterMap_cons, foldl_filterMap_cons]
    refine Eq.trans ?_ step
    exact congrArg (fun c => (rest.filterMap keep).foldl (visit convert emit) c) (visit_keep convert emit c node)

/-- The calls of `from_string` that a document leads to, in document order. -/
def reached (c : Config El) (root : Yaml) : List (Nat × Text) :=
  (nodes [] root).filterMap (callFor emit c.datas)

theorem loadFromYaml_eq (root : Yaml) (c : Config El) :
    loadFromYaml convert emit root c = (reached emit c root).foldl (applyCall convert) c := by
  have listed := listAllMember_eq [] root
  have skipped : callFor emit c.datas ([], root) = none := if_neg fun both => both.1 rfl
  rw [loadFromYaml, show ([] : Text) = pathOf [] from rfl, listed, foldl_visit, List.filterMap_cons, skipped]
  rfl

/-! ## What the calls leave behind -/

omit [∀ t, DecidableEq (El t)] in
theorem reached_lt (c : Config El) (root : Yaml) : ∀ call ∈ reached emit c root, call.1 < c.vars.length := by
  intro call member
  obtain ⟨node, _, made⟩ := List.mem_filterMap.mp member
  unfold callFor at made
  split at made
  · obtain ⟨id, found, rfl⟩ := Option.map_eq_some_iff.mp made
    exact lookupBase_lt found
  · cases made

theorem foldl_untouched (list : List (Nat × Text)) (c : Config El) {id : Nat} (none : ∀ call ∈ list, call.1 ≠ id) :
    Untouched id c (list.foldl (applyCall convert) c) := by
  induction list generalizing c with
  | nil => exact ⟨rfl, rfl⟩
  | cons call rest ih =>
    have first := fromString_other convert c (none call List.mem_cons_self) call.2
    have later := ih (applyCall convert c call) fun call member => none call (List.mem_cons_of_mem _ member)
    exact ⟨later.var.trans first.var, later.notices.trans first.notices⟩

theorem foldl_calls (list : List (Nat × Text)) (c : Config El) (inside : ∀ call ∈ list, call.1 < c.vars.length) :
    (list.foldl (applyCall convert) c).calls = c.calls ++ list := by
  induction list generalizing c with
  | nil => exact (List.append_nil _).symm
  | cons call rest ih =>
    obtain ⟨v, _, _, logged, _⟩ := fromString_lt convert (inside call List.mem_cons_self) call.2
    have later := ih (applyCall convert c call) (by
      intro later member
      rw [applyCall, fromString_length]
      exact inside later (List.mem_cons_of_mem call member))
    rw [List.foldl_cons, later, applyCall, logged, List.append_assoc]
    rfl

/-- The keys directly below the root. -/
def topKeys : Yaml → List Text
  | .map entries => entries.map (·.1)
  | _ => []

theorem entryNodes_head (entries : List (Text × Yaml)) :
    ∀ below ∈ entryNodes [] entries, ∃ key ∈ entries.map (·.1), below.1.head? = some key := by
  induction entries with
  | nil => exact fun _ member => absurd member List.not_mem_nil
  | cons entry rest ih =>
    intro below member
    rw [entryNodes, List.mem_cons, List.mem_append] at member
    rcases member with rfl | inside | later
    · exact ⟨entry.1, List.mem_cons_self, rfl⟩
    · obtain ⟨more, same⟩ := nodes_below ([] ++ [entry.1]) entry.2 below inside
      exact ⟨entry.1, List.mem_cons_self, by rw [same]; rfl⟩
    · obtain ⟨key, there, same⟩ := ih below later
      exact ⟨key, List.mem_cons_of_mem _ there, same⟩

theorem nodes_head {root : Yaml} : ∀ below ∈ nodes [] root, ∃ key ∈ topKeys root, below.1.head? = some key := by
  cases root with
  | map entries => exact entryNodes_head entries
  | scalar | seq => exact fun _ member => absurd member List.not_mem_nil

/-- The calls by dotted path: one for each node whose path has only valid characters and is the name of
a variable. -/
def namedCalls (c : Config El) (root : Yaml) : List (Nat × Text) :=
  (nodes [] root).filterMap fun node =>
    if valid (dotted node.1) then (c.lookupBase (dotted node.1)).map fun id => (id, text emit node.2) else none

omit [∀ t, DecidableEq (El t)] in
theorem reached_eq_namedCalls {root : Yaml} (named : ∀ key ∈ topKeys root, key ≠ []) (c : Config El) :
    reached emit c root = namedCalls emit c root := by
  refine List.filterMap_congr ?_
  intro node member
  obtain ⟨key, top, head⟩ := nodes_head node member
  have front : node.1.head? ≠ some [] := by
    rw [head]
    exact fun empty => named key top (Option.some.inj empty)
  have some_ : node.1 ≠ [] := by
    intro none
    rw [none] at head
    cases head
  have path : pathOf node.1 = dotted node.1 := pathOf_eq front
  simp only [callFor, path, ne_eq, dotted_ne_nil some_ front, not_false_eq_true, true_and]
  rfl

/-- Loading a document calls `from_string` once for each named node, in document order, and nothing
else: a variable that no node names keeps its value and its listeners hear nothing, and a text that does
not convert changes no variable. -/
theorem loadFromYaml_calls {root : Yaml}
    (named : ∀ key ∈ topKeys root, key ≠ []) (c : Config El) :
    loadFromYaml convert emit root c = (namedCalls emit c root).foldl (applyCall convert) c ∧
    (loadFromYaml convert emit root c).calls = c.calls ++ namedCalls emit c root ∧
    (∀ id, (∀ call ∈ namedCalls emit c root, call.1 ≠ id) → Untouched id c (loadFromYaml convert emit root c)) ∧
    ∀ (c' : Config El) id v text, c'.vars[id]? = some v → convert v.type text = none →
      (applyCall convert c' (id, text)).vars = c'.vars ∧ (applyCall convert c' (id, text)).notices = c'.notices := by
  have loaded := loadFromYaml_eq convert emit root c
  have inside := reached_lt emit c root
  rw [reached_eq_namedCalls emit named] at loaded inside
  refine ⟨loaded, ?_, ?_, fun c' id v text there fails => fromString_fails convert there fails⟩
  · rw [loaded]
    exact foldl_calls convert _ c inside
  · intro id none
    rw [loaded]
    exact foldl_untouched convert _ c none

def digits (_ : Unit) (text : Text) : Option Nat :=
  if text ≠ [] ∧ text.all Char.isDigit = true then some (text.foldl (fun n c => 10 * n + (c.toNat - '0'.toNat)) 0)
  else none

/-- Of the nodes of a document with one invalid key, one is named. -/
theorem loadFromYaml_calls_port :
    ∃ c : Config (fun _ : Unit => Nat), Config.empty.lookup () "server.port".toList 80 = .ok (some 0, c) ∧
      (loadFromYaml digits (fun _ => [])
        (.map [("server".toList, .map [("Port".toList, .seq []), ("port".toList, .scalar "8080".toList)])]) c).calls =
        [(0, "8080".toList)] := by
  refine ⟨_, rfl, ?_⟩
  rw [(loadFromYaml_calls digits (fun _ => []) (by decide) _).2.1]
  decide +kernel

/-! ## Names that can be configured -/

theorem splitOn_head {name : Text} (some_ : name ≠ []) (nodot : name.head? ≠ some '.') :
    (name.splitOn '.').head? ≠ some [] := by
  cases name with
  | nil => exact absurd rfl some_
  | cons c rest =>
    have other : ¬ (c == '.') = true := fun same => nodot (congrArg some (beq_iff_eq.mp same))
    rw [List.splitOn_cons_eq_if_modifyHead, if_neg other]
    cases split : rest.splitOn '.' with
    | nil => exact absurd split (List.splitOn_ne_nil '.' rest)
    | cons first others => simp

theorem pathOf_splitOn {name : Text} (some_ : name ≠ []) (nodot : name.head? ≠ some '.') :
    pathOf (name.splitOn '.') = name := by
  rw [pathOf_eq (splitOn_head some_ nodot)]
  exact List.intercalate_splitOn '.'

theorem foldl_type (list : List (Nat × Text)) (c : Config El) (id : Nat) :
    (list.foldl (applyCall convert) c).vars[id]?.map (·.type) = c.vars[id]?.map (·.type) := by
  induction list generalizing c with
  | nil => rfl
  | cons call rest ih => exact (ih _).trans (fromString_type convert c call.1 id call.2)

theorem foldl_sets {pre post : List (Nat × Text)} {c : Config El} {id : Nat} {t : Ty} {text : Text} {value : El t}
    (type : c.vars[id]?.map (·.type) = some t) (converts : convert t text = some value)
    (last : ∀ call ∈ post, call.1 ≠ id) :
    ∃ name var, ((pre ++ (id, text) :: post).foldl (applyCall convert) c).vars[id]? = some ⟨name, t, var⟩ ∧
      var.val = value := by
  rw [List.foldl_append, List.foldl_cons]
  have before := (foldl_type convert pre c id).trans type
  generalize pre.foldl (applyCall convert) c = c₁ at before
  obtain ⟨⟨name, t', var₀⟩, there, same⟩ := Option.map_eq_some_iff.mp before
  cases same
  obtain ⟨var, set, val⟩ := fromString_sets convert there converts
  refine ⟨name, var, ?_, val⟩
  rw [(foldl_untouched convert post (applyCall convert c₁ (id, text)) last).var]
  exact set

/-- Keys of equal lengths that are equal when dotted are equal. -/
theorem dotted_inj {keys keys' : List Text} (lengths : keys.map List.length = keys'.map List.length)
    (same : dotted keys = dotted keys') : keys = keys' := by
  induction keys generalizing keys' with
  | nil => exact (List.map_eq_nil_iff.mp lengths.symm).symm
  | cons first rest ih =>
    obtain ⟨first', rest', rfl, length, lengths⟩ := List.map_eq_cons_iff.mp lengths.symm
    cases rest with
    | nil =>
      obtain rfl := List.map_eq_nil_iff.mp lengths
      simpa [dotted, List.intercalate] using same
    | cons second rest =>
      obtain ⟨second', rest', rfl, _, _⟩ := List.map_eq_cons_iff.mp lengths
      simp only [dotted, List.intercalate_cons_cons] at same
      obtain ⟨start, others⟩ := List.append_inj same (by simp [length])
      rw [List.append_cancel_right start, ih lengths.symm others]

theorem pathOf_length_le (keys : List Text) : (pathOf keys).length ≤ (dotted keys).length := by
  induction keys using List.reverseRecOn with
  | nil => exact Nat.le_refl _
  | append_singleton keys key ih =>
    rw [pathOf_concat, extend]
    by_cases none : keys = []
    · subst none
      simp [pathOf, dotted, List.intercalate]
    · rw [dotted_concat none]
      split
      · simp only [List.length_append, List.length_cons]
        omega
      · simp only [List.length_append, List.length_cons]
        omega

/-- An empty first key loses its dot. -/
theorem pathOf_lt {rest : List Text} (some_ : rest ≠ []) : (pathOf ([] :: rest)).length < (dotted ([] :: rest)).length := by
  have dropped : pathOf ([] :: rest) = pathOf rest := rfl
  have shorter := pathOf_length_le rest
  cases rest with
  | nil => exact absurd rfl some_
  | cons second rest =>
    simp only [dotted, List.intercalate_cons_cons, List.length_append] at shorter ⊢
    rw [dropped]
    exact Nat.lt_of_le_of_lt shorter (by simp)

theorem dotted_length_congr {keys keys' : List Text} (lengths : keys.map List.length = keys'.map List.length) :
    (dotted keys).length = (dotted keys').length := by
  induction keys generalizing keys' with
  | nil =>
    obtain rfl := List.map_eq_nil_iff.mp lengths.symm
    rfl
  | cons first rest ih =>
    obtain ⟨first', rest', rfl, length, lengths⟩ := List.map_eq_cons_iff.mp lengths.symm
    have tail := ih lengths.symm
    cases rest with
    | nil =>
      obtain rfl := List.map_eq_nil_iff.mp lengths
      simp [dotted, List.intercalate, length]
    | cons second rest =>
      obtain ⟨second', rest', rfl, _, _⟩ := List.map_eq_cons_iff.mp lengths
      simp only [dotted, List.intercalate_cons_cons, List.length_append, length] at tail ⊢
      rw [tail]

theorem lengths_of_spelled {keys keys' : List Text} (spelled : keys.map tolower = keys'.map tolower) :
    keys.map List.length = keys'.map List.length := by
  have lengths := congrArg (List.map List.length) spelled
  simpa only [List.map_map, Function.comp_def, tolower, List.length_map] using lengths

/-- Keys that spell a name in some letter case have it as their path only if they are its split. -/
theorem pathOf_spelled_iff {keys : List Text} {name : Text} (spelled : keys.map tolower = (name.splitOn '.').map tolower)
    (some_ : name ≠ []) : pathOf keys = name ↔ name.head? ≠ some '.' ∧ keys = name.splitOn '.' := by
  have lengths := lengths_of_spelled spelled
  have joined : dotted (name.splitOn '.') = name := List.intercalate_splitOn '.'
  constructor
  · intro path
    have named : keys.head? ≠ some [] := by
      intro empty
      obtain ⟨rest, rfl⟩ := List.head?_eq_some_iff.mp empty
      have more : rest ≠ [] := by
        intro none
        subst none
        exact some_ path.symm
      have shorter := pathOf_lt more
      rw [path, dotted_length_congr lengths, joined] at shorter
      exact absurd shorter (Nat.lt_irrefl _)
    have same : keys = name.splitOn '.' := by
      apply dotted_inj lengths
      rw [joined, ← pathOf_eq named]
      exact path
    refine ⟨?_, same⟩
    intro dot
    obtain ⟨rest, rfl⟩ := List.head?_eq_some_iff.mp dot
    rw [same, List.splitOn_cons_eq_if_modifyHead, if_pos (beq_self_eq_true '.')] at named
    exact named rfl
  · intro ⟨nodot, same⟩
    rw [same]
    exact pathOf_splitOn some_ nodot

omit [∀ t, DecidableEq (El t)] in
theorem callFor_iff {c : Config El} {name : Text} {id : Nat} (there : c.lookupBase name = some id) {keys : List Text}
    (spelled : keys.map tolower = (name.splitOn '.').map tolower) (node : Yaml) :
    callFor emit c.datas (keys, node) = some (id, Config.text emit node) ↔
      valid name = true ∧ name ≠ [] ∧ name.head? ≠ some '.' ∧ keys = name.splitOn '.' := by
  unfold callFor
  constructor
  · intro made
    split at made
    · rename_i ok
      obtain ⟨id', found, same⟩ := Option.map_eq_some_iff.mp made
      cases same
      have path : pathOf keys = name := lookupBase_inj found there
      rw [path] at ok
      exact ⟨ok.2, ok.1, (pathOf_spelled_iff spelled ok.1).mp path⟩
    · cases made
  · intro ⟨lower, some_, exact_⟩
    have path := (pathOf_spelled_iff spelled some_).mpr exact_
    have found : c.datas.lookup name = some id := there
    rw [path, if_pos ⟨some_, lower⟩, found]
    rfl

/-- For a registered variable and a node whose keys spell its name in some letter case: the node leads to
`from_string` of the variable exactly when the name has no upper-case letter, is not empty and does not
start with a dot, and the keys are its split as they stand. Unless a later node names it too the variable
then has the value of the scalar; no node that does not lead to a call changes it. A name that differs in
letter case at most denotes the variable exactly when it is the same name. -/
theorem loadFromYaml_configures_iff [DecidableEq Ty] {c c' : Config El} {t : Ty} {name : Text} {default : El t}
    {id : Nat} (registered : c.lookup t name default = .ok (some id, c')) {root : Yaml} {keys : List Text} {text : Text}
    {before after : List (List Text × Yaml)} (document : nodes [] root = before ++ (keys, .scalar text) :: after)
    (spelled : keys.map tolower = (name.splitOn '.').map tolower) {value : El t} (converts : convert t text = some value) :
    (loadFromYaml convert emit root c').calls = c'.calls ++ (before.filterMap (callFor emit c'.datas) ++
      ((callFor emit c'.datas (keys, .scalar text)).toList ++ after.filterMap (callFor emit c'.datas))) ∧
    (callFor emit c'.datas (keys, .scalar text) = some (id, text) ↔
      valid name = true ∧ name ≠ [] ∧ name.head? ≠ some '.' ∧ keys = name.splitOn '.') ∧
    (callFor emit c'.datas (keys, .scalar text) = some (id, text) →
      (∀ node ∈ after, ∀ call, callFor emit c'.datas node = some call → call.1 ≠ id) →
      ∃ name var, (loadFromYaml convert emit root c').vars[id]? = some ⟨name, t, var⟩ ∧ var.val = value) ∧
    ((∀ node ∈ nodes [] root, ∀ call, callFor emit c'.datas node = some call → call.1 ≠ id) →
      Untouched id c' (loadFromYaml convert emit root c')) ∧
    ∀ name' (default' : El t), tolower name' = tolower name →
      ((∃ c'', c'.lookup t name' default' = .ok (some id, c'')) ↔ name' = name) := by
  obtain ⟨there, type⟩ := lookup_ok registered
  have calls : reached emit c' root = before.filterMap (callFor emit c'.datas) ++
      ((callFor emit c'.datas (keys, .scalar text)).toList ++ after.filterMap (callFor emit c'.datas)) := by
    rw [reached, document, List.filterMap_append, List.filterMap_cons]
    cases callFor emit c'.datas (keys, .scalar text) <;> rfl
  refine ⟨?_, callFor_iff emit there spelled (.scalar text), ?_, ?_, ?_⟩
  · rw [loadFromYaml_eq, ← calls]
    exact foldl_calls convert _ c' (reached_lt emit c' root)
  · intro made last
    rw [loadFromYaml_eq, calls, made]
    refine foldl_sets convert type converts ?_
    intro call member
    obtain ⟨node, later, leads⟩ := List.mem_filterMap.mp member
    exact last node later call leads
  · intro none
    rw [loadFromYaml_eq]
    refine foldl_untouched convert _ c' ?_
    intro call member
    obtain ⟨node, inside, leads⟩ := List.mem_filterMap.mp member
    exact none node inside call leads
  · intro name' default' _
    exact lookup_same_iff there type name' default'

theorem loadFromYaml_configures_iff_port :
    ∃ c : Config (fun _ : Unit => Nat), Config.empty.lookup () "server.port".toList 80 = .ok (some 0, c) ∧
      callFor (fun _ => []) c.datas (["server".toList, "port".toList], .scalar "8080".toList) =
        some (0, "8080".toList) ∧
      ∃ name var, (loadFromYaml digits (fun _ => [])
        (.map [("server".toList, .map [("port".toList, .scalar "8080".toList)])]) c).vars[0]? = some ⟨name, (), var⟩ ∧
          var.val = 8080 := by
  have registered : (Config.empty : Config fun _ : Unit => Nat).lookup () "server.port".toList 80 = .ok (some 0, _) :=
    rfl
  have document : nodes [] (.map [("server".toList, .map [("port".toList, .scalar "8080".toList)])]) =
      [(["server".toList], .map [("port".toList, .scalar "8080".toList)])] ++
        (["server".toList, "port".toList], .scalar "8080".toList) :: [] := rfl
  have split : "server.port".toList.splitOn '.' = ["server".toList, "port".toList] := by decide
  have converts : digits () "8080".toList = some 8080 := by decide
  obtain ⟨_, iff, sets, _⟩ :=
    loadFromYaml_configures_iff digits (fun _ => []) registered document (by rw [split]) converts
  have made := iff.mpr ⟨by decide, by decide, by decide, split.symm⟩
  exact ⟨_, registered, made, sets made (by simp)⟩

theorem lookup_upper {path : Text} (ok : valid path = true) : [("Port".toList, 0)].lookup path = none := by
  have other : (path == "Port".toList) = false := by
    rw [beq_eq_false_iff_ne]
    intro same
    rw [same] at ok
    exact absurd ok (by decide)
  rw [List.lookup_cons, other]
  rfl

/-- No document configures a variable that was registered as `Port`, and `port` is another variable. A
key in upper case does not reach the variable `port`, and the split of `.x` does not lead to `.x`. -/
theorem case_separates :
    (∃ c : Config (fun _ : Unit => Nat), Config.empty.lookup () "Port".toList 80 = .ok (some 0, c) ∧
      (∀ convert emit root, (loadFromYaml convert emit root c).vars = c.vars) ∧
      ∃ c', c.lookup () "port".toList 80 = .ok (some 1, c')) ∧
    (∃ c : Config (fun _ : Unit => Nat), Config.empty.lookup () "port".toList 80 = .ok (some 0, c) ∧
      (loadFromYaml digits (fun _ => []) (.map [("Port".toList, .scalar "8080".toList)]) c).calls = []) ∧
    ∃ c : Config (fun _ : Unit => Nat), Config.empty.lookup () ".x".toList 80 = .ok (some 0, c) ∧
      (loadFromYaml digits (fun _ => []) (.map [([], .map [("x".toList, .scalar "8080".toList)])]) c).calls = [] := by
  refine ⟨⟨_, rfl, ?_, _, rfl⟩, ⟨_, rfl, by decide +kernel⟩, ⟨_, rfl, by decide +kernel⟩⟩
  intro convert emit root
  have none : (nodes [] root).filterMap (callFor emit [("Port".toList, 0)]) = [] := by
    rw [List.filterMap_eq_nil_iff]
    intro node _
    unfold callFor
    split
    · rename_i ok
      rw [lookup_upper ok.2]
      rfl
    · rfl
  have unreached : ∀ c : Config (fun _ : Unit => Nat), c.datas = [("Port".toList, 0)] →
      loadFromYaml convert emit root c = c := by
    intro c datas
    rw [loadFromYaml_eq, reached, datas, none]
    rfl
  exact congrArg Config.vars (unreached _ rfl)

end Config

end Cool
