import Cool.Log.Pattern

/-!
# Percent signs in a pattern

Behind two percent signs the scanner goes on with the second one, so that the last sign of a row always starts a
directive: no pattern with a percent sign is only text.
-/

namespace Cool

namespace FormatItem

def literal : FormatItem → Bool
  | .string _ => true
  | _ => false

theorem literal_ofDateTime (fmt : Text) : (ofDateTime fmt).literal = false := by
  unfold ofDateTime
  split <;> rfl

end FormatItem

namespace LogFormatter

def Entry.isDirective : Entry → Bool
  | .text _ => false
  | .directive _ _ => true

/-- Every percent sign doubled. -/
def escape (t : Text) : Text := t.flatMap fun c => if c = '%' then ['%', '%'] else [c]

/-- The pattern stands for the text. -/
structure Escapes (t : Text) : Prop where
  error : (init (escape t)).error = false
  literal : ∀ item ∈ (init (escape t)).items, item.literal = true
  output : ∀ strftime event, (init (escape t)).format strftime event = t

/-- Behind the pattern `p` the escaped text adds its text, which may join the last literal. -/
def Adds (p t : Text) : Prop :=
  (init (p ++ escape t)).error = false ∧
    ((init (p ++ escape t)).items = (init p).items ++ [.string t] ∨
      ∃ front s, (init p).items = front ++ [.string s] ∧
        (init (p ++ escape t)).items = front ++ [.string (s ++ t)])

theorem literal_item {e : Entry} (inTable : e.unknown = false) : (!e.item.literal) = e.isDirective := by
  cases e with
  | text str => rfl
  | directive str fmt =>
    simp only [Entry.unknown, known, Bool.not_eq_false'] at inTable
    obtain ⟨make, found⟩ := Option.isSome_iff_exists.mp inTable
    have made : ∀ entry ∈ formatItems, (entry.2 fmt).literal = false := by
      simp only [formatItems, List.forall_mem_cons, FormatItem.literal_ofDateTime]
      simp [FormatItem.literal]
    obtain ⟨before, after, split, -⟩ := List.lookup_eq_some_iff.mp found
    have member : (str, make) ∈ formatItems := by simp [split]
    simp [Entry.item, Entry.isDirective, found, made _ member]

/-- The last percent sign of a row starts a directive or leaves a brace open. -/
theorem scan_percent {text : Text} (percent : '%' ∈ text) (nstr : Text) :
    (scan 0 nstr text).2 = true ∨ ∃ e ∈ (scan 0 nstr text).1, e.isDirective = true := by
  induction text generalizing nstr with
  | nil => cases percent
  | cons c rest ih =>
    rw [scan]
    by_cases sign : c = '%'
    · simp only [sign, ne_eq, not_true_eq_false, if_false]
      by_cases double : rest.head? = some '%'
      · rw [if_pos double]
        exact ih (List.mem_of_mem_head? double) _
      · rw [if_neg double]
        cases scanned : scanKey [] 0 rest with
        | none => exact .inl rfl
        | some found =>
          obtain ⟨str, fmt, used⟩ := found
          refine .inr ⟨.directive str fmt, ?_, rfl⟩
          simp
    · simp only [ne_eq, sign, not_false_eq_true, if_true]
      exact ih ((List.mem_cons.mp percent).resolve_left (Ne.symm sign)) _

theorem unknown_of_error {p : Text} (fine : (init p).error = false) :
    (scan 0 [] p).2 = false ∧ ∀ e ∈ (scan 0 [] p).1, e.unknown = false := by
  simp only [init, Bool.or_eq_false_iff, List.any_eq_false, Bool.not_eq_true] at fine
  exact fine

/-- A pattern in no error has as many items that are not text as it has directives. -/
theorem count_items {p : Text} (fine : (init p).error = false) :
    (init p).items.countP (!·.literal) = (scan 0 [] p).1.countP Entry.isDirective := by
  simp only [init, List.countP_map]
  apply List.countP_congr
  intro e member
  have same := literal_item ((unknown_of_error fine).2 e member)
  simp only [Function.comp_apply, same]

theorem count_pos {text : Text} (percent : '%' ∈ text) (nstr : Text) (closed : (scan 0 nstr text).2 = false) :
    0 < (scan 0 nstr text).1.countP Entry.isDirective := by
  rcases scan_percent percent nstr with error | directive
  · rw [closed] at error
    cases error
  · exact List.countP_pos_iff.mpr directive

/-! ### Text alone -/

theorem escape_plain {t : Text} (plain : '%' ∉ t) : escape t = t := by
  induction t with
  | nil => rfl
  | cons c t ih =>
    simp only [List.mem_cons, not_or] at plain
    simp only [escape, List.flatMap_cons, if_neg (Ne.symm plain.1)] at ih ⊢
    rw [ih plain.2]
    rfl

theorem mem_escape {t : Text} (percent : '%' ∈ t) : '%' ∈ escape t :=
  List.mem_flatMap.mpr ⟨'%', percent, by simp⟩

theorem init_plain {t : Text} (plain : '%' ∉ t) :
    init t = ⟨t, if t = [] then [] else [.string t], false⟩ := by
  have scanned : scan 0 [] t = (flush t, false) := by
    have whole := scan_literal plain [] []
    rwa [List.append_nil, List.nil_append, scan] at whole
  by_cases empty : t = []
  · subst empty
    rfl
  · simp [init, scanned, flush, empty, Entry.item, Entry.unknown]

theorem escapes_iff (t : Text) : Escapes t ↔ '%' ∉ t := by
  constructor
  · intro escapes percent
    have none : (init (escape t)).items.countP (!·.literal) = 0 := by
      apply List.countP_eq_zero.mpr
      intro item member
      simp [escapes.literal item member]
    have some := count_pos (mem_escape percent) [] (unknown_of_error escapes.error).1
    rw [← count_items escapes.error, none] at some
    exact Nat.lt_irrefl 0 some
  · intro plain
    have pattern : init (escape t) = ⟨t, if t = [] then [] else [.string t], false⟩ := by
      rw [escape_plain plain, init_plain plain]
    refine ⟨by rw [pattern], ?_, fun strftime event => ?_⟩
    · intro item member
      rw [pattern] at member
      by_cases empty : t = []
      · simp [empty] at member
      · simp only [empty, if_false, List.mem_singleton] at member
        rw [member]
        rfl
    · rw [pattern]
      by_cases empty : t = []
      · simp [format, empty]
      · simp [format, empty, FormatItem.format]

/-! ### Text behind a pattern -/

section

variable {q : Text} (stops : Stops q)

theorem scanFormat_append {found : Text × Text × Nat} {text str fmt : Text} {used : Nat}
    (scanned : scanFormat str fmt used text = some found) (q : Text) :
    scanFormat str fmt used (text ++ q) = some found := by
  induction text generalizing fmt used with
  | nil => cases scanned
  | cons c rest ih =>
    rw [List.cons_append]
    rw [scanFormat] at scanned ⊢
    split at scanned
    · rename_i closes
      rw [if_pos closes, scanned]
    · rename_i other
      rw [if_neg other]
      exact ih scanned

include stops in
theorem scanKey_append {found : Text × Text × Nat} {text str : Text} {used : Nat}
    (scanned : scanKey str used text = some found) : scanKey str used (text ++ q) = some found := by
  induction text generalizing str used with
  | nil =>
    rw [List.nil_append, scanKey_stops stops]
    exact scanned
  | cons c rest ih =>
    rw [List.cons_append]
    rw [scanKey] at scanned ⊢
    split at scanned
    · rename_i ends
      rw [if_pos ends, scanned]
    · rename_i goes
      rw [if_neg goes]
      split at scanned
      · rename_i opens
        rw [if_pos opens]
        exact scanFormat_append scanned q
      · rename_i letter
        rw [if_neg letter]
        exact ih scanned

theorem scanFormat_used {text str fmt str' fmt' : Text} {used used' : Nat}
    (scanned : scanFormat str fmt used text = some (str', fmt', used')) : used' ≤ used + text.length := by
  induction text generalizing fmt used with
  | nil => cases scanned
  | cons c rest ih =>
    rw [scanFormat] at scanned
    rw [List.length_cons]
    split at scanned
    · cases scanned
      omega
    · have := ih scanned
      omega

theorem scanKey_used {text str str' fmt' : Text} {used used' : Nat}
    (scanned : scanKey str used text = some (str', fmt', used')) : used' ≤ used + text.length := by
  induction text generalizing str used with
  | nil =>
    cases scanned
    exact Nat.le_refl _
  | cons c rest ih =>
    rw [scanKey] at scanned
    rw [List.length_cons]
    split at scanned
    · cases scanned
      omega
    · split at scanned
      · have := scanFormat_used scanned
        omega
      · have := ih scanned
        omega

include stops in
/-- Behind a pattern in no error the scanner goes on with what it holds of the last literal. -/
theorem scan_append {p nstr : Text} {skip : Nat} (inside : skip ≤ p.length) (closed : (scan skip nstr p).2 = false)
    (known : ∀ e ∈ (scan skip nstr p).1, e.unknown = false) :
    ∃ front nstr', (scan skip nstr p).1 = front ++ flush nstr' ∧
      scan skip nstr (p ++ q) = (front ++ (scan 0 nstr' q).1, (scan 0 nstr' q).2) := by
  induction p generalizing skip nstr with
  | nil =>
    obtain rfl : skip = 0 := Nat.le_zero.mp inside
    exact ⟨[], nstr, rfl, rfl⟩
  | cons c rest ih =>
    rw [List.cons_append]
    cases skip with
    | succ skip => exact ih (Nat.le_of_succ_le_succ inside) closed known
    | zero =>
      rw [scan] at closed known ⊢
      rw [scan]
      by_cases sign : c = '%'
      · simp only [sign, ne_eq, not_true_eq_false, if_false] at closed known ⊢
        by_cases double : rest.head? = some '%'
        · have double' : (rest ++ q).head? = some '%' := by
            rw [List.head?_append, double]
            rfl
          rw [if_pos double] at closed known ⊢
          rw [if_pos double']
          exact ih (Nat.zero_le _) closed known
        · rw [if_neg double] at closed known ⊢
          cases scanned : scanKey [] 0 rest with
          | none =>
            rw [scanned] at closed
            cases closed
          | some found =>
            obtain ⟨str, fmt, used⟩ := found
            simp only [scanned] at closed known ⊢
            -- a percent sign at the end has the empty key, which is unknown
            have more : rest ≠ [] := by
              rintro rfl
              cases scanned
              have unknown := known (.directive [] []) (by simp)
              exact absurd unknown (by decide)
            have single : (rest ++ q).head? ≠ some '%' := by
              rwa [List.head?_append_of_ne_nil _ more]
            have fits := scanKey_used scanned
            rw [Nat.zero_add] at fits
            obtain ⟨front, nstr', entries, next⟩ := ih fits closed fun e member =>
              known e (List.mem_append_right _ (List.mem_cons_of_mem _ member))
            refine ⟨flush nstr ++ .directive str fmt :: front, nstr', ?_, ?_⟩
            · rw [entries]
              simp
            · rw [if_neg single, scanKey_append stops scanned]
              simp only [next]
              simp
      · simp only [ne_eq, sign, not_false_eq_true, if_true] at closed known ⊢
        exact ih (Nat.zero_le _) closed known

end

theorem count_flush (nstr : Text) : (flush nstr).countP Entry.isDirective = 0 := by
  by_cases empty : nstr = [] <;> simp [flush, empty, Entry.isDirective]

/-- Text that starts with a percent sign adds a directive. -/
theorem count_append {p q : Text} (fine : (init p).error = false) (fine' : (init (p ++ q)).error = false)
    (percent : q.head? = some '%') :
    (init p).items.countP (!·.literal) < (init (p ++ q)).items.countP (!·.literal) := by
  have stops : Stops q := by
    cases q with
    | nil => trivial
    | cons c rest =>
      rw [Option.some.inj percent]
      exact ⟨by decide, by decide, by decide⟩
  obtain ⟨closed, known⟩ := unknown_of_error fine
  obtain ⟨front, nstr', entries, scanned⟩ := scan_append stops (Nat.zero_le _) closed known
  have closed' := (unknown_of_error fine').1
  rw [scanned] at closed'
  have more := count_pos (List.mem_of_mem_head? percent) nstr' closed'
  rw [count_items fine, count_items fine', entries, scanned, List.countP_append, List.countP_append, count_flush]
  omega

theorem not_adds {p t : Text} (fine : (init p).error = false) (percent : t.head? = some '%') : ¬ Adds p t := by
  rintro ⟨fine', added⟩
  have first : (escape t).head? = some '%' := by
    cases t with
    | nil => cases percent
    | cons c t =>
      rw [Option.some.inj percent]
      rfl
  have more := count_append fine fine' first
  rcases added with same | ⟨front, s, old, new⟩
  · rw [same, List.countP_append] at more
    simp [FormatItem.literal] at more
  · rw [old, new, List.countP_append, List.countP_append] at more
    simp [FormatItem.literal] at more

/-- A text escaped by doubling its percent signs comes out as itself exactly when it has none, and behind no pattern
does an escaped text that starts with one add only itself. -/
theorem escape_iff (t : Text) :
    (Escapes t ↔ '%' ∉ t) ∧ ¬ ∃ p, (init p).error = false ∧ t.head? = some '%' ∧ Adds p t := by
  refine ⟨escapes_iff t, ?_⟩
  rintro ⟨p, fine, percent, adds⟩
  exact not_adds fine percent adds

/-- An escaped sign is an error, and an escaped `%m` prints the message. -/
theorem escape_again :
    init (escape ['%']) = ⟨"%%".toList, [.string ['%'], .string "<<error_format %>>".toList], true⟩ ∧
      (init (escape ['%', 'm'])).items = [.string ['%'], .message] := by
  decide

end LogFormatter

end Cool
