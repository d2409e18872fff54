import Cool.Http.RequestTrip
import Mathlib.Data.List.Pairwise

/-!
# The method of a request

`on_request_method` compares the names of the table with the memory at the method, and never looks at the
length of the token. No name starts another, so the first name that stands there is the only one; but a name
can stand there without being the token.
-/

namespace Cool.Http

open Foundation

variable {text t rest name : List UInt8} {entry : HttpMethod × List UInt8} {d : Parsed}

/-! ### The two look-ups -/

theorem methods_apart : httpMethodMap.Pairwise fun e e' => ¬ e.2 <+: e'.2 ∧ ¬ e'.2 <+: e.2 := by decide +kernel

theorem methods_prefix_free {e e' : HttpMethod × List UInt8} (member : e ∈ httpMethodMap)
    (member' : e' ∈ httpMethodMap) (starts : e.2 <+: e'.2) : e = e' := by
  by_contra distinct
  have symm : Std.Symm fun e e' : HttpMethod × List UInt8 => ¬ e.2 <+: e'.2 ∧ ¬ e'.2 <+: e.2 := ⟨fun _ _ => And.symm⟩
  exact (methods_apart.forall member member' distinct).1 starts

theorem methods_visible : ∀ e ∈ httpMethodMap, 0 ∉ e.2 ∧ e.1 ≠ .invalidMethod ∧ e.2 ≠ ascii "M" ∧
    (e.1 = .msearch → e.2 = ascii "M - SEARCH") := by
  decide +kernel

theorem strncmpEq_iff_starts (visible : 0 ∉ name) :
    strncmpEq name.length name text = true ↔ name <+: text := by
  induction name generalizing text with
  | nil => simp [strncmpEq]
  | cons c name ih =>
    obtain ⟨here, rest⟩ := not_or.mp (mt List.mem_cons.mpr visible)
    cases text with
    | nil => simp [strncmpEq]
    | cons d text =>
      simp [strncmpEq, List.cons_prefix_cons, ih rest, Ne.symm here]

theorem charsToHttpMethd_of_starts (member : entry ∈ httpMethodMap) (here : entry.2 <+: text) :
    charsToHttpMethd text = entry.1 := by
  unfold charsToHttpMethd
  split
  · rename_i missing
    have absent := List.find?_eq_none.mp missing entry member
    rw [strncmpEq_iff_starts (methods_visible entry member).1] at absent
    exact absurd here absent
  · rename_i other found
    have listed := List.mem_of_find?_eq_some found
    have there := List.find?_some found
    rw [strncmpEq_iff_starts (methods_visible other listed).1] at there
    -- Of two names that start the same memory one starts the other.
    rcases List.prefix_or_prefix_of_prefix there here with below | below
    · rw [methods_prefix_free listed member below]
    · rw [methods_prefix_free member listed below]

theorem charsToHttpMethd_of_none (none : ∀ e ∈ httpMethodMap, ¬ e.2 <+: text) :
    charsToHttpMethd text = .invalidMethod := by
  unfold charsToHttpMethd
  rw [List.find?_eq_none.mpr]
  intro e member there
  rw [strncmpEq_iff_starts (methods_visible e member).1] at there
  exact none e member there

theorem stringToHttpMethod_of_mem (member : entry ∈ httpMethodMap) : stringToHttpMethod entry.2 = entry.1 := by
  unfold stringToHttpMethod
  rw [takeWhile_visible (methods_visible entry member).1]
  split
  · rename_i missing
    exact absurd BEq.rfl (List.find?_eq_none.mp missing entry member)
  · rename_i other found
    have same : other.2 = entry.2 := by simpa using List.find?_some found
    rw [methods_prefix_free (List.mem_of_find?_eq_some found) member (same ▸ List.prefix_rfl)]

theorem stringToHttpMethod_of_none (visible : 0 ∉ t) (none : ∀ e ∈ httpMethodMap, e.2 ≠ t) :
    stringToHttpMethod t = .invalidMethod := by
  unfold stringToHttpMethod
  rw [takeWhile_visible visible, List.find?_eq_none.mpr]
  intro e member there
  exact none e member (by simpa using there)

/-! ### A name at a token -/

theorem space_not_mem (chars : ∀ c ∈ t, isMethodChar c = true) : 32 ∉ t :=
  fun inside => absurd (chars 32 inside) (by decide)

theorem prefix_token (chars : ∀ c ∈ name, isMethodChar c = true) : name <+: t ++ 32 :: rest ↔ name <+: t := by
  constructor
  · intro here
    rcases List.prefix_or_prefix_of_prefix here (List.prefix_append t _) with within | beyond
    · exact within
    · -- A longer name would have the space in it.
      obtain ⟨more, rfl⟩ := beyond
      rw [List.prefix_append_right_inj] at here
      cases more with
      | nil => simp
      | cons c more =>
        obtain ⟨rfl, _⟩ := List.cons_prefix_cons.mp here
        exact absurd (List.mem_append_right t List.mem_cons_self) (space_not_mem chars)
  · intro within
    exact within.trans (List.prefix_append t _)

theorem prefix_msearch (chars : ∀ c ∈ t, isMethodChar c = true) :
    ascii "M - SEARCH" <+: t ++ 32 :: rest ↔ t = ascii "M" ∧ ascii "- SEARCH" <+: rest := by
  have split : ascii "M - SEARCH" = 77 :: 32 :: ascii "- SEARCH" := by decide
  have single : ascii "M" = [77] := by decide
  rw [split, single]
  constructor
  · intro here
    cases t with
    | nil => cases (List.cons_prefix_cons.mp here).1
    | cons c t =>
      obtain ⟨rfl, later⟩ := List.cons_prefix_cons.mp here
      cases t with
      | nil => exact ⟨rfl, (List.cons_prefix_cons.mp later).2⟩
      | cons c t =>
        obtain ⟨rfl, _⟩ := List.cons_prefix_cons.mp later
        exact absurd (List.mem_cons_of_mem _ List.mem_cons_self) (space_not_mem chars)
  · rintro ⟨rfl, here⟩
    exact List.cons_prefix_cons.mpr ⟨rfl, List.cons_prefix_cons.mpr ⟨rfl, here⟩⟩

/-- A name of the table stands at the token without being the token. -/
def Overruns (t rest : List UInt8) : Prop :=
  (∃ e ∈ httpMethodMap, e.2 <+: t ∧ e.2 ≠ t) ∨ t = ascii "M" ∧ ascii "- SEARCH" <+: rest

instance decidableOverruns (t rest : List UInt8) : Decidable (Overruns t rest) :=
  inferInstanceAs (Decidable ((∃ e ∈ httpMethodMap, e.2 <+: t ∧ e.2 ≠ t) ∨
    t = ascii "M" ∧ ascii "- SEARCH" <+: rest))

theorem name_at_token (chars : ∀ c ∈ t, isMethodChar c = true) (member : entry ∈ httpMethodMap) :
    entry.2 <+: t ++ 32 :: rest ↔
      entry.2 <+: t ∨ entry.1 = .msearch ∧ t = ascii "M" ∧ ascii "- SEARCH" <+: rest := by
  by_cases search : entry.1 = .msearch
  · have spelled := (methods_visible entry member).2.2.2 search
    have outside : ¬ entry.2 <+: t := by
      intro within
      exact space_not_mem chars (within.subset (by rw [spelled]; decide))
    rw [or_iff_right outside, spelled, prefix_msearch chars]
    exact (and_iff_right search).symm
  · rw [prefix_token (List.all_eq_true.mp ((methods_named entry member).2 search).1)]
    exact (or_iff_left fun both => search both.1).symm

/-- A valid method is stored, and any other sets the error. -/
def Parsed.takes (d : Parsed) (m : HttpMethod) : Parsed :=
  if m = .invalidMethod then { d with error := 1000 } else { d with data := { d.data with method := m } }

theorem onRequestMethod_eq (d : Parsed) (text : List UInt8) :
    d.onRequestMethod text = d.takes (charsToHttpMethd text) := by
  unfold Parsed.onRequestMethod Parsed.takes
  split
  · rename_i invalid
    rw [invalid, if_pos rfl]
  · rename_i valid
    rw [if_neg valid]

theorem takes_iff (chars : ∀ c ∈ t, isMethodChar c = true) (fresh : d.error = 0) (rest : List UInt8) :
    d.onRequestMethod (t ++ 32 :: rest) = d.takes (stringToHttpMethod t) ↔ ¬ Overruns t rest := by
  have visible : 0 ∉ t := fun inside => absurd (chars 0 inside) (by decide)
  rw [onRequestMethod_eq]
  by_cases exact_ : ∃ e ∈ httpMethodMap, e.2 = t
  · -- The token is a name, and no other name starts it.
    obtain ⟨e, member, rfl⟩ := exact_
    rw [stringToHttpMethod_of_mem member, charsToHttpMethd_of_starts member (List.prefix_append _ _)]
    refine iff_of_true rfl ?_
    rintro (⟨e', member', starts, other⟩ | ⟨short, _⟩)
    · rw [methods_prefix_free member' member starts] at other
      exact other rfl
    · exact (methods_visible e member).2.2.1 short
  · have none : ∀ e ∈ httpMethodMap, e.2 ≠ t := fun e member same => exact_ ⟨e, member, same⟩
    rw [stringToHttpMethod_of_none visible none]
    by_cases found : ∃ e ∈ httpMethodMap, e.2 <+: t ++ 32 :: rest
    · obtain ⟨e, member, here⟩ := found
      rw [charsToHttpMethd_of_starts member here]
      refine iff_of_false ?_ (not_not.mpr ?_)
      · intro same
        have error : d.error = 1000 := by
          have := congrArg Parsed.error same
          rwa [Parsed.takes, Parsed.takes, if_neg (methods_visible e member).2.1, if_pos rfl] at this
        rw [fresh] at error
        cases error
      · rcases (name_at_token chars member).mp here with within | ⟨_, search⟩
        · exact .inl ⟨e, member, within, none e member⟩
        · exact .inr search
    · have absent : ∀ e ∈ httpMethodMap, ¬ e.2 <+: t ++ 32 :: rest := fun e member here => found ⟨e, member, here⟩
      rw [charsToHttpMethd_of_none absent]
      refine iff_of_true rfl ?_
      rintro (⟨e, member, starts, _⟩ | search)
      · exact absent e member ((name_at_token chars member).mpr (.inl starts))
      · have listed : (HttpMethod.msearch, ascii "M - SEARCH") ∈ httpMethodMap := by decide
        exact absent _ listed ((name_at_token chars listed).mpr (.inr ⟨rfl, search⟩))

/-! ### In the machine -/

namespace HttpRequestParser

variable {buffer l : List UInt8} {c : UInt8} {s : Locals} {cs cs' p : Nat} {as : List Action}
  {m m' : HttpRequestParser}

theorem step_of_move (moved : move m.parser.uriRelaxed cs c = some (cs', as)) (going : .done ∉ as)
    (performed : perform buffer p as m = .ok m') :
    step buffer c ⟨p, cs, m⟩ = .ok (.next ⟨p + 1, cs', m'⟩) := by
  obtain ⟨e, taken, same⟩ := Option.map_eq_some_iff.mp moved
  obtain ⟨rfl, rfl⟩ := Prod.mk.inj same
  exact follow_iff.mpr (.advanced taken performed going)

theorem scan_methodChars {i : Nat} (few : i + l.length < 20) (chars : ∀ c ∈ l, isMethodChar c = true) :
    scan (step buffer) l ⟨p, methodState i, m⟩ = .ok (.next ⟨p + l.length, methodState (i + l.length), m⟩) := by
  refine scan_along (fun r => (⟨p + r.length, methodState (i + r.length), m⟩ : Locals)) ?_
  intro r c rest split
  subst split
  rw [List.length_append, List.length_cons] at few
  have moved := move_method (u := m.parser.uriRelaxed) (i := i + r.length) (by omega)
    (chars c (List.mem_append_right _ List.mem_cons_self))
  rw [step_of_move moved List.not_mem_nil rfl, List.length_append]
  rfl

theorem scan_methodToken (nonempty : t ≠ []) (short : t.length ≤ 20) (chars : ∀ c ∈ t, isMethodChar c = true)
    (rest : List UInt8) (m : HttpRequestParser) :
    ∃ m', scan (step (t ++ 32 :: rest)) (t ++ [32]) ⟨0, 1, m⟩ = .ok (.next ⟨t.length + 1, 3, m'⟩) ∧
      m'.toParsed = m.onRequestMethod (t ++ 32 :: rest) := by
  have start : ∀ u c, isMethodChar c = true → move u 1 c = some (2, [.mark]) := by decide +kernel
  cases t with
  | nil => exact absurd rfl nonempty
  | cons c l =>
    rw [List.length_cons] at short
    generalize c :: l ++ 32 :: rest = buffer
    let marked : HttpRequestParser := { m with parser := { m.parser with mark := 0 } }
    have first : step buffer c ⟨0, 1, m⟩ = .ok (.next ⟨0 + 1, 2, marked⟩) :=
      step_of_move (start m.parser.uriRelaxed c (chars c List.mem_cons_self)) (by decide) rfl
    have letters : scan (step buffer) l ⟨0 + 1, 2, marked⟩ = _ := scan_methodChars (i := 0) (by omega)
      fun c member => chars c (List.mem_cons_of_mem _ member)
    have space : step buffer 32 ⟨0 + 1 + l.length, methodState (0 + l.length), marked⟩ =
        .ok (.next ⟨0 + 1 + l.length + 1, 3, { marked with toParsed := m.onRequestMethod buffer }⟩) :=
      step_of_move (method_moves.2.1 m.parser.uriRelaxed (0 + l.length) (by omega)) (by decide) rfl
    refine ⟨{ marked with toParsed := m.onRequestMethod buffer }, ?_, rfl⟩
    rw [List.cons_append, scan, first]
    dsimp only
    rw [scan_append_of_next letters, scan, space, List.length_cons, Nat.zero_add, Nat.add_comm 1]
    rfl

end HttpRequestParser

/-- Over the method of a request the machine stores what `string_to_http_method` makes of the token, or sets the
error, exactly when no name stands at the token without being the token. -/
theorem method_agrees_iff (junk : Uninit) (nonempty : t ≠ []) (short : t.length ≤ 20)
    (chars : ∀ c ∈ t, isMethodChar c = true) (rest : List UInt8) :
    ∃ m, scan (HttpRequestParser.step (t ++ 32 :: rest)) (t ++ [32]) ⟨0, 1, (HttpRequestParser.new junk).reset⟩ =
        .ok (.next ⟨t.length + 1, 3, m⟩) ∧
      (m.toParsed = (HttpRequestParser.new junk).takes (stringToHttpMethod t) ↔ ¬ Overruns t rest) := by
  obtain ⟨m, ran, called⟩ :=
    HttpRequestParser.scan_methodToken nonempty short chars rest (HttpRequestParser.new junk).reset
  refine ⟨m, ran, ?_⟩
  rw [called]
  exact takes_iff chars rfl rest

theorem method_agrees_iff_get : ∃ m : HttpRequestParser,
    m.toParsed = (HttpRequestParser.new ⟨0, false⟩).takes (stringToHttpMethod (ascii "GET")) ∧ m.data.method = .get := by
  obtain ⟨m, _, iff⟩ := method_agrees_iff ⟨0, false⟩ (t := ascii "GET") (by decide) (by decide) (by decide +kernel)
    (ascii "/ HTTP/1.1")
  have same := iff.mpr (by decide +kernel)
  exact ⟨m, same, by rw [show m.data = m.toParsed.data from rfl, same]; decide +kernel⟩

/-- Longer tokens pass for the names they start with, and `M` passes for a name with spaces in it. -/
theorem method_extended :
    stringToHttpMethod (ascii "GETX") = .invalidMethod ∧
      (HttpRequestParser.new ⟨0, false⟩).onRequestMethod (ascii "GETX / HTTP/1.1") =
        (HttpRequestParser.new ⟨0, false⟩).takes .get ∧
      stringToHttpMethod (ascii "M") = .invalidMethod ∧
      (HttpRequestParser.new ⟨0, false⟩).onRequestMethod (ascii "M - SEARCH / HTTP/1.1") =
        (HttpRequestParser.new ⟨0, false⟩).takes .msearch := by
  decide +kernel

end Cool.Http
