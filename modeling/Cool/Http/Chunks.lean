import Cool.Http.Session
import Cool.Http.Tokens

/-!
# A request that arrives in pieces

`recvRequest` hands every read to `execute` on its own: a call consumes all it is given unless it
finishes or fails, so nothing is left in the buffer for the next one. The machine state survives
between the calls, the registers do not. Reading in pieces is therefore reading at once as long as
no action of the machine uses a register that was set in an earlier read.
-/

namespace Cool.Http

open Foundation HttpRequestParser HttpSession

/-! ### Forgetting captures -/

namespace Captures

/-- `k'` has every capture that `k` has. -/
structure Extends (k' k : Captures) : Prop where
  mark : ∀ text, k.mark = some text → k'.mark = some text
  fieldStart : ∀ text, k.fieldStart = some text → k'.fieldStart = some text
  field : ∀ text, k.field = some text → k'.field = some text
  query : ∀ text, k.query = some text → k'.query = some text

namespace Extends

variable {k k' : Captures} {c : UInt8} {a : Action}

theorem of_none : Extends k' .none := ⟨nofun, nofun, nofun, nofun⟩

theorem registers (more : Extends k' k) (a : Action) : Extends (k'.registers a) (k.registers a) := by
  cases a with
  | mark => exact { more with mark := fun _ same => same }
  | startField => exact { more with fieldStart := fun _ same => same, field := fun _ same => same }
  | writeField => exact { more with field := more.fieldStart }
  | startQuery => exact { more with query := fun _ same => same }
  | _ => exact more

theorem map_append {o o' : Option (List UInt8)} (more : ∀ text, o = some text → o' = some text) :
    ∀ text, o.map (· ++ [c]) = some text → o'.map (· ++ [c]) = some text := by
  intro text same
  obtain ⟨u, held, rfl⟩ := Option.map_eq_some_iff.mp same
  rw [more u held]
  rfl

theorem advance (more : Extends k' k) : Extends (k'.advance c) (k.advance c) where
  mark := map_append more.mark
  fieldStart := map_append more.fieldStart
  field := more.field
  query := map_append more.query

theorem callback {d d' : Parsed} (more : Extends k' k) (done : k.callback c a d = .ok d') :
    k'.callback c a d = .ok d' := by
  cases a with
  | writeValue =>
    obtain ⟨name, hfield, done⟩ := bind_known done
    obtain ⟨value, hmark, rfl⟩ := map_known done
    simp only [Captures.callback, more.field name hfield, more.mark value hmark]
    rfl
  | requestMethod =>
    obtain ⟨text, hmark, done⟩ := bind_known done
    simp only [Captures.callback, more.mark text hmark]
    exact done
  | queryString =>
    obtain ⟨text, hquery, rfl⟩ := map_known done
    simp only [Captures.callback, more.query text hquery]
    rfl
  | fragment | httpVersion | requestPath =>
    obtain ⟨text, hmark, rfl⟩ := map_known done
    simp only [Captures.callback, more.mark text hmark]
    rfl
  | _ => exact done

end Extends

end Captures

namespace Tokens

variable {uriRelaxed : Bool} {c : UInt8} {chunk : List UInt8} {t t' : Tokens}

/-- The same machine with captures that `t` may lack. -/
structure Extends (t' t : Tokens) : Prop where
  cs : t'.cs = t.cs
  parsed : t'.toParsed = t.toParsed
  captures : t'.captures.Extends t.captures

theorem Extends.forget (more : Extends t' t) : Extends t' t.forget :=
  ⟨more.cs, more.parsed, .of_none⟩

theorem perform_extends {as : List Action} {k k' k₁ : Captures} {d d₁ : Parsed}
    (more : k'.Extends k) (run : perform c as k d = .ok (k₁, d₁)) :
    ∃ k₁', perform c as k' d = .ok (k₁', d₁) ∧ k₁'.Extends k₁ := by
  induction as generalizing k k' d with
  | nil => cases run; exact ⟨k', rfl, more⟩
  | cons a as ih =>
    unfold perform at run
    split at run
    · cases run
    · rename_i d₂ hcallback
      unfold perform
      rw [more.callback hcallback]
      exact ih (more.registers a) run

theorem step_extends {move : Move Tokens} (more : Extends t' t) (run : step uriRelaxed c t = .ok move) :
    ∃ move', step uriRelaxed c t' = .ok move' ∧ move'.Rel Extends Extends move := by
  have same : edge uriRelaxed t'.cs c = edge uriRelaxed t.cs c := by rw [more.cs]
  have performed' {as : List Action} {k : Captures} {d : Parsed}
      (performed : perform c as t.captures t.toParsed = .ok (k, d)) :
      ∃ k', perform c as t'.captures t'.toParsed = .ok (k', d) ∧ k'.Extends k := by
    rw [more.parsed]
    exact perform_extends more.captures performed
  cases follow_iff.mp run with
  | rejected dead =>
    exact ⟨_, follow_iff.mpr (.rejected (same.trans dead)), .stop ⟨rfl, more.parsed, more.captures⟩⟩
  | finished taken performed done =>
    obtain ⟨k', hperform, more'⟩ := performed' performed
    exact ⟨_, follow_iff.mpr (.finished (same.trans taken) hperform done),
      .stop ⟨rfl, rfl, more'.advance⟩⟩
  | advanced taken performed going =>
    obtain ⟨k', hperform, more'⟩ := performed' performed
    exact ⟨_, follow_iff.mpr (.advanced (same.trans taken) hperform going),
      .next ⟨rfl, rfl, more'.advance⟩⟩

theorem scan_extends {move : Move Tokens} (more : Extends t' t)
    (run : scan (step uriRelaxed) chunk t = .ok move) :
    ∃ move', scan (step uriRelaxed) chunk t' = .ok move' ∧ move'.Rel Extends Extends move := by
  refine scan_simulates (R := fun _ => Extends) (J := Extends) (fun c _ t' t move more run => ?_) more run
  exact step_extends more run

/-! ### An error is never taken back -/

theorem callback_error {k : Captures} {a : Action} {d d' : Parsed} (failed : d.error ≠ 0)
    (done : k.callback c a d = .ok d') : d'.error ≠ 0 := by
  cases a with
  | writeValue =>
    obtain ⟨name, hfield, done⟩ := bind_known done
    obtain ⟨value, hmark, rfl⟩ := map_known done
    unfold Parsed.onRequestHttpField
    split <;> exact failed
  | requestMethod =>
    obtain ⟨text, hmark, done⟩ := bind_known done
    split at done
    · cases done
      unfold Parsed.onRequestMethod
      split
      · exact Nat.succ_ne_zero 999
      · exact failed
    · cases done
  | httpVersion =>
    obtain ⟨text, hmark, rfl⟩ := map_known done
    unfold Parsed.onRequestVersion
    rcases onVersion_cases text text.length _ _ with ⟨version, stored⟩ | refused
    · rw [stored]
      exact failed
    · rw [refused]
      exact Nat.succ_ne_zero 1000
  | queryString | fragment | requestPath =>
    obtain ⟨text, held, rfl⟩ := map_known done
    exact failed
  | _ => cases done; exact failed

theorem perform_error {as : List Action} {k k' : Captures} {d d' : Parsed} (failed : d.error ≠ 0)
    (run : perform c as k d = .ok (k', d')) : d'.error ≠ 0 := by
  induction as generalizing k d with
  | nil => cases run; exact failed
  | cons a as ih =>
    unfold perform at run
    split at run
    · cases run
    · rename_i d₁ hcallback
      exact ih (callback_error failed hcallback) run

theorem scan_error {move : Move Tokens} (failed : t.error ≠ 0)
    (run : scan (step uriRelaxed) chunk t = .ok move) :
    move.Holds (fun t' => t'.error ≠ 0) (fun t' => t'.error ≠ 0) := by
  refine scan_holds (N := fun _ t' => t'.error ≠ 0) (fun c _ t move failed run => ?_) failed run
  cases follow_iff.mp run with
  | rejected => exact failed
  | finished taken performed | advanced taken performed => exact perform_error failed performed

end Tokens

/-! ### Pieces that stand on their own -/

/-- Every action in every piece finds what it needs in the same piece: the machine on tokens gets
through the pieces although it forgets all captures between them. -/
def contained (uriRelaxed : Bool) : List (List UInt8) → Tokens → Bool
  | [], _ => true
  | chunk :: chunks, t =>
    match scan (Tokens.step uriRelaxed) chunk t.forget with
    | .error _ => false
    | .ok (.stop _) => true
    | .ok (.next t') => contained uriRelaxed chunks t'

theorem contained_scan {uriRelaxed : Bool} {chunks : List (List UInt8)} {t t' : Tokens}
    (more : t'.Extends t) (whole : contained uriRelaxed chunks t = true) :
    ∃ move, scan (Tokens.step uriRelaxed) chunks.flatten t' = .ok move := by
  induction chunks generalizing t t' with
  | nil => exact ⟨_, rfl⟩
  | cons chunk chunks ih =>
    unfold contained at whole
    rw [List.flatten_cons]
    split at whole
    · cases whole
    · rename_i t₁ hscan
      obtain ⟨_, hscan', rel⟩ := Tokens.scan_extends more.forget hscan
      cases rel with
      | stop more' => exact ⟨_, scan_append_of_stop hscan'⟩
    · rename_i t₁ hscan
      obtain ⟨_, hscan', rel⟩ := Tokens.scan_extends more.forget hscan
      cases rel with
      | next more' =>
        rw [scan_append_of_next hscan']
        exact ih more' whole

namespace HttpSession

theorem read_whole {chunk : List UInt8} (later : List (List UInt8)) {n : Nat} (nonempty : chunk ≠ [])
    (fits : chunk.length ≤ n) : read n ⟨chunk :: later, true⟩ = some (chunk, ⟨later, true⟩) := by
  unfold read
  rw [if_pos rfl]
  simp only [List.take_of_length_le fits, if_neg nonempty, if_pos fits]

/-- One turn of the header loop on a read that fits the buffer. -/
theorem recvHeader_cons {size : BufferSize} {m m' : HttpRequestParser} {data chunk : List UInt8}
    (later : List (List UInt8)) {nparse : Nat} (nonempty : chunk ≠ []) (fits : chunk.length ≤ size)
    (room : data.length = size.val)
    (run : m.httpParserExecute (chunk ++ data.drop chunk.length) chunk.length = .ok (nparse, m')) :
    ∃ data', data'.length = size.val ∧ data'.take (chunk.length - nparse) = chunk.drop nparse ∧
      recvHeader size m data 0 ⟨chunk :: later, true⟩ =
        if m'.hasError then .ok (none, ⟨later, false⟩)
        else if chunk.length - nparse = size then .ok (none, ⟨later, false⟩)
        else if m'.isFinished ≠ 0 then .ok (some ⟨m', data', chunk.length - nparse⟩, ⟨later, true⟩)
        else recvHeader size m' data' (chunk.length - nparse) ⟨later, true⟩ := by
  have stored : overwrite data 0 chunk = chunk ++ data.drop chunk.length := by
    rw [overwrite_eq (by omega)]
    simp
  refine ⟨overwrite (chunk ++ data.drop chunk.length) 0 (chunk.drop nparse), ?_, ?_, ?_⟩
  · simp only [length_overwrite, List.length_append, List.length_drop]
    omega
  · rw [overwrite_eq (by simp; omega)]
    simp [List.length_drop]
  · have got := read_whole later nonempty (n := size - 0) (by omega)
    have executed : m.execute (overwrite data 0 chunk) (chunk.length + 0) =
        .ok (nparse, overwrite (chunk ++ data.drop chunk.length) 0 (chunk.drop nparse), m') := by
      unfold execute
      rw [stored, Nat.add_zero, run]
      simp
    rw [recvHeader]
    split
    · rename_i none
      rw [got] at none
      cases none
    · rename_i chunk' s' some
      rw [got] at some
      cases some
      simp only [executed]
      rfl

theorem hasError_leave {m : HttpRequestParser} {s : Locals} {t : Tokens} {uriRelaxed : Bool}
    (alike : Tokens.Alike uriRelaxed s t) (live : m.parser.cs ≠ 0) :
    (m.leave s).hasError = (t.error != 0 || t.cs == 0) := by
  have parsed : s.owner.error = t.error := congrArg Parsed.error alike.parsed
  simp only [hasError, leave, if_neg live, parsed, alike.cs]

theorem isFinished_leave {m : HttpRequestParser} {s : Locals} {t : Tokens} {uriRelaxed : Bool}
    (alike : Tokens.Alike uriRelaxed s t) (live : m.parser.cs ≠ 0) :
    (m.leave s).isFinished = if t.cs = 0 then -1 else if 348 ≤ t.cs then 1 else 0 := by
  simp only [isFinished, leave, if_neg live, alike.cs]

section Turn

variable {size : BufferSize} {uriRelaxed : Bool} {chunk data : List UInt8} {m : HttpRequestParser}
  {t t₁ : Tokens}

theorem recvHeader_finishes (later : List (List UInt8)) (idle : Tokens.Idle uriRelaxed m t)
    (room : data.length = size.val) (nonempty : chunk ≠ []) (fits : chunk.length ≤ size)
    (run : scan (Tokens.step uriRelaxed) chunk t.forget = .ok (.stop t₁)) (accepted : t₁.cs ≠ 0)
    (sound : t₁.error = 0) :
    ∃ got, recvHeader size m data 0 ⟨chunk :: later, true⟩ = .ok (some got, ⟨later, true⟩) ∧
      got.parser.isFinished = 1 ∧ got.parser.hasError = false ∧
      got.parser.toParsed = t₁.toParsed := by
  have live := idle.cs_ne_zero
  obtain ⟨s, hexec, left, alike, settled⟩ :=
    Tokens.execute_tracks (data.drop chunk.length) idle nonempty (Nat.lt_of_le_of_lt fits size.isLt) run
  obtain ⟨data', -, -, turn⟩ := recvHeader_cons later nonempty fits room hexec
  have final : 348 ≤ t₁.cs := settled.resolve_left accepted
  have hasError : (m.leave s).hasError = false := by
    rw [hasError_leave alike live]; simp [Move.state, accepted, sound]
  have isFinished : (m.leave s).isFinished = 1 := by
    rw [isFinished_leave alike live]; simp [Move.state, accepted, final]
  have started := List.length_pos_of_ne_nil nonempty
  have moved : 0 < s.p := left.moved.resolve_left (alike.cs.trans_ne accepted)
  rw [hasError, isFinished, if_neg (by decide), if_neg (by omega), if_pos (by decide)] at turn
  exact ⟨_, turn, isFinished, hasError, alike.parsed⟩

theorem recvHeader_spends (later : List (List UInt8)) (idle : Tokens.Idle uriRelaxed m t)
    (room : data.length = size.val) (nonempty : chunk ≠ []) (fits : chunk.length ≤ size)
    (run : scan (Tokens.step uriRelaxed) chunk t.forget = .ok (.next t₁)) (sound : t₁.error = 0) :
    ∃ m' data', Tokens.Idle uriRelaxed m' t₁ ∧ data'.length = size.val ∧
      recvHeader size m data 0 ⟨chunk :: later, true⟩ = recvHeader size m' data' 0 ⟨later, true⟩ := by
  have live := idle.cs_ne_zero
  obtain ⟨s, hexec, -, alike, spent, idle'⟩ :=
    Tokens.execute_tracks (data.drop chunk.length) idle nonempty (Nat.lt_of_le_of_lt fits size.isLt) run
  obtain ⟨data', room', -, turn⟩ := recvHeader_cons later nonempty fits room hexec
  obtain ⟨accepted, unfinished⟩ := idle'.live
  have hasError : (m.leave s).hasError = false := by
    rw [hasError_leave alike live]; simp [Move.state, accepted, sound]
  have isFinished : (m.leave s).isFinished = 0 := by
    rw [isFinished_leave alike live]; simp [Move.state, accepted, Nat.not_le.mpr unfinished]
  have started := List.length_pos_of_ne_nil nonempty
  rw [hasError, isFinished, spent, if_neg (by decide), if_neg (by omega), if_neg (by decide),
    Nat.sub_self] at turn
  exact ⟨_, data', idle', room', turn⟩

end Turn

/-- The header loop on pieces that stand on their own ends as the machine on tokens ends on all of
them together. -/
theorem recvHeader_contained {size : BufferSize} {uriRelaxed : Bool} {chunks : List (List UInt8)}
    {m : HttpRequestParser} {t t' final : Tokens} {data : List UInt8}
    (idle : Tokens.Idle uriRelaxed m t) (room : data.length = size.val)
    (nonempty : ∀ chunk ∈ chunks, chunk ≠ []) (fits : ∀ chunk ∈ chunks, chunk.length ≤ size)
    (whole : contained uriRelaxed chunks t = true) (more : t'.Extends t)
    (run : scan (Tokens.step uriRelaxed) chunks.flatten t' = .ok (.stop final))
    (accepted : final.cs ≠ 0) (sound : final.error = 0) :
    ∃ got later, recvHeader size m data 0 ⟨chunks, true⟩ = .ok (some got, later) ∧
      got.parser.isFinished = 1 ∧ got.parser.hasError = false ∧
      got.parser.toParsed = final.toParsed := by
  induction chunks generalizing m t t' data with
  | nil => cases run
  | cons chunk chunks ih =>
    obtain ⟨hne, nonempty⟩ := List.forall_mem_cons.mp nonempty
    obtain ⟨hfits, fits⟩ := List.forall_mem_cons.mp fits
    unfold contained at whole
    rw [List.flatten_cons] at run
    split at whole
    · cases whole
    · rename_i t₁ hscan
      obtain ⟨_, hscan', rel⟩ := Tokens.scan_extends more.forget hscan
      cases rel with
      | stop more' =>
        rw [scan_append_of_stop hscan'] at run
        cases run
        obtain ⟨got, hrecv, hfin, herr, parsed⟩ :=
          recvHeader_finishes chunks idle room hne hfits hscan (more'.cs ▸ accepted)
            ((congrArg Parsed.error more'.parsed).symm.trans sound)
        exact ⟨got, _, hrecv, hfin, herr, parsed.trans more'.parsed.symm⟩
    · rename_i t₁ hscan
      obtain ⟨_, hscan', rel⟩ := Tokens.scan_extends more.forget hscan
      cases rel with
      | @next t₁' _ more' =>
        rw [scan_append_of_next hscan'] at run
        -- an error now would still be there at the end
        have sound' : t₁.error = 0 := by
          by_contra failed
          have failed' : t₁'.error ≠ 0 := by
            rw [congrArg Parsed.error more'.parsed]; exact failed
          exact Tokens.scan_error failed' run sound
        obtain ⟨m', data', idle', room', turn⟩ :=
          recvHeader_spends chunks idle room hne hfits hscan sound'
        rw [turn]
        exact ih idle' room' nonempty fits whole more' run

/-- A request that one call of `execute` accepts is read the same in pieces that stand on their
own. -/
theorem recvHeader_eq_single {size : BufferSize} (memory : Memory size) (chunks : List (List UInt8))
    (beyond : List UInt8) {h : Nat} {rest : List UInt8} {single : HttpRequestParser}
    (nonempty : ∀ chunk ∈ chunks, chunk ≠ []) (fits : ∀ chunk ∈ chunks, chunk.length ≤ size)
    (run : (HttpRequestParser.new memory.toUninit).execute (chunks.flatten ++ beyond)
      chunks.flatten.length = .ok (h, rest, single))
    (finished : single.isFinished = 1) (sound : single.hasError = false)
    (whole : contained memory.uriRelaxed chunks Tokens.new = true) :
    ∃ got later,
      recvHeader size (HttpRequestParser.new memory.toUninit) memory.buffer 0 ⟨chunks, true⟩ =
        .ok (some got, later) ∧
      got.parser.isFinished = 1 ∧ got.parser.hasError = false ∧ got.parser.data = single.data := by
  have idle := Tokens.idle_new memory.toUninit
  have same : Tokens.new.Extends Tokens.new := ⟨rfl, rfl, .of_none⟩
  obtain ⟨move, hscan⟩ := contained_scan same whole
  have hne : chunks.flatten ≠ [] := by
    intro empty
    rw [empty] at run
    cases run
    have unstarted : (HttpRequestParser.new memory.toUninit).isFinished = 0 := rfl
    rw [unstarted] at finished
    cases finished
  obtain ⟨s, hexec, -, alike, settled⟩ := Tokens.execute_tracks beyond idle hne (small_of_execute run) hscan
  unfold execute at run
  rw [hexec] at run
  cases run
  rw [hasError_leave alike idle.cs_ne_zero] at sound
  rw [isFinished_leave alike idle.cs_ne_zero] at finished
  cases move with
  | next t =>
    obtain ⟨live, unfinished⟩ := settled.2.live
    simp [Move.state, live, Nat.not_le.mpr unfinished] at finished
  | stop t =>
    simp only [Move.state, Bool.or_eq_false_iff, bne_eq_false_iff_eq, beq_eq_false_iff_ne] at sound
    obtain ⟨got, later, hrecv, hfin, herr, parsed⟩ :=
      recvHeader_contained idle memory.buffer_length nonempty fits whole same hscan
        sound.2 sound.1
    refine ⟨got, later, hrecv, hfin, herr, ?_⟩
    exact (congrArg Parsed.data parsed).trans (congrArg Parsed.data alike.parsed).symm

/-- Line by line: no token is cut. -/
theorem recvHeader_eq_single_lines :
    ∃ got later,
      recvHeader 64 (HttpRequestParser.new (Memory.zeroed 64).toUninit) (Memory.zeroed 64).buffer 0
          ⟨[ascii "GET /a HTTP/1.1\r\n", ascii "Host: x\r\n", ascii "\r\n"], true⟩ =
        .ok (some got, later) ∧ got.parser.hasError = false := by
  let chunks := [ascii "GET /a HTTP/1.1\r\n", ascii "Host: x\r\n", ascii "\r\n"]
  have single : ((HttpRequestParser.new (Memory.zeroed 64).toUninit).execute (chunks.flatten ++ [])
      chunks.flatten.length).toOption.map (fun r => (r.2.2.isFinished, r.2.2.hasError)) =
        some (1, false) := by decide +kernel
  cases run : (HttpRequestParser.new (Memory.zeroed 64).toUninit).execute (chunks.flatten ++ [])
      chunks.flatten.length with
  | error f => rw [run] at single; cases single
  | ok r =>
    rw [run] at single
    obtain ⟨finished, sound⟩ := Prod.mk.inj (Option.some.inj single)
    obtain ⟨got, later, same, -, herr, -⟩ := recvHeader_eq_single (Memory.zeroed 64) chunks []
      (by decide +kernel) (by decide +kernel) run finished sound (by decide +kernel)
    exact ⟨got, later, same, herr⟩

/-- A cut inside the method is an error; a cut before the end of the request line turns version 1.0
into 1.1. -/
theorem recvHeader_cutToken :
    ((HttpRequestParser.new (Memory.zeroed 64).toUninit).execute
        (ascii "GET / HTTP/1.0\r\n\r\n") 18).toOption.map
      (fun r => (r.1, r.2.2.isFinished, r.2.2.hasError, r.2.2.data.version)) =
        some (18, 1, false, 0x10) ∧
    (recvHeader 64 (HttpRequestParser.new (Memory.zeroed 64).toUninit) (Memory.zeroed 64).buffer 0
        ⟨[ascii "G", ascii "ET / HTTP/1.0\r\n\r\n"], true⟩).toOption =
      some (none, ⟨[], false⟩) ∧
    (recvHeader 64 (HttpRequestParser.new (Memory.zeroed 64).toUninit) (Memory.zeroed 64).buffer 0
        ⟨[ascii "GET / HTTP/1.0", ascii "\r\n\r\n"], true⟩).toOption.bind
      (fun r => r.1.map fun got => (got.parser.isFinished, got.parser.hasError, got.parser.data.version)) =
        some (1, false, 0x11) := by
  decide +kernel

end HttpSession

end Cool.Http
