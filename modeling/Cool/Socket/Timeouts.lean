import Cool.FdManager.Total
import Cool.Hook.Contexts

/-!
# The timeouts of a socket

`sendTimeout` and `recvTimeout` of `Socket`. A timeout goes through a `timeval` and the hooked `setsockopt`
into the context of the descriptor, where `do_io` and the two getters read it. The contexts of a process are
not shared between descriptors, so the timeout stays until it is set again or the descriptor is closed.
-/

namespace Cool

open Foundation

namespace FdManager

variable {m m' : FdManager} {fd other : Int} {ref ref' : FdCtx.Ref} {ctx : FdCtx} {place : Fin 64}

/-- No two descriptors have one context. -/
def Apart (m : FdManager) : Prop :=
  ∀ place place' ref, m.datas place = some ref → m.datas place' = some ref → place = place'

theorem peek_of_eq (found : slot fd = .ok place) (held : m.datas place = some ref)
    (there : m.contexts[ref]? = some ctx) : m.peek fd = .ok (some (ref, ctx)) := by
  rw [peek_of_slot found, held, Option.bind_some, there, Option.map_some]

theorem peek_alter_any (there : m.peek fd = .ok (some (ref, ctx))) (ref' : FdCtx.Ref) (change : FdCtx → FdCtx) :
    (m.alter ref' change).peek fd = .ok (some (ref, if ref' = ref then change ctx else ctx)) := by
  obtain ⟨place, found, held, at_⟩ := slot_of_peek there
  refine peek_of_eq (m := m.alter ref' change) found held ?_
  simp only [alter, List.getElem?_modify, at_]
  by_cases same : ref' = ref
  · simp [same]
  · simp [same]

theorem peek_install_other (there : m.peek fd = .ok (some (ref, ctx))) (free : m.datas place = none) (new : FdCtx) :
    (m.install place new).peek fd = .ok (some (ref, ctx)) := by
  obtain ⟨place', found, held, at_⟩ := slot_of_peek there
  apply peek_of_eq found
  · have other : place' ≠ place := by
      intro same
      rw [same, free] at held
      cases held
    exact (Function.update_of_ne other ..).trans held
  · have old : ref < m.contexts.length := m.held place' ref held
    exact (List.getElem?_append_left old).trans at_

theorem peek_del_other (there : m.peek fd = .ok (some (ref, ctx))) (gone : m.del other = .ok m') (apart : other ≠ fd) :
    m'.peek fd = .ok (some (ref, ctx)) := by
  obtain ⟨place, found, held, at_⟩ := slot_of_peek there
  unfold del at gone
  split at gone
  · cases gone
    exact there
  · split at gone
    · cases gone
    · rename_i place' found'
      cases gone
      refine peek_of_eq found ((Function.update_of_ne ?_ ..).trans held) at_
      intro same
      subst same
      exact apart (slot_inj found' found)

theorem Apart.install (apart : Apart m) (free : m.datas place = none) (new : FdCtx) : Apart (m.install place new) := by
  intro p q ref atp atq
  have known : ∀ p, p ≠ place → (m.install place new).datas p = some ref → m.datas p = some ref := by
    intro p other there
    exact (Function.update_of_ne other ..).symm.trans there
  have fresh : ∀ p, p ≠ place → (m.install place new).datas p = some ref → ref ≠ m.contexts.length := by
    intro p other there
    exact Nat.ne_of_lt (m.held p ref (known p other there))
  have last : (m.install place new).datas place = some m.contexts.length := install_self m place new
  by_cases isp : p = place
  · by_cases isq : q = place
    · rw [isp, isq]
    · subst isp
      exact absurd (Option.some.inj (atp.symm.trans last)) (fresh q isq atq)
  · by_cases isq : q = place
    · subst isq
      exact absurd (Option.some.inj (atq.symm.trans last)) (fresh p isp atp)
    · exact apart p q ref (known p isp atp) (known q isq atq)

theorem Apart.del (apart : Apart m) (gone : m.del fd = .ok m') : Apart m' := by
  unfold FdManager.del at gone
  split at gone
  · cases gone
    exact apart
  · split at gone
    · cases gone
    · rename_i place found
      cases gone
      intro p q ref atp atq
      have known : ∀ p, Function.update m.datas place none p = some ref → m.datas p = some ref := by
        intro p there
        by_cases same : p = place
        · subst same
          rw [Function.update_self] at there
          cases there
        · rwa [Function.update_of_ne same] at there
      exact apart p q ref (known p atp) (known q atq)

theorem Apart.ref_ne (apart : Apart m) {ctx' : FdCtx} (there : m.peek fd = .ok (some (ref, ctx)))
    (there' : m.peek other = .ok (some (ref', ctx'))) (ne : other ≠ fd) : ref' ≠ ref := by
  obtain ⟨place, found, held, _⟩ := slot_of_peek there
  obtain ⟨place', found', held', _⟩ := slot_of_peek there'
  rintro rfl
  obtain rfl := apart place place' ref' held held'
  exact ne (slot_inj found' found)

theorem datas_of_find_none (free : m.find fd true = .ok none) (found : slot fd = .ok place) : m.datas place = none := by
  rw [find_create found] at free
  exact Option.map_eq_none_iff.mp (Except.ok.inj free)

end FdManager

namespace HookFun

variable {κ : Type} (T : Thread κ)

/-- `timeval tv{(int)(v / 1000), (int)(v % 1000 * 1000)}`. -/
def timevalOf (v : BitVec 64) : Int × Int :=
  ((BitVec.ofInt 32 (v.toInt.tdiv 1000)).toInt, (BitVec.ofInt 32 (v.toInt.tmod 1000 * 1000)).toInt)

/-- A local variable: where it stands, and the memory with it. -/
def declare {α : Type} (frame : α → κ → Ptr × κ) (a : α) : Hooked κ Ptr := fun w =>
  .ok ((frame a w.sys).1, { w with sys := (frame a w.sys).2 })

def Timeo.option : Timeo → SockOpt
  | .rcvtimeo => .rcvtimeo
  | .sndtimeo => .sndtimeo

def setOption (sock : Int) (option : SockOpt) (val : Ptr) (len : UInt32) : Hooked κ Bool := do
  if (← setsockopt T sock option val len) ≠ 0 then return false
  return true

/-- The two setters, for the socket with descriptor `sock`. -/
def setTimeout (frame : Int × Int → κ → Ptr × κ) (type : Timeo) (sock : Int) (v : BitVec 64) : Hooked κ Unit := do
  let tv ← declare frame (timevalOf v)
  let _ ← setOption T sock (Timeo.option type) tv 16

def setSendTimeout (frame : Int × Int → κ → Ptr × κ) : Int → BitVec 64 → Hooked κ Unit :=
  setTimeout T frame .sndtimeo

def setRecvTimeout (frame : Int × Int → κ → Ptr × κ) : Int → BitVec 64 → Hooked κ Unit :=
  setTimeout T frame .rcvtimeo

/-- The two getters. -/
def timeout (type : Timeo) (sock : Int) : Hooked κ (BitVec 64) := do
  match ← peek sock with
  | none => return -1
  | some (_, ctx) => return (ctx.getTimeout type).toBitVec

def sendTimeout : Int → Hooked κ (BitVec 64) := timeout .sndtimeo

def recvTimeout : Int → Hooked κ (BitVec 64) := timeout .rcvtimeo

/-- The timeout that is in the context after `v` has been set. -/
def kept (v : BitVec 64) : BitVec 64 :=
  BitVec.ofInt 64 ((BitVec.ofInt 32 (v.toInt.tdiv 1000)).toInt * 1000 + v.toInt.tmod 1000)

/-! ### The value -/

variable {T}

theorem tmod_bounds (v : BitVec 64) : -1000 < v.toInt.tmod 1000 ∧ v.toInt.tmod 1000 < 1000 :=
  ⟨Int.lt_tmod_of_pos _ (by decide), Int.tmod_lt_of_pos _ (by decide)⟩

theorem ofInt_timevalOf (v : BitVec 64) :
    BitVec.ofInt 64 ((timevalOf v).1 * 1000 + (timevalOf v).2.tdiv 1000) = kept v := by
  obtain ⟨low, high⟩ := tmod_bounds v
  have small : (BitVec.ofInt 32 (v.toInt.tmod 1000 * 1000)).toInt = v.toInt.tmod 1000 * 1000 :=
    BitVec.toInt_ofInt_eq_self (by decide) (by omega) (by omega)
  rw [timevalOf, small, Int.mul_tdiv_cancel _ (by decide)]
  rfl

theorem toInt_kept (v : BitVec 64) :
    (kept v).toInt = (BitVec.ofInt 32 (v.toInt.tdiv 1000)).toInt * 1000 + v.toInt.tmod 1000 := by
  obtain ⟨low, high⟩ := tmod_bounds v
  have below := BitVec.le_toInt (BitVec.ofInt 32 (v.toInt.tdiv 1000))
  have above := BitVec.toInt_lt (x := BitVec.ofInt 32 (v.toInt.tdiv 1000))
  exact BitVec.toInt_ofInt_eq_self (by decide) (by omega) (by omega)

/-- The seconds of the `timeval` are an `int`. -/
theorem kept_eq_self_iff (v : BitVec 64) :
    kept v = v ↔ -2 ^ 31 ≤ v.toInt.tdiv 1000 ∧ v.toInt.tdiv 1000 < 2 ^ 31 := by
  have whole := Int.tdiv_mul_add_tmod v.toInt 1000
  rw [← BitVec.toInt_inj, toInt_kept]
  constructor
  · intro same
    have below := BitVec.le_toInt (BitVec.ofInt 32 (v.toInt.tdiv 1000))
    have above := BitVec.toInt_lt (x := BitVec.ofInt 32 (v.toInt.tdiv 1000))
    omega
  · rintro ⟨below, above⟩
    rw [BitVec.toInt_ofInt_eq_self (by decide) below above]
    exact whole

/-! ### The context -/

variable {w w' : World κ} {sock : Int} {ref : FdCtx.Ref} {ctx : FdCtx} {type : Timeo} {t : UInt64}

theorem setsockopt_ran {k : κ} {m : FdManager} (type : Timeo) (enabled : T.hookEnable = true)
    (there : m.peek sock = .ok (some (ref, ctx))) {p : Ptr} {tv : Int × Int} (read : T.system.timeval k p = some tv)
    (len : UInt32) : ∃ n k', setsockopt T sock (Timeo.option type) p len ⟨k, m⟩ = .ok (n, ⟨k',
      m.alter ref (FdCtx.setTimeout type (.ofBitVec (BitVec.ofInt 64 (tv.1 * 1000 + tv.2.tdiv 1000))))⟩) := by
  have timeo : SockOpt.timeo (Timeo.option type) = some type := by cases type <;> rfl
  have loaded : load T.system.timeval p ⟨k, m⟩ = .ok (tv, ⟨k, m⟩) := by simp only [load, read]
  rw [setsockopt, enabled, Bool.not_true, if_neg Bool.false_ne_true]
  simp only [timeo]
  rw [bind_ran (peek_ran there k)]
  dsimp only
  rw [bind_ran loaded]
  exact ⟨_, _, rfl⟩

theorem setTimeout_ran {frame : Int × Int → κ → Ptr × κ} {v : BitVec 64} (type : Timeo)
    (enabled : T.hookEnable = true) (there : w.fds.peek sock = .ok (some (ref, ctx)))
    (declared : T.system.timeval (frame (timevalOf v) w.sys).2 (frame (timevalOf v) w.sys).1 = some (timevalOf v)) :
    ∃ k', setTimeout T frame type sock v w =
      .ok ((), ⟨k', w.fds.alter ref (FdCtx.setTimeout type (.ofBitVec (kept v)))⟩) := by
  obtain ⟨n, k', ran⟩ := setsockopt_ran type enabled there declared 16
  rw [ofInt_timevalOf] at ran
  have opted : ∃ b, setOption T sock (Timeo.option type) (frame (timevalOf v) w.sys).1 16
      ⟨(frame (timevalOf v) w.sys).2, w.fds⟩ =
        .ok (b, ⟨k', w.fds.alter ref (FdCtx.setTimeout type (.ofBitVec (kept v)))⟩) := by
    rw [setOption, bind_ran ran]
    by_cases zero : n = 0
    · exact ⟨true, by rw [if_neg (not_not_intro zero)]; rfl⟩
    · exact ⟨false, by rw [if_pos zero]; rfl⟩
  obtain ⟨b, opted⟩ := opted
  refine ⟨k', ?_⟩
  rw [setTimeout, bind_ran (x := declare frame (timevalOf v)) rfl, bind_ran opted]
  rfl

theorem getTimeout_setTimeout (type : Timeo) (v : UInt64) (ctx : FdCtx) :
    (FdCtx.setTimeout type v ctx).getTimeout type = v := by
  cases type <;> rfl

theorem getTimeout_setTimeout_of_ne {type' : Timeo} (ne : type' ≠ type) (v : UInt64) (ctx : FdCtx) :
    (FdCtx.setTimeout type' v ctx).getTimeout type = ctx.getTimeout type := by
  cases type <;> cases type' <;> first | rfl | exact absurd rfl ne

/-! ### How long it stays -/

/-- The descriptor has a context of its own, and the timeout in it. -/
structure Lasting (sock : Int) (type : Timeo) (t : UInt64) (w : World κ) : Prop where
  apart : w.fds.Apart
  there : ∃ ref ctx, w.fds.peek sock = .ok (some (ref, ctx)) ∧ ctx.getTimeout type = t

/-- The calls after which the timeout may be another, or none. -/
def Ends (sock : Int) (type : Timeo) : Origin → Prop
  | .close fd => fd = sock
  | .setsockopt sockfd optname _ _ => sockfd = sock ∧ SockOpt.timeo optname = some type
  | _ => False

theorem stable_apart (S : System κ) : Stable S fun w : World κ => w.fds.Apart where
  system _ _ apart := apart
  create fd ref w w' apart made free := by
    obtain ⟨place, found, rfl⟩ := FdManager.create_ok made
    exact apart.install (FdManager.datas_of_find_none free found) _
  mode _ _ _ apart := apart

theorem spares_apart (c : Origin) : Spares (fun w : World κ => w.fds.Apart) c := by
  cases c with
  | close fd =>
    intro w fds apart gone
    exact apart.del gone
  | setsockopt sockfd optname optval optlen =>
    intro type w ref ctx v _ apart _
    exact apart
  | _ => trivial

theorem stable_lasting (S : System κ) : Stable S (Lasting sock type t) where
  system _ _ lasting := ⟨lasting.apart, lasting.there⟩
  create fd ref w w' lasting made free := by
    have apart := (stable_apart S).create fd ref w w' lasting.apart made free
    obtain ⟨place, found, rfl⟩ := FdManager.create_ok made
    obtain ⟨ref, ctx, there, same⟩ := lasting.there
    exact ⟨apart, ref, ctx, FdManager.peek_install_other there (FdManager.datas_of_find_none free found) _, same⟩
  mode ref' v w lasting := by
    obtain ⟨ref, ctx, there, same⟩ := lasting.there
    refine ⟨lasting.apart, ref, _, FdManager.peek_alter_any there ref' _, ?_⟩
    split
    · exact same
    · exact same

theorem spares_lasting {c : Origin} (other : ¬ Ends sock type c) : Spares (κ := κ) (Lasting sock type t) c := by
  cases c with
  | close fd =>
    intro w fds lasting gone
    obtain ⟨ref, ctx, there, same⟩ := lasting.there
    exact ⟨lasting.apart.del gone, ref, ctx, FdManager.peek_del_other there gone other, same⟩
  | setsockopt sockfd optname optval optlen =>
    intro type' w ref' ctx' v timeo lasting there'
    obtain ⟨ref, ctx, there, same⟩ := lasting.there
    refine ⟨lasting.apart, ref, _, FdManager.peek_alter_any there ref' _, ?_⟩
    by_cases here : sockfd = sock
    · -- The other timeout of the same descriptor.
      have ne : type' ≠ type := by
        rintro rfl
        exact other ⟨here, timeo⟩
      split
      · rw [getTimeout_setTimeout_of_ne ne, same]
      · exact same
    · rw [if_neg (lasting.apart.ref_ne there there' here), same]
  | _ => trivial

/-- A call that returns. -/
def Calls (T : Thread κ) (w : World κ) (c : Origin) (w' : World κ) : Prop :=
  ∃ fuel n, hooked T fuel c w = .ok (n, w')

theorem apart_of_run (elsewhere : Elsewhere T fun w => w.fds.Apart) {k : κ} {calls : List Origin}
    (run : Run (Calls T) ⟨k, .new⟩ calls w) : w.fds.Apart := by
  refine run.invariant (I := fun w => w.fds.Apart) ?_ nofun
  rintro w c w' apart ⟨fuel, n, ran⟩
  exact hooked_keeps elsewhere (stable_apart _) fuel (spares_apart c) w n w' apart ran

theorem lasting_of_run (elsewhere : Elsewhere T (Lasting sock type t)) {calls : List Origin}
    (run : Run (Calls T) w calls w') (others : ∀ c ∈ calls, ¬ Ends sock type c) (before : Lasting sock type t w) :
    Lasting sock type t w' := by
  induction run with
  | nil => exact before
  | snoc run last ih =>
    obtain ⟨fuel, n, ran⟩ := last
    have middle := ih fun c member => others c (List.mem_append_left _ member)
    have other := others _ (List.mem_append_right _ (List.mem_singleton_self _))
    exact hooked_keeps elsewhere (stable_lasting _) fuel (spares_lasting other) _ n _ middle ran

theorem Lasting.timeout_ran (lasting : Lasting sock type t w) : timeout type sock w = .ok (t.toBitVec, w) := by
  obtain ⟨ref, ctx, there, same⟩ := lasting.there
  rw [timeout, bind_ran (peek_ran there w.sys), ← same]
  rfl

/-- A timeout that is set on a socket of a process with hooking is the one that the getter gives, and that
`do_io` waits with, in whatever order other calls follow on whatever descriptors; it is the timeout that was
asked for exactly when its seconds are an `int`. -/
theorem timeout_lasts (enabled : T.hookEnable = true) (type : Timeo) (sock : Int)
    (apart : Elsewhere T fun w => w.fds.Apart) (lasting : ∀ t, Elsewhere T (Lasting sock type t))
    {k : κ} {before : List Origin} {w : World κ} (run : Run (Calls T) ⟨k, .new⟩ before w)
    {ref : FdCtx.Ref} {ctx : FdCtx} (there : w.fds.peek sock = .ok (some (ref, ctx)))
    (frame : Int × Int → κ → Ptr × κ) (v : BitVec 64)
    (declared : T.system.timeval (frame (timevalOf v) w.sys).2 (frame (timevalOf v) w.sys).1 = some (timevalOf v)) :
    ∃ w₁, setTimeout T frame type sock v w = .ok ((), w₁) ∧
      (∀ after w₂, Run (Calls T) w₁ after w₂ → (∀ c ∈ after, ¬ Ends sock type c) →
        timeout type sock w₂ = .ok (kept v, w₂) ∧
        ∃ ref ctx, w₂.fds.peek sock = .ok (some (ref, ctx)) ∧
          (ctx.isSocket = true → ctx.isClosed = false → ctx.userNonblock = false →
            route T w₂.fds sock type = .ok (.waits (.ofBitVec (kept v))))) ∧
      (kept v = v ↔ -2 ^ 31 ≤ v.toInt.tdiv 1000 ∧ v.toInt.tdiv 1000 < 2 ^ 31) := by
  obtain ⟨k', ran⟩ := setTimeout_ran type enabled there declared
  refine ⟨_, ran, ?_, kept_eq_self_iff v⟩
  intro after w₂ later others
  have alone : w.fds.Apart := apart_of_run apart run
  have start : Lasting sock type (.ofBitVec (kept v))
      (⟨k', w.fds.alter ref (FdCtx.setTimeout type (.ofBitVec (kept v)))⟩ : World κ) :=
    ⟨alone, ref, _, FdManager.peek_alter there _, getTimeout_setTimeout type _ ctx⟩
  have stays := lasting_of_run (lasting _) later others start
  refine ⟨stays.timeout_ran, ?_⟩
  obtain ⟨ref, ctx, there, same⟩ := stays.there
  refine ⟨ref, ctx, there, ?_⟩
  intro socket opened blocking
  simp [route, enabled, there, socket, opened, blocking, same]

/-- Sockets whose process has the seconds of a `timeval` behind a pointer of that value. -/
def Thread.timed : Thread (Int → BitVec 32) :=
  { Thread.sockets true with system := { System.sockets with timeval := fun _ p => some (p.toInt, 0) } }

/-- The process after its first `socket`. -/
def timed (sock : Fin 64) : World (Int → BitVec 32) :=
  ⟨Function.update (fun _ => 2) sock (withNonblock 2),
    FdManager.new.install sock ⟨true, true, false, true, false, sock, -1, -1⟩⟩

/-- The default of `TcpServer`, two minutes. -/
theorem timeout_lasts_default : ∃ w,
    setRecvTimeout .timed (fun tv k => (BitVec.ofInt 64 tv.1, k)) 3 120000 (timed 3) = .ok ((), w) ∧
      recvTimeout 3 w = .ok (120000, w) := by
  have still : ∀ I : World (Int → BitVec 32) → Prop, Elsewhere .timed I := fun I =>
    ⟨fun _ _ holds => holds, fun _ _ _ _ holds => holds, fun _ _ holds => holds⟩
  have run : Run (Calls .timed) ⟨fun _ => 2, .new⟩ [.socket 2 1 0] (timed 3) :=
    (.nil : Run _ _ [] _).snoc ⟨0, 3, by with_unfolding_all rfl⟩
  obtain ⟨w, set, lasts, exact_⟩ := timeout_lasts rfl .rcvtimeo 3 (still _) (fun t => still _) run rfl
    (fun tv k => (BitVec.ofInt 64 tv.1, k)) 120000 rfl
  obtain ⟨got, _⟩ := lasts [] w .nil (by simp)
  rw [exact_.mpr (by decide)] at got
  exact ⟨w, set, got⟩

end HookFun

end Cool
