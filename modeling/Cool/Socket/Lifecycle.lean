import Cool.Socket.Basic
import Cool.Foundation.Run

/-!
# The life of a `Socket`

A connected `Socket` has an open descriptor, and an address that it has cached is the one the system has for
that descriptor. A call keeps this up to a point that can be told from the call: `close` of a descriptor sets
the flag that it should clear and leaves the addresses, and no call forgets an address that has changed.
-/

namespace Cool.Socket

open Foundation

variable {answers : Answers} {w : World} {call : Call} {e : Endpoint}

/-- What is cached is what there is now. -/
def Current (cached now : Option Address) : Prop := ∀ address, cached = some address → now = some address

structure Sound (w : World) : Prop where
  opened : w.self.isConnected = true → ∃ e, w.fds w.self.sock = some e
  name : Current w.self.localAddress ((w.fds w.self.sock).map Endpoint.name)
  peer : Current w.self.remoteAddress ((w.fds w.self.sock).bind Endpoint.peer)

/-- A descriptor that the `Socket` has is open. -/
def Owned (w : World) : Prop := w.self.sock ≠ -1 → ∃ e, w.fds w.self.sock = some e

/-- What is expected of a `Socket` that was closed. -/
structure Closed (w : World) : Prop where
  disconnected : w.self.isConnected = false
  silent : ∀ answers, w.transfer answers = (none, -1) ∧ w.streamTransfer answers = (none, -1)
  again : w.close.1 = true

structure Holds (answers : Answers) (w : World) (call : Call) : Prop where
  sound : Sound (w.exec answers call)
  closed : call = .close → Closed (w.exec answers call)

/-- `bind` and `connect` get as far as the system. -/
def Reaches (answers : Answers) (w : World) (addr : Address) : Prop :=
  (w.opened answers).self.sock ≠ -1 ∧ addr.family = w.self.family

/-- There is nothing to close, `connect` does not fail in the system, and no address changes that is cached. -/
def Careful (answers : Answers) (w : World) : Call → Prop
  | .close => w.self.sock = -1
  | .connect addr _ => Reaches answers w addr → ∃ name peer, answers.connect = some (name, peer) ∧
      Current w.self.localAddress (some name) ∧ Current w.self.remoteAddress (some peer)
  | .bind addr => Reaches answers w addr → ∀ name, answers.bind = some name → Current w.self.localAddress (some name)
  | .listen _ => w.self.sock ≠ -1 → ∀ name, answers.listen = some name → Current w.self.localAddress (some name)
  | .init sock => answers.isSocket = true → ∀ e, w.fds sock = some e →
      Current w.self.localAddress (some e.name) ∧ Current w.self.remoteAddress e.peer
  | .transfer | .remoteAddress | .localAddress | .others _ => True

/-! ### Where the descriptor is open -/

theorem sound_iff (there : w.fds w.self.sock = some e) :
    Sound w ↔ Current w.self.localAddress (some e.name) ∧ Current w.self.remoteAddress e.peer := by
  constructor
  · rintro ⟨_, name, peer⟩
    rw [there] at name peer
    exact ⟨name, peer⟩
  · rintro ⟨name, peer⟩
    exact ⟨fun _ => ⟨e, there⟩, by rw [there]; exact name, by rw [there]; exact peer⟩

theorem Sound.cached_none (sound : Sound w) (gone : w.self.sock = -1) :
    w.self.isConnected = false ∧ w.self.localAddress = none ∧ w.self.remoteAddress = none := by
  obtain ⟨opened, name, peer⟩ := sound
  rw [gone, w.invalid] at opened name peer
  refine ⟨?_, ?_, ?_⟩
  · by_contra connected
    obtain ⟨e, impossible⟩ := opened (by simpa using connected)
    cases impossible
  · cases cached : w.self.localAddress with
    | none => rfl
    | some address => cases name address cached
  · cases cached : w.self.remoteAddress with
    | none => rfl
    | some address => cases peer address cached

theorem put_self (w : World) {fd : Int} (valid : fd ≠ -1) (endpoint : Option Endpoint) :
    (w.put fd endpoint).fds fd = endpoint := by
  rw [World.put]
  dsimp only
  rw [if_neg valid, Function.update_self]

/-! ### The addresses -/

theorem localAddress_self (answers : Answers) (w : World) :
    (w.localAddress answers).2.fds = w.fds ∧ (w.localAddress answers).2.self.sock = w.self.sock := by
  unfold World.localAddress
  split
  · exact ⟨rfl, rfl⟩
  · split <;> exact ⟨rfl, rfl⟩

theorem remoteAddress_self (answers : Answers) (w : World) :
    (w.remoteAddress answers).2.fds = w.fds ∧ (w.remoteAddress answers).2.self.sock = w.self.sock := by
  unfold World.remoteAddress
  split
  · exact ⟨rfl, rfl⟩
  · split <;> exact ⟨rfl, rfl⟩

/-- Asking for the own address caches it as it is, and so changes nothing about the cache being right. -/
theorem sound_localAddress (answers : Answers) (w : World) : Sound (w.localAddress answers).2 ↔ Sound w := by
  unfold World.localAddress
  split
  · exact Iff.rfl
  · rename_i empty
    split
    · rename_i e there _
      constructor
      · rintro ⟨opened, _, peer⟩
        refine ⟨opened, ?_, peer⟩
        rw [empty]
        rintro _ ⟨⟩
      · rintro ⟨opened, _, peer⟩
        refine ⟨opened, ?_, peer⟩
        rintro _ ⟨⟩
        show (w.fds w.self.sock).map Endpoint.name = _
        rw [there]
        rfl
    · exact Iff.rfl

theorem sound_remoteAddress (answers : Answers) (w : World) : Sound (w.remoteAddress answers).2 ↔ Sound w := by
  unfold World.remoteAddress
  split
  · exact Iff.rfl
  · rename_i empty
    split
    · rename_i peer there _
      constructor
      · rintro ⟨opened, name, _⟩
        refine ⟨opened, name, ?_⟩
        rw [empty]
        rintro _ ⟨⟩
      · rintro ⟨opened, name, _⟩
        refine ⟨opened, name, ?_⟩
        rintro _ ⟨⟩
        exact there
    · exact Iff.rfl

/-! ### Each call -/

theorem opened_spec (fit : answers.Fit w call) (sound : Sound w) (owned : Owned w) :
    Sound (w.opened answers) ∧ Owned (w.opened answers) ∧ (w.opened answers).self.family = w.self.family ∧
      (w.opened answers).self.localAddress = w.self.localAddress ∧
      (w.opened answers).self.remoteAddress = w.self.remoteAddress := by
  unfold World.opened
  by_cases valid : w.isValid = true
  · rw [if_pos valid]
    exact ⟨sound, owned, rfl, rfl, rfl⟩
  · -- Without a descriptor nothing was cached, so that the new one cannot differ from it.
    have gone : w.self.sock = -1 := by simpa [World.isValid] using valid
    obtain ⟨disconnected, name, peer⟩ := sound.cached_none gone
    rw [if_neg valid, World.newSock]
    split
    · refine ⟨⟨?_, ?_, ?_⟩, fun open_ => absurd rfl open_, rfl, rfl, rfl⟩
      · intro connected
        cases disconnected.symm.trans connected
      · intro address cached
        cases name.symm.trans cached
      · intro address cached
        cases peer.symm.trans cached
    · rename_i fd address made
      have valid := (fit.fresh fd address made).1
      have there := put_self w valid (some ⟨address, none⟩)
      refine ⟨(sound_iff there).mpr ⟨?_, ?_⟩, fun _ => ⟨_, there⟩, rfl, rfl, rfl⟩
      · intro address cached
        cases name.symm.trans cached
      · intro address cached
        cases peer.symm.trans cached

theorem rename_there (there : w.fds w.self.sock = some e) (valid : w.self.sock ≠ -1) (name : Address) :
    (w.rename name).fds (w.rename name).self.sock = some { e with name := name } := by
  rw [World.rename]
  show (w.put w.self.sock _).fds w.self.sock = _
  rw [put_self w valid, there]
  rfl

/-- A descriptor gets another address: right exactly when none, or the same, was cached. -/
theorem sound_rename (sound : Sound w) (there : w.fds w.self.sock = some e) (valid : w.self.sock ≠ -1)
    (name : Address) : Sound (w.rename name) ↔ Current w.self.localAddress (some name) := by
  have peer := ((sound_iff there).mp sound).2
  rw [sound_iff (rename_there there valid name)]
  exact ⟨fun both => both.1, fun current => ⟨current, peer⟩⟩

theorem close_holds_iff (sound : Sound w) : Holds answers w .close ↔ w.self.sock = -1 := by
  constructor
  · intro holds
    by_contra there
    have disconnected := (holds.closed rfl).disconnected
    rw [World.exec, World.close, if_neg (fun gone => there gone.2)] at disconnected
    cases disconnected
  · intro gone
    obtain ⟨disconnected, _⟩ := sound.cached_none gone
    have kept : w.close = (true, w) := by
      rw [World.close, if_pos ⟨by rw [disconnected]; decide, gone⟩]
    refine ⟨by rw [World.exec, kept]; exact sound, fun _ => ?_⟩
    rw [World.exec, kept]
    have silent : ∀ answers, w.transfer answers = (none, -1) := by
      intro answers
      rw [World.transfer, disconnected]
      rfl
    refine ⟨disconnected, fun answers => ⟨silent answers, ?_⟩, by rw [kept]⟩
    rw [World.streamTransfer, disconnected]
    rfl

/-- A connection that fails in the system closes the descriptor, and leaves the flag set. -/
theorem not_sound_close (there : w.self.sock ≠ -1) : ¬ Sound w.close.2 := by
  intro sound
  rw [World.close, if_neg (fun gone => there gone.2)] at sound
  obtain ⟨e, impossible⟩ := sound.opened rfl
  cases (w.put w.self.sock none).invalid.symm.trans impossible

/-- The checks of `bind` and `connect` leave the `Socket` alone, and after them `r` is asked of the system. -/
theorem sound_reached {addr : Address} {r : Bool × World} {P : Prop} (sound : Sound w)
    (reached : w.self.sock ≠ -1 → addr.family = w.self.family → (Sound r.2 ↔ P)) :
    Sound (if ¬ w.isValid then (false, w) else if addr.family ≠ w.self.family then (false, w) else r).2 ↔
      (w.self.sock ≠ -1 ∧ addr.family = w.self.family → P) := by
  by_cases valid : w.self.sock = -1
  · rw [if_pos (by simpa [World.isValid] using valid)]
    exact iff_of_true sound fun reaches => absurd valid reaches.1
  rw [if_neg (by simpa [World.isValid] using valid)]
  by_cases mismatch : addr.family ≠ w.self.family
  · rw [if_pos mismatch]
    exact iff_of_true sound fun reaches => absurd reaches.2 mismatch
  rw [if_neg mismatch, reached valid (not_not.mp mismatch)]
  exact ⟨fun now _ => now, fun careful => careful ⟨valid, not_not.mp mismatch⟩⟩

theorem bind_holds_iff (addr : Address) (fit : answers.Fit w (.bind addr)) (sound : Sound w) (owned : Owned w) :
    Sound (w.bind answers addr).2 ↔ Careful answers w (.bind addr) := by
  obtain ⟨sound', owned', family, name, _⟩ := opened_spec fit sound owned
  rw [Careful, Reaches, ← family, ← name]
  unfold World.bind
  generalize w.opened answers = v at sound' owned'
  refine sound_reached sound' fun valid _ => ?_
  obtain ⟨e, there⟩ := owned' valid
  cases bound : answers.bind with
  | none => exact iff_of_true sound' fun name impossible => by cases impossible
  | some name =>
    dsimp only
    rw [sound_localAddress, sound_rename sound' there valid]
    constructor
    · rintro current name ⟨⟩
      exact current
    · intro careful
      exact careful name rfl

theorem connect_holds_iff (addr : Address) (timeoutMs : UInt64) (fit : answers.Fit w (.connect addr timeoutMs))
    (sound : Sound w) (owned : Owned w) :
    Sound (w.connect answers addr timeoutMs).2 ↔ Careful answers w (.connect addr timeoutMs) := by
  obtain ⟨sound', owned', family, name, peer⟩ := opened_spec fit sound owned
  rw [Careful, Reaches, ← family, ← name, ← peer]
  unfold World.connect
  generalize w.opened answers = v at sound' owned'
  refine sound_reached sound' fun valid _ => ?_
  cases connected : answers.connect with
  | none =>
    refine iff_of_false (not_sound_close valid) fun careful => ?_
    obtain ⟨_, _, impossible, _⟩ := careful
    cases impossible
  | some both =>
    obtain ⟨name, peer⟩ := both
    have there : ((v.put v.self.sock (some ⟨name, some peer⟩)).set { v.self with isConnected := true }).fds
        v.self.sock = some ⟨name, some peer⟩ := put_self v valid _
    dsimp only
    rw [sound_localAddress, sound_remoteAddress, sound_iff there]
    constructor
    · intro now
      exact ⟨name, peer, rfl, now⟩
    · rintro ⟨_, _, ⟨⟩, current⟩
      exact current

theorem listen_holds_iff (backlog : Int) (sound : Sound w) (owned : Owned w) :
    Sound (w.listen answers backlog).2 ↔ Careful answers w (.listen backlog) := by
  rw [Careful]
  unfold World.listen
  split
  · rename_i e name there listened
    have valid : w.self.sock ≠ -1 := by
      intro gone
      rw [gone, w.invalid] at there
      cases there
    dsimp only
    rw [sound_rename sound there valid, listened]
    constructor
    · rintro current _ name ⟨⟩
      exact current
    · intro careful
      exact careful valid name rfl
  · rename_i refused
    refine iff_of_true sound fun valid name listened => ?_
    obtain ⟨e, there⟩ := owned valid
    exact absurd listened (refused e name there)

theorem init_holds_iff (sock : Int) (fit : answers.Fit w (.init sock)) (sound : Sound w) :
    Sound (w.init answers sock).2 ↔ Careful answers w (.init sock) := by
  rw [Careful]
  unfold World.init
  by_cases context : answers.isSocket = true
  · obtain ⟨e, there⟩ := fit.context sock rfl context
    rw [if_pos context]
    have there' : (w.set { w.self with sock := sock, isConnected := true }).fds sock = some e := there
    dsimp only
    rw [sound_remoteAddress, sound_localAddress, sound_iff there']
    constructor
    · intro now _ e' there''
      obtain rfl := Option.some.inj (there.symm.trans there'')
      exact now
    · intro careful
      exact careful context e there
  · rw [if_neg context]
    exact iff_of_true sound fun isSocket => absurd isSocket context

theorem others_self (answers : Answers) (fds : Int → Option Endpoint) :
    (w.exec answers (.others fds)).fds w.self.sock = w.fds w.self.sock := by
  rw [World.exec]
  dsimp only
  split
  · rename_i gone
    rw [gone, w.invalid]
  · rw [if_pos rfl]

theorem others_sound (fds : Int → Option Endpoint) (sound : Sound w) : Sound (w.exec answers (.others fds)) := by
  obtain ⟨opened, name, peer⟩ := sound
  rw [← others_self answers fds] at opened name peer
  exact ⟨opened, name, peer⟩

theorem holds_iff (fit : answers.Fit w call) (sound : Sound w) (owned : Owned w) :
    Holds answers w call ↔ Careful answers w call := by
  have only_sound {call : Call} (other : call ≠ .close) : Holds answers w call ↔ Sound (w.exec answers call) :=
    ⟨fun holds => holds.sound, fun now => ⟨now, fun closing => absurd closing other⟩⟩
  cases call with
  | close => exact close_holds_iff sound
  | bind addr => exact (only_sound (by simp)).trans (bind_holds_iff addr fit sound owned)
  | connect addr timeoutMs => exact (only_sound (by simp)).trans (connect_holds_iff addr timeoutMs fit sound owned)
  | listen backlog => exact (only_sound (by simp)).trans (listen_holds_iff backlog sound owned)
  | init sock => exact (only_sound (by simp)).trans (init_holds_iff sock fit sound)
  | transfer => exact iff_of_true ((only_sound (by simp)).mpr sound) trivial
  | remoteAddress => exact iff_of_true ((only_sound (by simp)).mpr ((sound_remoteAddress answers w).mpr sound)) trivial
  | localAddress => exact iff_of_true ((only_sound (by simp)).mpr ((sound_localAddress answers w).mpr sound)) trivial
  | others fds => exact iff_of_true ((only_sound (by simp)).mpr (others_sound fds sound)) trivial

/-! ### Every run -/

theorem owned_localAddress (answers : Answers) (w : World) : Owned (w.localAddress answers).2 ↔ Owned w := by
  obtain ⟨fds, sock⟩ := localAddress_self answers w
  rw [Owned, Owned, fds, sock]

theorem owned_remoteAddress (answers : Answers) (w : World) : Owned (w.remoteAddress answers).2 ↔ Owned w := by
  obtain ⟨fds, sock⟩ := remoteAddress_self answers w
  rw [Owned, Owned, fds, sock]

theorem owned_rename (owned : Owned w) (name : Address) : Owned (w.rename name) := by
  intro valid
  obtain ⟨e, there⟩ := owned valid
  exact ⟨_, rename_there there valid name⟩

theorem owned_close (owned : Owned w) : Owned w.close.2 := by
  unfold World.close
  split
  · exact owned
  · exact fun valid => absurd rfl valid

theorem owned_exec (fit : answers.Fit w call) (sound : Sound w) (owned : Owned w) : Owned (w.exec answers call) := by
  have opened := (opened_spec fit sound owned).2.1
  cases call with
  | close => exact owned_close owned
  | bind addr =>
    show Owned (w.bind answers addr).2
    unfold World.bind
    generalize w.opened answers = v at opened
    dsimp only
    split
    · exact opened
    split
    · exact opened
    split
    · exact opened
    · exact (owned_localAddress _ _).mpr (owned_rename opened _)
  | connect addr timeoutMs =>
    show Owned (w.connect answers addr timeoutMs).2
    unfold World.connect
    generalize w.opened answers = v at opened
    dsimp only
    split
    · exact opened
    split
    · exact opened
    split
    · exact owned_close opened
    · refine (owned_localAddress _ _).mpr ((owned_remoteAddress _ _).mpr ?_)
      exact fun valid => ⟨_, put_self v valid _⟩
  | listen backlog =>
    show Owned (w.listen answers backlog).2
    unfold World.listen
    split
    · exact owned_rename owned _
    · exact owned
  | init sock =>
    show Owned (w.init answers sock).2
    unfold World.init
    split
    · rename_i context
      refine (owned_remoteAddress _ _).mpr ((owned_localAddress _ _).mpr ?_)
      exact fun _ => fit.context sock rfl context
    · exact owned
  | transfer => exact owned
  | remoteAddress => exact (owned_remoteAddress _ _).mpr owned
  | localAddress => exact (owned_localAddress _ _).mpr owned
  | others fds =>
    intro valid
    obtain ⟨e, there⟩ := owned valid
    exact ⟨e, (others_self answers fds).trans there⟩

structure Step (w : World) (label : Call × Answers) (t : World) : Prop where
  fit : label.2.Fit w label.1
  careful : Careful label.2 w label.1
  done : w.exec label.2 label.1 = t

theorem new_sound {fds : Int → Option Endpoint} (invalid : fds (-1) = none) (family type protocol : Int) :
    Sound ⟨fds, new family type protocol, invalid⟩ := by
  refine ⟨?_, ?_, ?_⟩
  · intro connected
    cases connected
  · rintro _ ⟨⟩
  · rintro _ ⟨⟩

/-- As long as the calls are careful, a `Socket` that is connected has an open descriptor and its cached
addresses are those of the descriptor; and the next call does what is expected of it exactly when it is
careful too. -/
theorem lifecycle_iff {fds : Int → Option Endpoint} (invalid : fds (-1) = none) {family type protocol : Int}
    {calls : List (Call × Answers)} (run : Run Step ⟨fds, new family type protocol, invalid⟩ calls w) :
    Sound w ∧ ∀ call answers, answers.Fit w call → (Holds answers w call ↔ Careful answers w call) := by
  have preserved : ∀ s label t, Sound s ∧ Owned s → Step s label t → Sound t ∧ Owned t := by
    rintro s label t ⟨sound, owned⟩ ⟨fit, careful, rfl⟩
    exact ⟨((holds_iff fit sound owned).mpr careful).sound, owned_exec fit sound owned⟩
  have kept : Sound w ∧ Owned w := run.invariant (I := fun w => Sound w ∧ Owned w) preserved
    ⟨new_sound invalid family type protocol, fun valid => absurd rfl valid⟩
  exact ⟨kept.1, fun call answers fit => holds_iff fit kept.1 kept.2⟩

/-- The system makes `fd`, and connects it. -/
def connects (fd : Int) (name peer : Address) : Answers :=
  ⟨some (fd, name), none, none, some (name, peer), true, true, false, 0⟩

def unused : World := ⟨fun _ => none, new 2 1 0, rfl⟩

def connected : World := unused.exec (connects 3 ⟨2, [1]⟩ ⟨2, [9]⟩) (.connect ⟨2, [9]⟩ 0)

theorem lifecycle_iff_connected : Sound connected ∧ connected.self.remoteAddress = some ⟨2, [9]⟩ := by
  have fit : (connects 3 ⟨2, [1]⟩ ⟨2, [9]⟩).Fit unused (.connect ⟨2, [9]⟩ 0) :=
    ⟨by rintro fd name ⟨⟩; exact ⟨by decide, rfl⟩, by rintro sock ⟨⟩⟩
  have careful : Careful (connects 3 ⟨2, [1]⟩ ⟨2, [9]⟩) unused (.connect ⟨2, [9]⟩ 0) :=
    fun _ => ⟨_, _, rfl, by rintro _ ⟨⟩, by rintro _ ⟨⟩⟩
  have run : Run Step unused ([] ++ [(.connect ⟨2, [9]⟩ 0, connects 3 ⟨2, [1]⟩ ⟨2, [9]⟩)]) connected :=
    Run.nil.snoc ⟨fit, careful, rfl⟩
  exact ⟨(lifecycle_iff rfl run).1, by decide⟩

def closed : World := connected.exec (connects 4 ⟨2, [1]⟩ ⟨2, [8]⟩) .close

def reconnected : World := closed.exec (connects 4 ⟨2, [1]⟩ ⟨2, [8]⟩) (.connect ⟨2, [8]⟩ 0)

/-- Closed, the socket is connected without a descriptor, sends to -1 and can be closed once more. Connected to
another peer, it still has the address of the first. -/
theorem closed_stays_connected :
    connected.self.isConnected = true ∧ connected.self.sock = 3 ∧
      closed.self.isConnected = true ∧ closed.self.sock = -1 ∧ closed.close.1 = false ∧
      closed.transfer (connects 4 ⟨2, [1]⟩ ⟨2, [8]⟩) = (some (-1), 0) ∧
      reconnected.self.sock = 4 ∧ reconnected.self.remoteAddress = some ⟨2, [9]⟩ ∧
      (reconnected.fds 4).bind Endpoint.peer = some ⟨2, [8]⟩ := by
  decide

end Cool.Socket
