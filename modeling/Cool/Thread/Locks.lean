import Cool.Foundation.Run
import Mathlib.Data.Finset.Card

/-!
# Locks and their guards

The lock classes of `thread.h` and the three guard templates. A guard locks in its constructor, can unlock and
lock again, and unlocks in its destructor if `m_locked` says that it still holds the lock. Each guard is used by one
thread, which can have several guards of one lock and stands still while it is in the lock's own function.

`CASLock` is what the source makes of an atomic flag, the others are what `pthread` makes of them. A mutex or a spin
lock that its thread has already lets the thread wait. A read-write lock returns an error instead, to the thread
that has it for writing and to one reader too many; `RWMutex` drops the result, so the guard takes itself for locked.
-/

namespace Cool

open Foundation

inductive LockClass where
  | mutex | spinLock | casLock | rwMutex | nullMutex | nullRWMutex
  deriving DecidableEq, Repr

/-- `ReadScopedLockImpl` calls `rdlock`, `WriteScopedLockImpl` `wrlock` and `ScopedLockImpl` `lock`. -/
inductive GuardKind where
  | scoped | read | write
  deriving DecidableEq, Repr

namespace LockClass

/-- The guards that a class names: `Lock`, or `ReadLock` and `WriteLock`. -/
def guards : LockClass → GuardKind → Bool
  | rwMutex, .scoped | nullRWMutex, .scoped => false
  | rwMutex, _ | nullRWMutex, _ => true
  | _, kind => kind == .scoped

/-- The classes that lock anything. -/
def real : LockClass → Bool
  | nullMutex | nullRWMutex => false
  | _ => true

end LockClass

/-- `flag` is that of a mutex, a spin lock or `CASLock`, the others are those of a read-write lock. -/
structure LockState (θ : Type) where
  flag : Bool
  writer : Option θ
  readers : Nat
  deriving DecidableEq, Repr

namespace LockState

variable {θ : Type} [DecidableEq θ]

/-- One attempt of a thread to lock, and whether its call returns; `limit` is the largest number of readers. -/
def attempt (limit : Nat) (lock : LockClass) (thread : θ) (kind : GuardKind) (s : LockState θ) : Bool × LockState θ :=
  match lock with
  | .nullMutex | .nullRWMutex => (true, s)
  | .casLock => (!s.flag, { s with flag := true })
  | .mutex | .spinLock => if s.flag then (false, s) else (true, { s with flag := true })
  | .rwMutex =>
    -- `EDEADLK`
    if s.writer = some thread then (true, s)
    else if s.writer.isSome then (false, s)
    else if kind = .read then
      -- `EAGAIN` at the limit
      (true, if s.readers < limit then { s with readers := s.readers + 1 } else s)
    else if 0 < s.readers then (false, s)
    else (true, { s with writer := some thread })

def unlock (lock : LockClass) (thread : θ) (s : LockState θ) : LockState θ :=
  match lock with
  | .nullMutex | .nullRWMutex => s
  | .rwMutex => if s.writer = some thread then { s with writer := none } else { s with readers := s.readers - 1 }
  | _ => { s with flag := false }

def free : LockState θ := ⟨false, none, 0⟩

/-- Held by a guard of the thread that does not share. -/
def written (lock : LockClass) (thread : θ) : LockState θ :=
  if lock = .rwMutex then ⟨false, some thread, 0⟩ else ⟨true, none, 0⟩

variable {limit : Nat} {lock : LockClass} {thread : θ} {kind : GuardKind}

theorem attempt_free (real : lock.real = true) (writes : kind ≠ .read) :
    free.attempt limit lock thread kind = (true, written lock thread) := by
  cases lock <;> simp_all [LockClass.real, attempt, free, written]

theorem attempt_written {other : θ} (real : lock.real = true) (apart : lock = .rwMutex → other ≠ thread) :
    (written lock other).attempt limit lock thread kind = (false, written lock other) := by
  cases lock <;> simp_all [LockClass.real, attempt, written]

theorem attempt_shared (writes : kind ≠ .read) (n : Nat) :
    LockState.attempt limit .rwMutex thread kind ⟨false, none, n + 1⟩ = (false, ⟨false, none, n + 1⟩) := by
  simp [attempt, writes]

theorem attempt_read {n : Nat} (below : n < limit) :
    LockState.attempt limit .rwMutex thread .read ⟨false, none, n⟩ = (true, ⟨false, none, n + 1⟩) := by
  simp [attempt, below]

theorem unlock_written (real : lock.real = true) : (written lock thread).unlock lock thread = free := by
  cases lock <;> simp_all [LockClass.real, unlock, written, free]

theorem unlock_shared (n : Nat) : LockState.unlock .rwMutex thread ⟨false, none, n⟩ = ⟨false, none, n - 1⟩ := by
  simp [unlock]

end LockState

/-- `outside` is before the constructor has returned and after the destructor; `idle` and `locked` are the two values
of `m_locked`. -/
inductive GuardPc where
  | outside | idle | locked
  deriving DecidableEq, Repr

/-- `calls` is the guard for which a thread is in the lock's own function. -/
structure Guards (θ ι : Type) where
  lock : LockState θ
  pc : ι → GuardPc
  calls : θ → Option ι

namespace Guards

variable {θ ι : Type} [DecidableEq θ] [DecidableEq ι]

def new : Guards θ ι := ⟨.free, fun _ => .outside, fun _ => none⟩

inductive Action (θ ι : Type) where
  | construct (guard : ι)
  | lock (guard : ι)
  | unlock (guard : ι)
  | destroy (guard : ι)
  /-- A thread in the lock's own function tries. -/
  | attempt (thread : θ)
  deriving DecidableEq, Repr

variable (limit : Nat) (lock : LockClass) (kind : ι → GuardKind) (thread : ι → θ)

def call (s : Guards θ ι) (guard : ι) : Guards θ ι :=
  { s with calls := Function.update s.calls (thread guard) (some guard) }

/-- The thread has returned from the lock's own function. -/
def enter (s : Guards θ ι) (guard : ι) (t : θ) (held : LockState θ) : Guards θ ι :=
  ⟨held, Function.update s.pc guard .locked, Function.update s.calls t none⟩

/-- `if (m_locked) { m_mutex.unlock(); m_locked = false; }`. -/
def release (s : Guards θ ι) (guard : ι) (pc : GuardPc) : Guards θ ι :=
  { s with
    lock := if s.pc guard = .locked then s.lock.unlock lock (thread guard) else s.lock
    pc := Function.update s.pc guard pc }

def step (s : Guards θ ι) : Action θ ι → Guards θ ι
  | .construct guard => if s.pc guard = .outside ∧ s.calls (thread guard) = none then s.call thread guard else s
  | .lock guard => if s.pc guard = .idle ∧ s.calls (thread guard) = none then s.call thread guard else s
  | .unlock guard =>
    if s.pc guard ≠ .outside ∧ s.calls (thread guard) = none then s.release lock thread guard .idle else s
  | .destroy guard =>
    if s.pc guard ≠ .outside ∧ s.calls (thread guard) = none then s.release lock thread guard .outside else s
  | .attempt t =>
    match s.calls t with
    | none => s
    | some guard =>
      let (returns, held) := s.lock.attempt limit lock t (kind guard)
      if returns then s.enter guard t held else { s with lock := held }

/-- Of two guards that take themselves for locked both are readers, and the lock is free when none does. -/
structure Exclusive (s : Guards θ ι) : Prop where
  apart : ∀ g h, g ≠ h → s.pc g = .locked → s.pc h = .locked → kind g = .read ∧ kind h = .read
  free : (∀ g, s.pc g ≠ .locked) → s.lock = .free

/-- No thread has two guards of an `RWMutex` of which one writes. -/
def Alone : Prop := lock = .rwMutex → ∀ g h, g ≠ h → thread g = thread h → kind g = .read ∧ kind h = .read

/-! ### What is held, and by whom -/

/-- What the lock says of its holders. -/
inductive Shares (holders : Finset ι) : LockState θ → Prop where
  | readers (all : ∀ g ∈ holders, kind g = .read) : Shares holders ⟨false, none, holders.card⟩
  | writer (g : ι) (single : holders = {g}) (writes : kind g ≠ .read) : Shares holders (.written lock (thread g))

structure Held (s : Guards θ ι) (holders : Finset ι) : Prop where
  mem : ∀ g, g ∈ holders ↔ s.pc g = .locked
  calling : ∀ t g, s.calls t = some g → thread g = t ∧ s.pc g ≠ .locked
  shares : Shares lock kind thread holders s.lock

variable {limit : Nat} {lock : LockClass} {kind : ι → GuardKind} {thread : ι → θ} {s : Guards θ ι}
  {holders : Finset ι} {guard : ι} {t : θ} {l : LockState θ}

omit [DecidableEq θ] [DecidableEq ι] in
/-- Only an `RWMutex` has readers. -/
theorem rwMutex_of_reader (real : lock.real = true) (named : lock.guards .read = true) : lock = .rwMutex := by
  cases lock <;> simp_all [LockClass.real, LockClass.guards]

omit [DecidableEq θ] [DecidableEq ι] in
theorem empty_or_rwMutex (named : ∀ g, lock.guards (kind g) = true) (real : lock.real = true)
    (all : ∀ g ∈ holders, kind g = .read) : holders = ∅ ∨ lock = .rwMutex := by
  rcases holders.eq_empty_or_nonempty with none | ⟨g, member⟩
  · exact .inl none
  · have reads := named g
    rw [all g member] at reads
    exact .inr (rwMutex_of_reader real reads)

/-- A guard that is not among the holders is blocked, or it may join them. -/
theorem Shares.attempt (shares : Shares lock kind thread holders l) (named : ∀ g, lock.guards (kind g) = true)
    (few : ∀ readers : Finset ι, (∀ g ∈ readers, kind g = .read) → readers.card ≤ limit) (real : lock.real = true)
    (alone : Alone lock kind thread) (new : guard ∉ holders) :
    l.attempt limit lock (thread guard) (kind guard) = (false, l) ∨
      ∃ held, l.attempt limit lock (thread guard) (kind guard) = (true, held) ∧
        Shares lock kind thread (insert guard holders) held := by
  cases shares with
  | writer g single writes =>
    refine .inl (LockState.attempt_written real ?_)
    intro rw_ same
    refine writes (alone rw_ g guard ?_ same).1
    rintro rfl
    exact new (single ▸ Finset.mem_singleton_self g)
  | readers all =>
    by_cases reads : kind guard = .read
    · obtain rfl : lock = .rwMutex := rwMutex_of_reader real (reads ▸ named guard)
      have all' : ∀ g ∈ insert guard holders, kind g = .read := by
        intro g member
        rcases Finset.mem_insert.mp member with rfl | other
        · exact reads
        · exact all g other
      have card := Finset.card_insert_of_notMem new
      have below := few _ all'
      refine .inr ⟨⟨false, none, holders.card + 1⟩, ?_, ?_⟩
      · rw [reads, LockState.attempt_read (by omega)]
      · rw [← card]
        exact .readers all'
    · rcases empty_or_rwMutex named real all with rfl | rfl
      · exact .inr ⟨_, LockState.attempt_free real reads, .writer guard rfl reads⟩
      · rcases Nat.eq_zero_or_pos holders.card with none | some
        · obtain rfl := Finset.card_eq_zero.mp none
          exact .inr ⟨_, LockState.attempt_free real reads, .writer guard rfl reads⟩
        · obtain ⟨n, succ⟩ := Nat.exists_eq_succ_of_ne_zero (Nat.pos_iff_ne_zero.mp some)
          rw [succ]
          exact .inl (LockState.attempt_shared reads n)

theorem Shares.unlock (shares : Shares lock kind thread holders l) (named : ∀ g, lock.guards (kind g) = true)
    (real : lock.real = true) (member : guard ∈ holders) :
    Shares lock kind thread (holders.erase guard) (l.unlock lock (thread guard)) := by
  cases shares with
  | writer g single writes =>
    subst single
    obtain rfl := Finset.mem_singleton.mp member
    rw [LockState.unlock_written real, Finset.erase_singleton]
    exact .readers (by simp)
  | readers all =>
    obtain rfl : lock = .rwMutex := rwMutex_of_reader real (all guard member ▸ named guard)
    rw [LockState.unlock_shared, ← Finset.card_erase_of_mem member]
    exact .readers fun g other => all g (Finset.mem_of_mem_erase other)

/-! ### Steps -/

omit [DecidableEq ι] in
theorem Held.call (held : Held lock kind thread s holders) (out : s.pc guard ≠ .locked) :
    Held lock kind thread (s.call thread guard) holders where
  mem := held.mem
  calling t g called := by
    by_cases here : t = thread guard
    · subst here
      simp only [Guards.call, Function.update_self] at called
      obtain rfl := Option.some.inj called
      exact ⟨rfl, out⟩
    · exact held.calling t g ((Function.update_of_ne here ..).symm.trans called)
  shares := held.shares

theorem Held.enter (held : Held lock kind thread s holders) (called : s.calls t = some guard)
    (shares : Shares lock kind thread (insert guard holders) l) :
    Held lock kind thread (s.enter guard t l) (insert guard holders) where
  mem g := by
    show _ ↔ Function.update s.pc guard .locked g = .locked
    rw [Finset.mem_insert, held.mem]
    by_cases same : g = guard
    · subst same
      simp
    · simp [same]
  calling t' g called' := by
    have other : t' ≠ t := by
      intro same
      subst same
      cases (Function.update_self ..).symm.trans called'
    have old := held.calling t' g ((Function.update_of_ne other ..).symm.trans called')
    refine ⟨old.1, ?_⟩
    have apart : g ≠ guard := by
      rintro rfl
      exact other (old.1.symm.trans (held.calling t g called).1)
    show Function.update s.pc guard .locked g ≠ .locked
    rw [Function.update_of_ne apart]
    exact old.2
  shares := shares

theorem Held.release (held : Held lock kind thread s holders) (named : ∀ g, lock.guards (kind g) = true)
    (real : lock.real = true) {pc : GuardPc} (after : pc ≠ .locked) :
    ∃ holders, Held lock kind thread (s.release lock thread guard pc) holders := by
  have calling : ∀ t g, s.calls t = some g → thread g = t ∧ Function.update s.pc guard pc g ≠ .locked := by
    intro t g called
    obtain ⟨same, out⟩ := held.calling t g called
    refine ⟨same, ?_⟩
    by_cases here : g = guard
    · subst here
      rwa [Function.update_self]
    · rwa [Function.update_of_ne here]
  have mem : ∀ g, g ∈ holders.erase guard ↔ Function.update s.pc guard pc g = .locked := by
    intro g
    rw [Finset.mem_erase, held.mem]
    by_cases same : g = guard
    · subst same
      simp [after]
    · simp [same]
  refine ⟨holders.erase guard, mem, calling, ?_⟩
  unfold Guards.release
  by_cases locked : s.pc guard = .locked
  · rw [if_pos locked]
    exact held.shares.unlock named real ((held.mem guard).mpr locked)
  · rw [if_neg locked, Finset.erase_eq_of_notMem fun member => locked ((held.mem guard).mp member)]
    exact held.shares

theorem Held.attempt (held : Held lock kind thread s holders) (named : ∀ g, lock.guards (kind g) = true)
    (few : ∀ readers : Finset ι, (∀ g ∈ readers, kind g = .read) → readers.card ≤ limit) (real : lock.real = true)
    (alone : Alone lock kind thread) (t : θ) :
    ∃ holders, Held lock kind thread (s.step limit lock kind thread (.attempt t)) holders := by
  unfold Guards.step
  dsimp only
  split
  · exact ⟨holders, held⟩
  · rename_i guard called
    obtain ⟨rfl, out⟩ := held.calling t guard called
    have new : guard ∉ holders := fun member => out ((held.mem guard).mp member)
    rcases held.shares.attempt named few real alone new with blocked | ⟨l, returns, shares⟩
    · rw [blocked]
      exact ⟨holders, held⟩
    · rw [returns]
      exact ⟨_, held.enter called shares⟩

theorem Held.step (held : Held lock kind thread s holders) (named : ∀ g, lock.guards (kind g) = true)
    (few : ∀ readers : Finset ι, (∀ g ∈ readers, kind g = .read) → readers.card ≤ limit) (real : lock.real = true)
    (alone : Alone lock kind thread) (a : Action θ ι) :
    ∃ holders, Held lock kind thread (s.step limit lock kind thread a) holders := by
  cases a with
  | construct g | lock g =>
    unfold Guards.step
    dsimp only
    split
    · rename_i ready
      exact ⟨holders, held.call (by simp [ready.1])⟩
    · exact ⟨holders, held⟩
  | unlock g | destroy g =>
    unfold Guards.step
    dsimp only
    split
    · exact held.release named real (by decide)
    · exact ⟨holders, held⟩
  | attempt t => exact held.attempt named few real alone t

omit [DecidableEq θ] [DecidableEq ι] in
theorem Held.exclusive (held : Held lock kind thread s holders) : Exclusive kind s where
  apart g h ne atg ath := by
    rw [← held.mem] at atg ath
    have shares := held.shares
    generalize s.lock = l at shares
    cases shares with
    | readers all => exact ⟨all g atg, all h ath⟩
    | writer w single _ =>
      subst single
      exact absurd ((Finset.mem_singleton.mp atg).trans (Finset.mem_singleton.mp ath).symm) ne
  free none := by
    obtain rfl : holders = ∅ := Finset.eq_empty_of_forall_notMem fun g member => none g ((held.mem g).mp member)
    have shares := held.shares
    generalize s.lock = l at shares
    cases shares with
    | readers all => rfl
    | writer w single _ => exact absurd single.symm (Finset.singleton_ne_empty w)

/-! ### Guards that meet -/

/-- A guard whose attempt returns is locked after it. -/
theorem enter_run (outside : s.pc guard = .outside) (ready : s.calls (thread guard) = none)
    (returns : s.lock.attempt limit lock (thread guard) (kind guard) = (true, l)) :
    Run (fun s a t => s.step limit lock kind thread a = t) s [.construct guard, .attempt (thread guard)]
      ⟨l, Function.update s.pc guard .locked, s.calls⟩ := by
  have first : s.step limit lock kind thread (.construct guard) = s.call thread guard := if_pos ⟨outside, ready⟩
  have called : (s.call thread guard).calls (thread guard) = some guard := Function.update_self ..
  have second : (s.call thread guard).step limit lock kind thread (.attempt (thread guard)) =
      ⟨l, Function.update s.pc guard .locked, s.calls⟩ := by
    have same : (s.call thread guard).lock = s.lock := rfl
    have back : Function.update (s.call thread guard).calls (thread guard) none = s.calls := by
      rw [call, Function.update_idem, ← ready, Function.update_eq_self]
    rw [step]
    simp only [called, same, returns, if_true, enter, back]
    rfl
  exact ((.nil : Run _ s [] s).snoc first).snoc second

/-- Two guards of which both attempts return, one after the other, are locked together. -/
theorem not_exclusive {g h : ι} {l' : LockState θ} (two : g ≠ h) (writes : kind g ≠ .read)
    (first : LockState.free.attempt limit lock (thread g) (kind g) = (true, l))
    (second : l.attempt limit lock (thread h) (kind h) = (true, l')) :
    ∃ actions s, Run (fun s a t => s.step limit lock kind thread a = t) new actions s ∧ ¬ Exclusive kind s := by
  have run : Run (fun s a t => s.step limit lock kind thread a = t) new [.construct g, .attempt (thread g)]
      ⟨l, Function.update (fun _ => .outside) g .locked, fun _ => none⟩ := enter_run rfl rfl first
  have outside : Function.update (fun _ => GuardPc.outside) g .locked h = .outside := Function.update_of_ne two.symm ..
  refine ⟨_, _, run.append (enter_run outside rfl second), ?_⟩
  intro both
  refine writes (both.apart g h two ?_ (Function.update_self ..)).1
  simp only [Function.update_of_ne two, Function.update_self]

/-- Guards of a lock exclude each other, in every interleaving, exactly when the class is one that locks and no thread
has two guards of an `RWMutex` of which one writes. -/
theorem exclusive_iff (named : ∀ g, lock.guards (kind g) = true)
    (few : ∀ readers : Finset ι, (∀ g ∈ readers, kind g = .read) → readers.card ≤ limit) {g h : ι} (two : g ≠ h)
    (writes : kind g ≠ .read) :
    (∀ (actions : List (Action θ ι)) (s : Guards θ ι),
      Run (fun s a t => s.step limit lock kind thread a = t) new actions s → Exclusive kind s) ↔
    lock.real = true ∧ Alone lock kind thread := by
  constructor
  · intro exclusive
    have real : lock.real = true := by
      by_contra unreal
      have returns (t : θ) (k : GuardKind) (l : LockState θ) : l.attempt limit lock t k = (true, l) := by
        cases lock <;> first | rfl | exact absurd rfl unreal
      obtain ⟨actions, s, run, shared⟩ : ∃ actions s, Run (fun s a t => s.step limit lock kind thread a = t) new actions s ∧
          ¬ Exclusive kind s := not_exclusive two writes (returns _ _ _) (returns _ _ _)
      exact shared (exclusive actions s run)
    have writer_alone {g h : ι} (rw_ : lock = .rwMutex) (two : g ≠ h) (same : thread g = thread h) : kind g = .read := by
      by_contra writes
      have second : (LockState.written lock (thread g)).attempt limit lock (thread h) (kind h) =
          (true, .written lock (thread g)) := by
        subst rw_
        rw [same]
        simp [LockState.attempt, LockState.written]
      obtain ⟨actions, s, run, shared⟩ := not_exclusive two writes (LockState.attempt_free real writes) second
      exact shared (exclusive actions s run)
    refine ⟨real, ?_⟩
    intro rw_ g h two same
    exact ⟨writer_alone rw_ two same, writer_alone rw_ two.symm same.symm⟩
  · intro ⟨real, alone⟩ actions s run
    obtain ⟨holders, held⟩ : ∃ holders, Held lock kind thread s holders := by
      refine run.invariant (I := fun s => ∃ holders, Held lock kind thread s holders) ?_ ?_
      · intro s a t ⟨holders, held⟩ stepped
        subst stepped
        exact held.step named few real alone a
      · exact ⟨∅, by simp [new], nofun, .readers (by simp)⟩
    exact held.exclusive

/-- Two guards of a `CASLock`, of one thread. -/
theorem exclusive_iff_casLock : LockClass.casLock.real = true ∧
    ∀ (actions : List (Action Unit Bool)) (s : Guards Unit Bool),
      Run (fun s a t => s.step 0 .casLock (fun _ => .scoped) (fun _ => ()) a = t) new actions s →
        Exclusive (fun _ => .scoped) s := by
  have none : ∀ readers : Finset Bool, (∀ g ∈ readers, GuardKind.scoped = .read) → readers.card ≤ 0 := by
    intro readers all
    rw [Nat.le_zero, Finset.card_eq_zero]
    exact Finset.eq_empty_of_forall_notMem fun g member => nomatch all g member
  exact ⟨rfl, (exclusive_iff (fun _ => rfl) none (by decide : false ≠ true) (by decide)).mpr ⟨rfl, nofun⟩⟩

end Guards

end Cool
