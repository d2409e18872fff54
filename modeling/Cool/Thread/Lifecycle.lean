import Cool.Foundation.Run

/-!
# The life of a `Thread` object

A `Thread` object is shared between the thread that constructs it and the one it starts. The constructor
waits on the semaphore until `run` has stored the thread's id and taken the callback out of the object;
afterwards `run` holds no more than the callback, and the object may be destroyed while the thread goes on.
`Semaphore::wait` returns as well when `sem_wait` is interrupted by a signal. The callback comes back to the
object through `t_thread`: `GetThis` hands it out, and `SetName` assigns its name before the thread's own.
-/

namespace Cool

open Foundation

/-- What the thread that has the object is at; `failed` is a constructor that has thrown. -/
inductive Owner where
  | create | wait | constructed | failed | destroyed
  deriving DecidableEq, Repr

/-- The next statement of `run`. While the callback is `running` it may be in `SetName`: `assigning` is in
`t_thread->m_name = name`, `storeName` before `t_thread_name = name`. -/
inductive RunPc where
  | bind | storeId | setName | swap | notify | call | running | returned
  | assigning (name : String) | storeName (name : String)
  deriving DecidableEq, Repr

inductive ThreadFault where
  /-- The thread uses the object after its destructor. -/
  | destroyed
  /-- `name()` copies `m_name` while the thread assigns it. -/
  | race
  /-- `cb()` without a callback throws in a thread that catches nothing. -/
  | badFunctionCall
  deriving DecidableEq, Repr

structure ThreadLife (κ : Type) where
  m_id : Int
  /-- Whether `m_thread` is set. -/
  m_thread : Bool
  m_cb : Option κ
  m_name : String
  m_semaphore : Nat
  owner : Owner
  /-- The thread that `pthread_create` has started. -/
  run : Option RunPc
  /-- `t_thread_name` of that thread. -/
  t_thread_name : String
  /-- The local `cb` of `run`. -/
  cb : Option κ
  /-- The callbacks that have been called. -/
  called : List κ

namespace ThreadLife

variable {κ : Type}

def new (cb : Option κ) (name : String) : ThreadLife κ where
  m_id := -1
  m_thread := false
  m_cb := cb
  m_name := if name.isEmpty then "UNKNOWN" else name
  m_semaphore := 0
  owner := .create
  run := none
  t_thread_name := "UNKNOWN"
  cb := none
  called := []

def access (s : ThreadLife κ) (use : ThreadLife κ → ThreadLife κ) : Except ThreadFault (ThreadLife κ) :=
  if s.owner = .destroyed then .error .destroyed else .ok (use s)

/-- One statement of `run` in the thread with the given id. -/
def runNext (threadId : Nat) (s : ThreadLife κ) : RunPc → Except ThreadFault (ThreadLife κ)
  | .bind => s.access fun s => { s with run := some .storeId, t_thread_name := s.m_name }
  | .storeId => s.access fun s => { s with run := some .setName, m_id := threadId }
  | .setName => s.access fun s => { s with run := some .swap }
  | .swap => s.access fun s => { s with run := some .notify, cb := s.m_cb, m_cb := none }
  | .notify => s.access fun s => { s with run := some .call, m_semaphore := s.m_semaphore + 1 }
  | .call => match s.cb with
    | none => .error .badFunctionCall
    | some cb => .ok { s with run := some .running, called := s.called ++ [cb] }
  | .running => .ok { s with run := some .returned }
  | .returned => .ok s
  | .assigning name => s.access fun s => { s with run := some (.storeName name), m_name := name }
  | .storeName name => .ok { s with run := some .running, t_thread_name := name }

def assigns : RunPc → Bool
  | .assigning _ => true
  | _ => false

inductive Action where
  /-- The constructor up to `pthread_create`, which may fail. -/
  | create (ok : Bool)
  /-- `m_semaphore.wait()`, which a signal may interrupt. -/
  | wait (interrupted : Bool)
  | join
  /-- `name()`. -/
  | name
  | destroy
  /-- The next statement of `run`, or of `SetName` in the callback. -/
  | run
  /-- The callback calls `SetName`. -/
  | setName (name : String)
  /-- The callback reads the object that `GetThis` gives it. -/
  | getThis

/-- What blocks leaves the state as it is, and so does what is not the turn of its thread. -/
def step (threadId : Nat) (s : ThreadLife κ) : Action → Except ThreadFault (ThreadLife κ)
  | .create ok =>
    if s.owner = .create then
      .ok (if ok then { s with owner := .wait, m_thread := true, run := some .bind } else { s with owner := .failed })
    else .ok s
  | .wait interrupted =>
    if s.owner = .wait then
      if interrupted then .ok { s with owner := .constructed }
      else if 0 < s.m_semaphore then .ok { s with owner := .constructed, m_semaphore := s.m_semaphore - 1 }
      else .ok s
    else .ok s
  | .join =>
    -- `pthread_join` blocks until the thread has returned.
    if s.owner = .constructed ∧ s.m_thread ∧ s.run = some .returned then .ok { s with m_thread := false } else .ok s
  | .name => if s.owner = .constructed ∧ s.run.any assigns then .error .race else .ok s
  | .destroy => if s.owner = .constructed then .ok { s with owner := .destroyed, m_thread := false } else .ok s
  | .run => match s.run with
    | none => .ok s
    | some pc => s.runNext threadId pc
  | .setName name =>
    -- `t_thread` is set in every thread that has come to its callback.
    if s.run = some .running then s.access fun s => { s with run := some (.assigning name) } else .ok s
  | .getThis => if s.run = some .running then s.access fun s => s else .ok s

/-- What else there is in a run: signals that interrupt the constructor, callbacks that use the object when it is
gone, or are about to assign its name when it goes, and calls of `name()` during such an assignment. -/
structure Hazards where
  interrupts : Bool
  late : Bool
  races : Bool
  deriving DecidableEq, Repr

def Hazards.none : Hazards := ⟨false, false, false⟩

def allowed (hazards : Hazards) (s : ThreadLife κ) : Action → Bool
  | .wait interrupted => hazards.interrupts || !interrupted
  | .setName _ | .getThis => hazards.late || s.owner ≠ .destroyed
  | .destroy => hazards.late || !s.run.any assigns
  | .name => hazards.races || !s.run.any assigns
  | _ => true

def turn (threadId : Nat) (hazards : Hazards) (s : ThreadLife κ) (a : Action) :
    Except (Option ThreadFault) (ThreadLife κ) :=
  guarded (s.allowed hazards a) (s.step threadId a)

/-- The callback is not in `SetName`. -/
def settled : RunPc → Bool
  | .assigning _ | .storeName _ => false
  | _ => true

structure Sound (threadId : Nat) (hazards : Hazards) (cb : Option κ) (s : ThreadLife κ) : Prop where
  faultless : ∀ a fault, s.turn threadId hazards a ≠ .error (some fault)
  /-- `id()` is the id of the thread, and the object holds the callback no more. -/
  started : s.owner = .constructed → s.m_id = threadId ∧ s.m_cb = none
  /-- `name()` is what `GetName()` gives in the thread, except during `SetName`. -/
  named : s.owner = .constructed → s.run.all settled → s.m_name = s.t_thread_name
  /-- After `join` the callback has been called, once, and has returned. -/
  joined : s.owner = .constructed → s.m_thread = false → s.run = some .returned ∧ s.called = cb.toList
  once : s.called <+: cb.toList

/-! ### A thread that is started without a signal -/

variable {s t : ThreadLife κ} {threadId : Nat} {hazards : Hazards} {cb : κ} {a : Action} {pc : RunPc}

/-- The statements of `run` that use the object. -/
def uses : RunPc → Bool
  | .bind | .storeId | .setName | .swap | .notify => true
  | _ => false

/-- The statements that are reached with `m_id` stored. -/
def identified : RunPc → Bool
  | .bind | .storeId => false
  | _ => true

/-- The statements that are reached with the callback in `run`. -/
def taken : RunPc → Bool
  | .bind | .storeId | .setName | .swap => false
  | _ => true

/-- The statements that are reached after the call. -/
def entered : RunPc → Bool
  | .running | .returned | .assigning _ | .storeName _ => true
  | _ => false

/-- The two names at a statement. -/
def Named (s : ThreadLife κ) : RunPc → Prop
  | .bind | .assigning _ => True
  | .storeName name => s.m_name = name
  | _ => s.m_name = s.t_thread_name

/-- The object and the thread when `run` is about to make the given statement. -/
structure Started (threadId : Nat) (cb : κ) (s : ThreadLife κ) (pc : RunPc) : Prop where
  run : s.run = some pc
  begun : s.owner ≠ .create
  waits : uses pc → s.owner = .wait ∧ s.m_semaphore = 0
  id : identified pc → s.m_id = threadId
  object : s.m_cb = if taken pc then none else some cb
  callback : taken pc → s.cb = some cb
  named : s.owner ≠ .destroyed → Named s pc
  writing : assigns pc → s.owner ≠ .destroyed
  called : s.called = if entered pc then [cb] else []
  handle : s.owner ≠ .destroyed → s.m_thread = false → pc = .returned

structure Unstarted (cb : κ) (s : ThreadLife κ) : Prop where
  run : s.run = none
  owner : s.owner = .create ∨ s.owner = .failed
  semaphore : s.m_semaphore = 0
  object : s.m_cb = some cb
  called : s.called = []

def Kept (threadId : Nat) (cb : κ) (s : ThreadLife κ) : Prop :=
  Unstarted cb s ∨ ∃ pc, Started threadId cb s pc

theorem Started.alive (started : Started threadId cb s pc) (use : uses pc = true) : s.owner ≠ .destroyed := by
  rw [(started.waits use).1]
  decide

theorem Unstarted.create (unstarted : Unstarted cb s) :
    Started threadId cb { s with owner := .wait, m_thread := true, run := some .bind } .bind where
  run := rfl
  begun := by simp
  waits _ := ⟨rfl, unstarted.semaphore⟩
  id := nofun
  object := unstarted.object
  callback := nofun
  named _ := trivial
  writing := nofun
  called := unstarted.called
  handle := nofun

/-- Every statement comes through and leads to the next. -/
theorem Started.runNext (started : Started threadId cb s pc) :
    ∃ t pc', s.runNext threadId pc = .ok t ∧ Started threadId cb t pc' := by
  have alive := started.alive
  obtain ⟨run, begun, waits, stored, object, callback, named, writing, called, handle⟩ := started
  cases pc with
  | bind =>
    refine ⟨_, .storeId, if_neg (alive rfl), ?_⟩
    exact { run := rfl, begun := begun, waits := waits, id := nofun, object := object, callback := nofun,
            named := fun _ => rfl, writing := nofun, called := called, handle := by simpa using handle }
  | storeId =>
    refine ⟨_, .setName, if_neg (alive rfl), ?_⟩
    exact { run := rfl, begun := begun, waits := waits, id := by simp, object := object, callback := nofun,
            named := named, writing := nofun, called := called, handle := by simpa using handle }
  | setName =>
    refine ⟨_, .swap, if_neg (alive rfl), ?_⟩
    exact { run := rfl, begun := begun, waits := waits, id := stored, object := object, callback := nofun,
            named := named, writing := nofun, called := called, handle := by simpa using handle }
  | swap =>
    refine ⟨_, .notify, if_neg (alive rfl), ?_⟩
    exact { run := rfl, begun := begun, waits := waits, id := stored, object := rfl, callback := fun _ => object,
            named := named, writing := nofun, called := called, handle := by simpa using handle }
  | notify =>
    refine ⟨_, .call, if_neg (alive rfl), ?_⟩
    exact { run := rfl, begun := begun, waits := nofun, id := stored, object := object, callback := callback,
            named := named, writing := nofun, called := called, handle := by simpa using handle }
  | call =>
    refine ⟨{ s with run := some .running, called := s.called ++ [cb] }, .running, ?_, ?_⟩
    · simp only [ThreadLife.runNext, callback rfl]
    exact { run := rfl, begun := begun, waits := nofun, id := stored, object := object, callback := callback,
            named := named, writing := nofun, called := by simp [called, entered], handle := by simpa using handle }
  | running =>
    refine ⟨_, .returned, rfl, ?_⟩
    exact { run := rfl, begun := begun, waits := nofun, id := stored, object := object, callback := callback,
            named := named, writing := nofun, called := called, handle := fun _ _ => rfl }
  | returned => exact ⟨s, .returned, rfl, run, begun, waits, stored, object, callback, named, writing, called, handle⟩
  | assigning name =>
    refine ⟨_, .storeName name, if_neg (writing rfl), ?_⟩
    exact { run := rfl, begun := begun, waits := nofun, id := stored, object := object, callback := callback,
            named := fun _ => rfl, writing := nofun, called := called, handle := by simpa using handle }
  | storeName name =>
    refine ⟨_, .running, rfl, ?_⟩
    exact { run := rfl, begun := begun, waits := nofun, id := stored, object := object, callback := callback,
            named := named, writing := nofun, called := called, handle := by simpa using handle }

/-- The constructor comes back from the semaphore only when `run` has let the object go. -/
theorem Started.wait (started : Started threadId cb s pc) (waiting : s.owner = .wait) (posted : 0 < s.m_semaphore) :
    Started threadId cb { s with owner := .constructed, m_semaphore := s.m_semaphore - 1 } pc := by
  have free : ¬ uses pc = true := by
    intro use
    have zero := (started.waits use).2
    omega
  exact { started with
    begun := by simp
    waits := fun use => absurd use free
    named := fun _ => started.named (by simp [waiting])
    writing := by simp
    handle := fun _ => started.handle (by simp [waiting]) }

theorem Started.join (started : Started threadId cb s .returned) :
    Started threadId cb { s with m_thread := false } .returned :=
  { started with handle := fun _ _ => rfl }

theorem Started.free (started : Started threadId cb s pc) (constructed : s.owner = .constructed) : uses pc = false := by
  cases use : uses pc with
  | false => rfl
  | true => cases constructed.symm.trans (started.waits use).1

theorem Started.destroy (started : Started threadId cb s pc) (constructed : s.owner = .constructed)
    (unassigned : assigns pc = false) :
    Started threadId cb { s with owner := .destroyed, m_thread := false } pc :=
  { started with
    begun := by simp
    waits := by simp [started.free constructed]
    named := by simp
    writing := by simp [unassigned]
    handle := by simp }

theorem Started.rename (started : Started threadId cb s .running) (alive : s.owner ≠ .destroyed) (name : String) :
    Started threadId cb { s with run := some (.assigning name) } (.assigning name) where
  run := rfl
  begun := started.begun
  waits := nofun
  id := started.id
  object := started.object
  callback := started.callback
  named _ := trivial
  writing _ := alive
  called := started.called
  handle := by simpa using started.handle

theorem Started.any_assigns (started : Started threadId cb s pc) : s.run.any assigns = assigns pc := by
  rw [started.run]
  rfl

theorem Started.step (started : Started threadId cb s pc) (allowed : s.allowed .none a = true) :
    ∃ t, s.step threadId a = .ok t ∧ Kept threadId cb t := by
  have stays : Kept threadId cb s := .inr ⟨pc, started⟩
  cases a with
  | create ok => exact ⟨s, if_neg started.begun, stays⟩
  | wait interrupted =>
    have quiet : interrupted = false := by simpa [ThreadLife.allowed, Hazards.none] using allowed
    subst quiet
    by_cases waiting : s.owner = .wait
    · by_cases posted : 0 < s.m_semaphore
      · refine ⟨_, ?_, .inr ⟨pc, started.wait waiting posted⟩⟩
        simp [ThreadLife.step, waiting, posted]
      · exact ⟨s, by simp [ThreadLife.step, waiting, posted], stays⟩
    · exact ⟨s, if_neg waiting, stays⟩
  | join =>
    by_cases ended : s.owner = .constructed ∧ s.m_thread ∧ s.run = some .returned
    · obtain rfl : pc = .returned := Option.some.inj (started.run.symm.trans ended.2.2)
      exact ⟨_, if_pos ended, .inr ⟨_, started.join⟩⟩
    · exact ⟨s, if_neg ended, stays⟩
  | name =>
    have unassigned : s.run.any assigns = false := by simpa [ThreadLife.allowed, Hazards.none] using allowed
    exact ⟨s, if_neg (by simp [unassigned]), stays⟩
  | destroy =>
    have unassigned : s.run.any assigns = false := by simpa [ThreadLife.allowed, Hazards.none] using allowed
    rw [started.any_assigns] at unassigned
    by_cases constructed : s.owner = .constructed
    · exact ⟨_, if_pos constructed, .inr ⟨pc, started.destroy constructed unassigned⟩⟩
    · exact ⟨s, if_neg constructed, stays⟩
  | run =>
    obtain ⟨t, pc', ran, next⟩ := started.runNext
    refine ⟨t, ?_, .inr ⟨pc', next⟩⟩
    simp only [ThreadLife.step, started.run, ran]
  | setName name =>
    have alive : s.owner ≠ .destroyed := by simpa [ThreadLife.allowed, Hazards.none] using allowed
    by_cases running : s.run = some .running
    · obtain rfl : pc = .running := Option.some.inj (started.run.symm.trans running)
      exact ⟨_, (if_pos running).trans (if_neg alive), .inr ⟨_, started.rename alive name⟩⟩
    · exact ⟨s, if_neg running, stays⟩
  | getThis =>
    have alive : s.owner ≠ .destroyed := by simpa [ThreadLife.allowed, Hazards.none] using allowed
    by_cases running : s.run = some .running
    · exact ⟨s, (if_pos running).trans (if_neg alive), stays⟩
    · exact ⟨s, if_neg running, stays⟩

theorem Unstarted.step (unstarted : Unstarted cb s) : ∃ t, s.step threadId a = .ok t ∧ Kept threadId cb t := by
  have stays : Kept threadId cb s := .inl unstarted
  obtain ⟨run, owner, _⟩ := id unstarted
  cases a with
  | create ok =>
    by_cases create : s.owner = .create
    · refine ⟨_, if_pos create, ?_⟩
      cases ok with
      | true => exact .inr ⟨_, unstarted.create⟩
      | false => exact .inl { unstarted with owner := .inr rfl }
    · exact ⟨s, if_neg create, stays⟩
  | wait interrupted => exact ⟨s, if_neg (by rcases owner with h | h <;> simp [h]), stays⟩
  | join => exact ⟨s, if_neg (by simp [run]), stays⟩
  | name => exact ⟨s, if_neg (by simp [run]), stays⟩
  | destroy => exact ⟨s, if_neg (by rcases owner with h | h <;> simp [h]), stays⟩
  | run => exact ⟨s, by simp only [ThreadLife.step, run], stays⟩
  | setName name => exact ⟨s, if_neg (by simp [run]), stays⟩
  | getThis => exact ⟨s, if_neg (by simp [run]), stays⟩

theorem Kept.step (kept : Kept threadId cb s) (allowed : s.allowed .none a = true) :
    ∃ t, s.step threadId a = .ok t ∧ Kept threadId cb t := by
  obtain unstarted | ⟨pc, started⟩ := kept
  · exact unstarted.step
  · exact started.step allowed

theorem Kept.started (kept : Kept threadId cb s) (constructed : s.owner = .constructed) :
    ∃ pc, Started threadId cb s pc ∧ uses pc = false := by
  obtain unstarted | ⟨pc, started⟩ := kept
  · rcases unstarted.owner with owner | owner <;> cases constructed.symm.trans owner
  · exact ⟨pc, started, started.free constructed⟩

theorem Kept.sound (kept : Kept threadId cb s) : s.Sound threadId .none (some cb) where
  faultless a fault failed := by
    obtain ⟨allowed, failed⟩ := guarded_eq_error_iff.mp failed
    obtain ⟨t, moved, _⟩ := kept.step allowed
    cases moved.symm.trans failed
  started constructed := by
    obtain ⟨pc, started, free⟩ := kept.started constructed
    obtain ⟨late, took⟩ : identified pc = true ∧ taken pc = true := by
      cases pc <;> simp_all [uses, identified, taken]
    exact ⟨started.id late, started.object.trans (if_pos took)⟩
  named constructed still := by
    obtain ⟨pc, started, free⟩ := kept.started constructed
    have named := started.named (by simp [constructed])
    rw [started.run] at still
    cases pc with
    | bind => cases free
    | assigning | storeName => cases still
    | _ => exact named
  joined constructed ended := by
    obtain ⟨pc, started, _⟩ := kept.started constructed
    obtain rfl : pc = .returned := started.handle (by simp [constructed]) ended
    exact ⟨started.run, started.called⟩
  once := by
    obtain unstarted | ⟨pc, started⟩ := kept
    · rw [unstarted.called]
      exact List.nil_prefix
    · rw [started.called]
      split <;> simp

theorem kept_new (name : String) : Kept threadId cb (new (some cb) name) :=
  .inl { run := rfl, owner := .inl rfl, semaphore := rfl, object := rfl, called := rfl }

/-! ### What goes wrong otherwise -/

/-- `run` up to the call, and the constructor that it lets go. -/
def start : List Action := .create true :: List.replicate 5 .run ++ [.wait false]

/-- A thread without a callback ends the program. -/
theorem empty_faults (hazards : Hazards) (name : String) : ∃ s : ThreadLife κ,
    Run (fun s a t => s.turn threadId hazards a = .ok t) (new none name) start s ∧
      s.turn threadId hazards .run = .error (some .badFunctionCall) := by
  obtain ⟨interrupts, late, races⟩ := hazards
  exact Run.of_seen (by cases interrupts <;> with_unfolding_all rfl)

/-- The constructor that a signal interrupts comes back before the thread has its id. -/
theorem interrupted_unstarted (late races : Bool) (name : String) : ∃ s : ThreadLife κ,
    Run (fun s a t => s.turn threadId ⟨true, late, races⟩ a = .ok t) (new (some cb) name)
        [.create true, .wait true] s ∧
      (s.owner, s.m_id) = (.constructed, -1) :=
  Run.of_seen (by with_unfolding_all rfl)

/-- A callback that is at work when the object is destroyed reads it through `GetThis`. -/
theorem late_faults (interrupts races : Bool) (name : String) : ∃ s : ThreadLife κ,
    Run (fun s a t => s.turn threadId ⟨interrupts, true, races⟩ a = .ok t) (new (some cb) name)
        (start ++ [.run, .destroy]) s ∧
      s.turn threadId ⟨interrupts, true, races⟩ .getThis = .error (some .destroyed) :=
  Run.of_seen (by cases interrupts <;> with_unfolding_all rfl)

/-- `name()` meets the assignment of `SetName`. -/
theorem race_faults (interrupts late : Bool) (name : String) : ∃ s : ThreadLife κ,
    Run (fun s a t => s.turn threadId ⟨interrupts, late, true⟩ a = .ok t) (new (some cb) name)
        (start ++ [.run, .setName name]) s ∧
      s.turn threadId ⟨interrupts, late, true⟩ .name = .error (some .race) :=
  Run.of_seen (by cases interrupts <;> cases late <;> with_unfolding_all rfl)

/-- Threads start, run and end as they should, in every interleaving of the thread with the one that has
the object, exactly when there is a callback, no signal comes during the constructor, no callback uses the object
after it has been destroyed, through `SetName` or `GetThis`, and `name()` is not called during `SetName`. -/
theorem thread_starts_iff (threadId : Nat) (hazards : Hazards) (cb : Option κ) (name : String) :
    (∀ (actions : List Action) (s : ThreadLife κ),
      Run (fun s a t => s.turn threadId hazards a = .ok t) (new cb name) actions s →
        s.Sound threadId hazards cb) ↔
      cb.isSome = true ∧ hazards = .none := by
  constructor
  · intro sound
    obtain ⟨cb, rfl⟩ : ∃ c, cb = some c := by
      cases cb with
      | none =>
        obtain ⟨s, run, fault⟩ := empty_faults hazards name
        exact absurd fault ((sound _ s run).faultless _ _)
      | some c => exact ⟨c, rfl⟩
    refine ⟨rfl, ?_⟩
    obtain ⟨interrupts, late, races⟩ := hazards
    cases interrupts with
    | true =>
      obtain ⟨s, run, seen⟩ := interrupted_unstarted late races name
      obtain ⟨constructed, unset⟩ := Prod.mk.inj seen
      obtain ⟨stored, _⟩ := (sound _ s run).started constructed
      omega
    | false =>
      cases late with
      | true =>
        obtain ⟨s, run, fault⟩ := late_faults false races name
        exact absurd fault ((sound _ s run).faultless _ _)
      | false =>
        cases races with
        | true =>
          obtain ⟨s, run, fault⟩ := race_faults false false name
          exact absurd fault ((sound _ s run).faultless _ _)
        | false => rfl
  · intro ⟨given, quiet⟩ actions s run
    subst quiet
    obtain ⟨cb, rfl⟩ := Option.isSome_iff_exists.mp given
    refine (run.invariant (I := Kept threadId cb) ?_ (kept_new name)).sound
    intro s a t kept moved
    obtain ⟨allowed, stepped⟩ := guarded_eq_ok_iff.mp moved
    obtain ⟨u, same, next⟩ := kept.step allowed
    cases same.symm.trans stepped
    exact next

end ThreadLife

end Cool
