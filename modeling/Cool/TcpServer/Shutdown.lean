import Cool.TcpServer.Accept

/-!
# How a server shuts down

`stop` counts on the two calls of `cancekAll` to wake every loop that waits, and on `m_is_stop` to end it.
Between the second call and the end of the hooked `close` another thread can register a loop again, and
between the test of `m_is_stop` and `accept` it can see the socket lose its descriptor. On one thread
neither can happen. What can is that a loop is woken up, and another socket has got the number that its
`do_io` tries again with.
-/

namespace Cool.Accepting

open Foundation IOManager

variable {κ χ : Type}

/-- The number of threads that are at work on the fibers of the server. -/
def busy (bound : List Fd) (s : Accepting κ χ) : Nat :=
  bound.countP (fun fd => (s.pc fd).running) + s.closer.running.toNat

/-- A fiber that has a thread goes on, and one that has none needs a free one. With `reuse`, the program
opens more sockets that listen. -/
def allowed (threads : Nat) (reuse : Bool) (bound : List Fd) (s : Accepting κ χ) : Action χ → Bool
  | .loop fd _ => (s.pc fd).running || s.busy bound < threads
  | .close => s.closer.running || s.busy bound < threads
  | .reopen _ => reuse
  | _ => true

/-- A step of a server whose accepting `IOManager` has the given number of threads. -/
def turn (threads : Nat) (reuse : Bool) (bound : List Fd) (s : Accepting κ χ) (a : Action χ) :
    Except (Option Fault) (Accepting κ χ) :=
  guarded (s.allowed threads reuse bound a) (s.step a)

/-- The loop is at its end after four more statements of its own, whatever the system answers. -/
def Ends (s : Accepting κ χ) (fd : Fd) : Prop :=
  ∀ answers : List Bool, 4 ≤ answers.length → ∃ t, answers.foldlM (loop · fd ·) s = .ok t ∧
    (t.pc fd = .ended ∨ t.pc fd = .unstarted)

/-- No step fails, a loop that waits is watched for or about to be resumed, and a loop whose socket has
been closed comes to its end. -/
structure Sound (threads : Nat) (reuse : Bool) (bound : List Fd) (s : Accepting κ χ) : Prop where
  faultless : ∀ a fault, s.turn threads reuse bound a ≠ .error (some fault)
  watched : ∀ fd, s.pc fd = .parked → s.Queued fd ∨
    s.phase fd = .listening ∧ s.io.interest fd = some (epollEt ||| epollIn)
  ends : ∀ fd, s.phase fd = .invalid → s.Ends fd

/-! ### Loops of closed sockets -/

variable {s t : Accepting κ χ} {fd g : Fd} {ok : Bool} {bound : List Fd} {r : Registry κ Fd}

/-- The statements that only a loop with an open socket is at. -/
def Pc.inside : Pc χ → Bool
  | .enter | .add | .init _ => true
  | _ => false

/-- How many statements are left at most. -/
def Pc.left : Pc χ → Nat
  | .yield => 4
  | .parked => 3
  | .scheduled | .attempt _ => 2
  | .test | .enter | .add | .init _ => 1
  | .unstarted | .ended => 0

structure Draining (s : Accepting κ χ) (fd : Fd) : Prop where
  stop : s.isStop = true
  shut : s.phase fd = .invalid
  owned : s.reused fd = false
  queued : (s.pc fd).waiting = true → s.Queued fd
  outside : (s.pc fd).inside = false

theorem Draining.goto {pc : Pc χ} (draining : s.Draining fd) (waiting : pc.waiting = true → s.Queued fd)
    (outside : pc.inside = false) : (s.goto fd pc).Draining fd where
  stop := draining.stop
  shut := draining.shut
  owned := draining.owned
  queued := by
    have now : (s.goto fd pc).pc fd = pc := Function.update_self ..
    rw [now]
    exact waiting
  outside := by
    have now : (s.goto fd pc).pc fd = pc := Function.update_self ..
    rwa [now]

theorem Draining.loop (draining : s.Draining fd) (ok : Bool) :
    ∃ t, s.loop fd ok = .ok t ∧ t.Draining fd ∧ (t.pc fd).left ≤ (s.pc fd).left - 1 := by
  have closed : (ok && s.isOpen fd) = false := by
    unfold isOpen
    rw [draining.shut, draining.owned]
    exact Bool.and_false ok
  have now (pc : Pc χ) : ((s.goto fd pc).pc fd).left = pc.left := congrArg Pc.left (Function.update_self ..)
  unfold Accepting.loop
  cases pc : s.pc fd with
  | unstarted => exact ⟨s, rfl, draining, by rw [pc]; exact le_rfl⟩
  | ended => exact ⟨s, rfl, draining, by rw [pc]; exact le_rfl⟩
  | scheduled => exact ⟨_, rfl, draining.goto Bool.noConfusion rfl, (now _).le⟩
  | test =>
    rw [draining.stop]
    exact ⟨_, rfl, draining.goto Bool.noConfusion rfl, (now _).le⟩
  | attempt hooked =>
    dsimp only
    rw [closed]
    exact ⟨_, rfl, draining.goto Bool.noConfusion rfl, (now _).le⟩
  | yield => exact ⟨_, rfl, draining.goto (fun _ => draining.queued (by rw [pc]; rfl)) rfl, (now _).le⟩
  | parked =>
    dsimp only
    rw [if_pos (draining.queued (by rw [pc]; rfl))]
    have next : (s.goto fd (.attempt true)).Draining fd := draining.goto Bool.noConfusion rfl
    refine ⟨_, rfl, ⟨next.stop, next.shut, next.owned, fun waiting => ?_, next.outside⟩, (now (.attempt true)).le⟩
    have resumed : (s.goto fd (.attempt true)).pc fd = .attempt true := Function.update_self ..
    dsimp only at waiting
    rw [resumed] at waiting
    cases waiting
  | enter => cases (congrArg Pc.inside pc).symm.trans draining.outside
  | add => cases (congrArg Pc.inside pc).symm.trans draining.outside
  | init client => cases (congrArg Pc.inside pc).symm.trans draining.outside

theorem Draining.ends (draining : s.Draining fd) : s.Ends fd := by
  have runs (answers : List Bool) : ∀ s : Accepting κ χ, s.Draining fd → (s.pc fd).left ≤ answers.length →
      ∃ t, answers.foldlM (Accepting.loop · fd ·) s = .ok t ∧ (t.pc fd).left = 0 := by
    induction answers with
    | nil => exact fun s _ few => ⟨s, rfl, Nat.le_zero.mp few⟩
    | cons ok answers ih =>
      intro s draining few
      obtain ⟨u, moved, draining, fewer⟩ := draining.loop ok
      obtain ⟨t, ran, finished⟩ := ih u draining (fewer.trans (Nat.sub_le_of_le_add few))
      refine ⟨t, ?_, finished⟩
      rw [List.foldlM_cons, moved]
      exact ran
  intro answers enough
  have few : (s.pc fd).left ≤ 4 := by cases s.pc fd <;> simp [Pc.left]
  obtain ⟨t, ran, finished⟩ := runs answers s draining (few.trans enough)
  refine ⟨t, ran, ?_⟩
  cases pc : t.pc fd with
  | ended => exact .inl rfl
  | unstarted => exact .inr rfl
  | _ =>
    rw [pc] at finished
    cases finished

theorem foldlM_stay (stay : ∀ ok, s.loop fd ok = .ok s) (answers : List Bool) :
    answers.foldlM (loop · fd ·) s = .ok s := by
  induction answers with
  | nil => rfl
  | cons ok answers ih =>
    rw [List.foldlM_cons, stay]
    exact ih

theorem ends_of_unstarted (pc : s.pc fd = .unstarted) : s.Ends fd := by
  have stay (ok : Bool) : s.loop fd ok = .ok s := by
    unfold loop
    rw [pc]
  exact fun answers _ => ⟨s, foldlM_stay stay answers, .inr pc⟩

structure Kept (s : Accepting κ χ) (r : Registry κ Fd) : Prop where
  layout : s.io = r.concrete
  owned : ∀ fd, s.reused fd = false
  held : ∀ fd event h, r.slots (fd, event) = some h →
    event = .read ∧ h = (0, .fiber fd) ∧ (s.pc fd).waiting = true ∧ s.phase fd = .listening
  balance : ∀ fd, s.wakeups fd = s.taken fd + ((s.pc fd).waiting && (r.slots (fd, .read)).isNone).toNat
  inside : ∀ fd, (s.pc fd).inside = true → s.phase fd = .listening
  apart : s.closer.running = true → ∀ fd, (s.pc fd).running = false
  cleared : ∀ fd rest, s.closer = .sweep fd rest .del → r.slots (fd, .read) = none

theorem Kept.frame (kept : Kept s r) (io : t.io = s.io) (phase : t.phase = s.phase) (reused : t.reused = s.reused)
    (pc : t.pc = s.pc) (taken : t.taken = s.taken) (closer : t.closer = s.closer) : Kept t r where
  layout := io.trans kept.layout
  owned := by rw [reused]; exact kept.owned
  held := by rw [pc, phase]; exact kept.held
  balance fd := by
    have same : t.wakeups fd = s.wakeups fd := by
      unfold wakeups
      rw [io]
    rw [same, pc, taken]
    exact kept.balance fd
  inside := by rw [pc, phase]; exact kept.inside
  apart := by rw [closer, pc]; exact kept.apart
  cleared := by rw [closer]; exact kept.cleared

theorem Kept.write (kept : Kept s r) (fd : Fd) : r.slots (fd, .write) = none := by
  cases found : r.slots (fd, .write) with
  | none => rfl
  | some h => cases (kept.held fd .write h found).1

theorem Kept.unregistered (kept : Kept s r) (fd : Fd)
    (out : (s.pc fd).waiting = false ∨ s.phase fd ≠ .listening) : r.slots (fd, .read) = none := by
  cases found : r.slots (fd, .read) with
  | none => rfl
  | some h =>
    obtain ⟨_, _, waiting, listening⟩ := kept.held fd .read h found
    rcases out with out | out
    · cases out.symm.trans waiting
    · exact absurd listening out

theorem Kept.queued (kept : Kept s r) (waiting : (s.pc fd).waiting = true) (free : r.slots (fd, .read) = none) :
    s.Queued fd := by
  have balance := kept.balance fd
  rw [waiting, free] at balance
  unfold Queued
  rw [balance]
  exact Nat.lt_succ_self _

/-- What waits for a connection is pushed to the scheduler. -/
theorem Kept.push (kept : Kept s r) (g : Fd) : Kept { s with io := (r.push g .read).concrete } (r.push g .read) := by
  cases found : r.slots (g, .read) with
  | none =>
    rw [Registry.push_empty found]
    exact kept.frame kept.layout.symm rfl rfl rfl rfl rfl
  | some h =>
    obtain ⟨_, rfl, waiting, _⟩ := kept.held g .read h found
    have freed : (r.push g .read).slots (g, .read) = none := Function.update_self ..
    have still {fd : Fd} {event : Event} {h : Handler κ Fd} (now : (r.push g .read).slots (fd, event) = some h) :
        r.slots (fd, event) = some h := by
      by_cases here : (fd, event) = (g, .read)
      · rw [here, freed] at now
        cases now
      · exact (Function.update_of_ne here _ _).symm.trans now
    refine ⟨rfl, kept.owned, fun fd event h now => kept.held fd event h (still now), fun fd => ?_, kept.inside, kept.apart, ?_⟩
    · have before : r.pushed.countP (wakes fd) = s.taken fd + ((s.pc fd).waiting && (r.slots (fd, .read)).isNone).toNat := by
        rw [← kept.balance fd]
        unfold wakeups
        rw [kept.layout]
        rfl
      have pushed : (r.push g .read).pushed = r.pushed ++ [(0, .fiber g)] := by
        unfold Registry.push
        rw [found]
        rfl
      change (r.push g .read).pushed.countP (wakes fd) = _
      rw [pushed, List.countP_append, before]
      by_cases here : fd = g
      · subst here
        simp [found, freed, waiting, wakes]
      · have other : (r.push g .read).slots (fd, .read) = r.slots (fd, .read) := Registry.push_other here
        simp [other, wakes, Ne.symm here]
    · intro fd rest closer
      have none_before := kept.cleared fd rest closer
      by_contra some_now
      obtain ⟨h, now⟩ := Option.ne_none_iff_exists'.mp some_now
      cases none_before.symm.trans (still now)

theorem Kept.cancekAll_eq (kept : Kept s r) (g : Fd) :
    ∃ rt, s.io.cancekAll g true = .ok (rt, (r.push g .read).concrete) := by
  rw [kept.layout, Registry.cancekAll_concrete]
  split
  · refine ⟨true, ?_⟩
    have free : (r.push g .read).slots (g, .write) = none := (Registry.push_beside (by decide)).trans (kept.write g)
    rw [Registry.push_empty free]
  · rename_i quiet
    refine ⟨false, ?_⟩
    have zero : r.events g = 0 := by
      by_contra busy
      exact quiet ⟨busy, rfl⟩
    rw [Registry.push_empty ((r.events_eq_zero g).mp zero).1]

theorem Kept.deliver_eq (kept : Kept s r) (g : Fd) :
    s.io.deliver g epollIn true = .ok (r.push g .read).concrete := by
  have real : realEvents epollIn = bits true false := by decide
  have events : r.events g = bits (r.slots (g, .read)).isSome false := by
    unfold Registry.events
    rw [kept.write g]
    rfl
  rw [kept.layout, Registry.deliver_concrete, real, events, has_bits_read, has_bits_write]
  cases found : r.slots (g, .read) with
  | none =>
    rw [Option.isSome_none, if_pos (.inl (by decide)), Registry.push_empty found]
  | some h =>
    rw [Option.isSome_some, if_neg (by decide), if_pos (by decide)]
    rfl

/-- Where a loop goes on that stays registered or unregistered. -/
theorem Kept.goto {pc : Pc χ} (kept : Kept s r) (calm : s.closer.running = false)
    (waiting : pc.waiting = (s.pc fd).waiting) (inside : pc.inside = true → s.phase fd = .listening) :
    Kept (s.goto fd pc) r := by
  have elsewhere {g : Fd} (other : g ≠ fd) : (s.goto fd pc).pc g = s.pc g := Function.update_of_ne other _ _
  have here : (s.goto fd pc).pc fd = pc := Function.update_self ..
  have same (g : Fd) : ((s.goto fd pc).pc g).waiting = (s.pc g).waiting := by
    by_cases at_fd : g = fd
    · rw [at_fd, here, waiting]
    · rw [elsewhere at_fd]
  refine ⟨kept.layout, kept.owned, ?_, ?_, ?_, fun running => absurd (calm.symm.trans running) Bool.noConfusion, kept.cleared⟩
  · intro g event h found
    rw [same]
    exact kept.held g event h found
  · intro g
    rw [same]
    exact kept.balance g
  · intro g
    by_cases at_fd : g = fd
    · rw [at_fd, here]
      exact inside
    · rw [elsewhere at_fd]
      exact kept.inside g

/-- While the task of `stop` is not at a socket, every socket is as `bind` left it or has been closed. -/
theorem Swept.calm (swept : Swept bound s) (calm : s.closer.running = false) (fd : Fd) :
    s.phase fd = .listening ∨ s.phase fd = .invalid := by
  by_cases member : fd ∈ bound
  · have place := swept.place
    unfold Place at place
    split at place
    · exact .inl (place.2 fd member)
    · exact .inl (place.2 fd member)
    · rename_i closer
      rw [closer] at calm
      cases calm
    · exact .inr (place.2 fd member)
  · exact .inr (swept.outside fd member).1

theorem Kept.listening (kept : Kept s r) (swept : Swept bound s) (calm : s.closer.running = false)
    (isOpen : s.isOpen fd = true) : s.phase fd = .listening := by
  refine (swept.calm calm fd).resolve_right fun invalid => ?_
  unfold Accepting.isOpen at isOpen
  rw [invalid, kept.owned] at isOpen
  cases isOpen

theorem Swept.going (swept : Swept bound s) (going : s.isStop = false) (started : s.pc fd ≠ .unstarted) :
    s.phase fd = .listening := by
  have member : fd ∈ bound := by
    by_contra out
    exact started (swept.outside fd out).2
  have idle : s.closer = .idle := by
    by_contra moved
    cases going.symm.trans (swept.stopped moved)
  have place := swept.place
  unfold Place at place
  rw [idle] at place
  exact place.2 fd member

theorem Kept.jump {pc : Pc χ} (kept : Kept s r) (swept : Swept bound s) (calm : s.closer.running = false)
    (jump : Jump s fd pc) : Kept (s.goto fd pc) r := by
  cases jump with
  | begin here => exact kept.goto calm (by rw [here]; rfl) Bool.noConfusion
  | leave here _ => exact kept.goto calm (by rw [here]; rfl) Bool.noConfusion
  | go here going =>
    exact kept.goto calm (by rw [here]; rfl) fun _ => swept.going going (by simp [here])
  | hook here _ => exact kept.goto calm (by rw [here]; rfl) Bool.noConfusion
  | unhooked here _ => exact kept.goto calm (by rw [here]; rfl) Bool.noConfusion
  | fail here =>
    refine kept.goto calm ?_ Bool.noConfusion
    rcases here with here | ⟨_, here⟩
    · rw [here]; rfl
    · rw [here]; rfl
  | block here isOpen => exact kept.goto calm (by rw [here]; rfl) fun _ => kept.listening swept calm isOpen
  | yield here => exact kept.goto calm (by rw [here]; rfl) Bool.noConfusion

/-- The fiber of a loop takes the place of its descriptor. -/
theorem Kept.register (kept : Kept s r) (calm : s.closer.running = false) (pc : s.pc fd = .add) :
    Kept { s.goto fd .yield with io := (r.put fd .read (by decide) (0, .fiber fd)).concrete }
      (r.put fd .read (by decide) (0, .fiber fd)) := by
  have free : r.slots (fd, .read) = none := kept.unregistered fd (.inl (by rw [pc]; rfl))
  have put_here : (r.put fd .read (by decide) (0, .fiber fd)).slots (fd, .read) = some (0, .fiber fd) :=
    Function.update_self ..
  have elsewhere {g : Fd} (other : g ≠ fd) : (s.goto fd .yield).pc g = s.pc g := Function.update_of_ne other _ _
  have here : (s.goto fd .yield).pc fd = .yield := Function.update_self ..
  have tasks (g : Fd) : r.pushed.countP (wakes g) = s.taken g + ((s.pc g).waiting && (r.slots (g, .read)).isNone).toNat := by
    rw [← kept.balance g]
    unfold wakeups
    rw [kept.layout]
    rfl
  refine ⟨rfl, kept.owned, ?_, ?_, ?_, fun running => absurd (calm.symm.trans running) Bool.noConfusion, ?_⟩
  · intro g event h found
    by_cases at_fd : (g, event) = (fd, .read)
    · obtain ⟨rfl, rfl⟩ := Prod.mk.inj at_fd
      cases put_here.symm.trans found
      exact ⟨rfl, rfl, congrArg Pc.waiting here, kept.inside g (by rw [pc]; rfl)⟩
    · have before := (Function.update_of_ne at_fd _ _).symm.trans found
      obtain ⟨read, handler, waiting, listening⟩ := kept.held g event h before
      have other : g ≠ fd := fun same => at_fd (by rw [same, read])
      exact ⟨read, handler, (congrArg Pc.waiting (elsewhere other)).trans waiting, listening⟩
  · intro g
    change r.pushed.countP (wakes g) = _
    rw [tasks]
    by_cases at_fd : g = fd
    · rw [at_fd, pc]
      dsimp only
      rw [put_here, here]
      rfl
    · have other : (r.put fd .read (by decide) (0, .fiber fd)).slots (g, .read) = r.slots (g, .read) :=
        Registry.put_other _ _ at_fd
      dsimp only
      rw [elsewhere at_fd, other]
      rfl
  · intro g
    dsimp only
    by_cases at_fd : g = fd
    · rw [at_fd, here]
      exact Bool.noConfusion
    · rw [elsewhere at_fd]
      exact kept.inside g
  · intro g rest closer
    have running : s.closer.running = true := by
      have same : s.closer = .sweep g rest .del := closer
      rw [same]
      rfl
    cases calm.symm.trans running

theorem Kept.resume (kept : Kept s r) (calm : s.closer.running = false) (pc : s.pc fd = .parked) (queued : s.Queued fd) :
    Kept { s.goto fd (.attempt true) with taken := Function.update s.taken fd (s.taken fd + 1) } r := by
  have elsewhere {g : Fd} (other : g ≠ fd) : (s.goto fd (.attempt true)).pc g = s.pc g := Function.update_of_ne other _ _
  have here : (s.goto fd (.attempt true)).pc fd = .attempt true := Function.update_self ..
  have woken := kept.balance fd
  -- a wake-up is queued only when the fiber is not registered any more
  have free : (r.slots (fd, .read)).isNone = true := by
    unfold Queued at queued
    by_contra registered
    rw [Bool.not_eq_true] at registered
    rw [registered, Bool.and_false] at woken
    simp only [Bool.toNat_false] at woken
    omega
  refine ⟨kept.layout, kept.owned, ?_, ?_, ?_, fun running => absurd (calm.symm.trans running) Bool.noConfusion, kept.cleared⟩
  · intro g event h found
    have before := kept.held g event h found
    have other : g ≠ fd := by
      intro same
      rw [same, before.1] at found
      rw [found] at free
      cases free
    dsimp only
    rw [elsewhere other]
    exact before
  · intro g
    change s.wakeups g = _
    by_cases at_fd : g = fd
    · rw [at_fd, woken, pc, free]
      dsimp only
      rw [Function.update_self, here]
      rfl
    · dsimp only
      rw [Function.update_of_ne at_fd, elsewhere at_fd]
      exact kept.balance g
  · intro g
    dsimp only
    by_cases at_fd : g = fd
    · rw [at_fd, here]
      exact Bool.noConfusion
    · rw [elsewhere at_fd]
      exact kept.inside g

theorem Kept.moves (kept : Kept s r) (swept : Swept bound s) (calm : s.closer.running = false) (moves : Moves s fd t) :
    ∃ r', Kept t r' := by
  cases moves with
  | stay => exact ⟨r, kept⟩
  | jump jump => exact ⟨r, kept.jump swept calm jump⟩
  | @accept hooked client rest pc isOpen _ =>
    have next : Kept (s.goto fd (.init client)) r :=
      kept.goto calm (by rw [pc]; rfl) fun _ => kept.listening swept calm isOpen
    exact ⟨r, next.frame rfl rfl rfl rfl rfl rfl⟩
  | register pc added =>
    rw [kept.layout, Registry.addEvent_concrete, kept.unregistered fd (.inl (by rw [pc]; rfl))] at added
    cases added
    exact ⟨_, kept.register calm pc⟩
  | resume pc queued => exact ⟨r, kept.resume calm pc queued⟩
  | handle pc _ =>
    have next : Kept (s.goto fd .test) r := kept.goto calm (by rw [pc]; rfl) Bool.noConfusion
    exact ⟨r, next.frame rfl rfl rfl rfl rfl rfl⟩

theorem Kept.loop_ok (kept : Kept s r) (fd : Fd) (ok : Bool) : ∃ t, s.loop fd ok = .ok t := by
  unfold Accepting.loop
  cases pc : s.pc fd with
  | enter =>
    dsimp only
    rw [kept.inside fd (by rw [pc]; rfl)]
    exact ⟨_, rfl⟩
  | add =>
    dsimp only
    rw [kept.layout, Registry.addEvent_concrete, kept.unregistered fd (.inl (by rw [pc]; rfl))]
    cases ok && s.isOpen fd with
    | true => exact ⟨_, rfl⟩
    | false => exact ⟨_, rfl⟩
  | attempt hooked =>
    dsimp only
    split
    · split
      · exact ⟨_, rfl⟩
      · exact ⟨_, rfl⟩
    · exact ⟨_, rfl⟩
  | parked =>
    dsimp only
    split
    · exact ⟨_, rfl⟩
    · exact ⟨_, rfl⟩
  | _ => exact ⟨_, rfl⟩

theorem Kept.closer {closer : Closer} (kept : Kept s r) (still : ∀ fd, (s.pc fd).running = false)
    (cleared : ∀ fd rest, closer = .sweep fd rest .del → r.slots (fd, .read) = none) :
    Kept { s with closer := closer } r :=
  ⟨kept.layout, kept.owned, kept.held, kept.balance, kept.inside, fun _ => still, cleared⟩

theorem Kept.sweepNext (kept : Kept s r) (still : ∀ fd, (s.pc fd).running = false) (rest : List Fd) :
    Kept (s.sweepNext rest) r := by
  cases rest with
  | nil => exact ⟨kept.layout, kept.owned, kept.held, kept.balance, kept.inside, fun _ => still, fun _ _ closer => by cases closer⟩
  | cons g rest => exact kept.closer still fun _ _ closer => by cases closer

theorem Kept.phase (kept : Kept s r) (still : ∀ fd, (s.pc fd).running = false) (free : r.slots (g, .read) = none)
    (phase : Phase) : Kept { s with phase := Function.update s.phase g phase } r := by
  refine ⟨kept.layout, kept.owned, fun fd event h found => ?_, kept.balance, fun fd inside => ?_, kept.apart, kept.cleared⟩
  · have before := kept.held fd event h found
    have other : fd ≠ g := by
      intro same
      rw [same, before.1, free] at found
      cases found
    dsimp only
    rw [Function.update_of_ne other]
    exact before
  · have running : (s.pc fd).running = true := by
      dsimp only at inside
      cases pc : s.pc fd with
      | enter => rfl
      | add => rfl
      | init client => rfl
      | _ =>
        rw [pc] at inside
        cases inside
    cases (still fd).symm.trans running

/-- Closing a descriptor on which nothing is registered takes nothing from the registry. -/
theorem Kept.setInterest (kept : Kept s r) (free : r.slots (g, .read) = none) : s.io.setInterest g none = s.io := by
  have quiet : r.interest g = none := if_pos ((r.events_eq_zero g).mpr ⟨free, kept.write g⟩)
  have same : Function.update r.interest g none = r.interest := by
    rw [← quiet]
    exact Function.update_eq_self g r.interest
  rw [kept.layout]
  unfold IOManager.setInterest Registry.concrete Registry.watched
  dsimp only
  rw [same]

theorem Kept.cancekAll {closer : Closer} (kept : Kept s r) (still : ∀ fd, (s.pc fd).running = false)
    (here : ∀ fd rest, closer = .sweep fd rest .del → fd = g) :
    ∃ t, s.cancekAll g closer = .ok t ∧ ∃ r', Kept t r' := by
  obtain ⟨rt, cancelled⟩ := kept.cancekAll_eq g
  unfold Accepting.cancekAll
  rw [cancelled]
  refine ⟨_, rfl, r.push g .read, (kept.push g).closer still fun fd rest same => ?_⟩
  rw [here fd rest same]
  exact Function.update_self ..

theorem Kept.close (kept : Kept s r) (swept : Swept bound s) (still : ∀ fd, (s.pc fd).running = false) :
    ∃ t, s.close = .ok t ∧ ∃ r', Kept t r' := by
  unfold Accepting.close
  cases closer : s.closer with
  | idle => exact ⟨s, rfl, r, kept⟩
  | scheduled => exact ⟨_, rfl, r, kept.sweepNext still _⟩
  | done => exact ⟨s, rfl, r, kept⟩
  | sweep g rest stage =>
    have phase : s.phase g = stage.phase := by
      have place := swept.place
      unfold Place at place
      rw [closer] at place
      exact place.2.2.1
    have shut (after : stage.phase ≠ .listening) : r.slots (g, .read) = none :=
      kept.unregistered g (.inr (by rw [phase]; exact after))
    cases stage with
    | cancelAll => exact kept.cancekAll still fun _ _ same => by cases same
    | cancel => exact kept.cancekAll still fun _ _ same => by cases same; rfl
    | del =>
      have next := kept.phase still (kept.cleared g rest closer) .forgotten
      exact ⟨_, rfl, r, next.closer still fun _ _ same => by cases same⟩
    | close =>
      have free := shut (by decide)
      have next : Kept { s with phase := Function.update s.phase g .closed, closer := .sweep g rest .reset } r :=
        (kept.phase still free .closed).closer still fun _ _ same => by cases same
      exact ⟨_, rfl, r, next.frame (kept.setInterest free) rfl rfl rfl rfl rfl⟩
    | reset => exact ⟨_, rfl, r, (kept.phase still (shut (by decide)) .invalid).sweepNext still rest⟩

/-! ### Runs -/

theorem kept_new : Kept (new bound : Accepting κ χ) Registry.empty where
  layout := Registry.concrete_empty.symm
  owned _ := rfl
  held _ _ _ found := by cases found
  balance _ := rfl
  inside _ inside := by cases inside
  apart running := by cases running
  cleared _ _ _ := rfl

theorem Kept.start (kept : Kept s r) (swept : Swept bound s) : Kept s.start r := by
  unfold Accepting.start
  split
  · exact kept
  · rename_i fresh
    have unstarted := swept.fresh (by simpa using fresh)
    have pcs (fd : Fd) : (if fd ∈ s.socks then .scheduled else s.pc fd : Pc χ) = .scheduled ∨
        (if fd ∈ s.socks then .scheduled else s.pc fd : Pc χ) = .unstarted := by
      split
      · exact .inl rfl
      · exact .inr (unstarted fd)
    refine ⟨kept.layout, kept.owned, fun fd event h found => ?_, fun fd => ?_, fun fd inside => ?_, fun _ fd => ?_, kept.cleared⟩
    · have waiting := (kept.held fd event h found).2.2.1
      rw [unstarted fd] at waiting
      cases waiting
    · have balance := kept.balance fd
      rw [unstarted fd] at balance
      dsimp only
      rcases pcs fd with pc | pc
      · rw [pc]; exact balance
      · rw [pc]; exact balance
    · dsimp only at inside
      rcases pcs fd with pc | pc
      · rw [pc] at inside; cases inside
      · rw [pc] at inside; cases inside
    · dsimp only
      rcases pcs fd with pc | pc
      · rw [pc]; rfl
      · rw [pc]; rfl

theorem Kept.stop (kept : Kept s r) : Kept s.stop r := by
  unfold Accepting.stop
  split
  · exact kept
  · refine ⟨kept.layout, kept.owned, kept.held, kept.balance, kept.inside, ?_, ?_⟩
    · intro running
      cases running
    · intro _ _ same
      cases same

theorem Kept.ready (kept : Kept s r) (fd : Fd) : ∃ t, s.ready fd = .ok t ∧ ∃ r', Kept t r' := by
  unfold Accepting.ready
  split
  · exact ⟨s, rfl, r, kept⟩
  · rw [kept.deliver_eq fd]
    exact ⟨_, rfl, _, kept.push fd⟩

theorem Kept.connect (kept : Kept s r) (client : χ) : Kept (s.connect fd client) r := by
  unfold Accepting.connect
  split
  · exact kept.frame rfl rfl rfl rfl rfl rfl
  · exact kept

/-- With one thread, a loop goes on while the task of `stop` is not at a socket. -/
theorem Kept.calm {threads : Nat} {reuse : Bool} (kept : Kept s r) (one : threads ≤ 1)
    (allowed : s.allowed threads reuse bound (.loop fd ok) = true) : s.closer.running = false := by
  cases running : s.closer.running with
  | false => rfl
  | true =>
    rcases Bool.or_eq_true_iff.mp allowed with here | free
    · cases (kept.apart running fd).symm.trans here
    · have few := of_decide_eq_true free
      unfold busy at few
      rw [running, Bool.toNat_true] at few
      omega

/-- With one thread, the task of `stop` goes on while no loop does. -/
theorem Kept.still {threads : Nat} {reuse : Bool} (kept : Kept s r) (swept : Swept bound s) (one : threads ≤ 1)
    (allowed : s.allowed threads reuse bound .close = true) : ∀ fd, (s.pc fd).running = false := by
  rcases Bool.or_eq_true_iff.mp allowed with running | free
  · exact kept.apart running
  · have few := of_decide_eq_true free
    unfold busy at few
    have none_runs : bound.countP (fun fd => (s.pc fd).running) = 0 := by omega
    intro fd
    by_cases member : fd ∈ bound
    · simpa using List.countP_eq_zero.mp none_runs fd member
    · rw [(swept.outside fd member).2]
      rfl

theorem Kept.step {threads : Nat} {a : Action χ} (kept : Kept s r) (swept : Swept bound s) (one : threads ≤ 1)
    (allowed : s.allowed threads false bound a = true) : ∃ t, s.step a = .ok t ∧ ∃ r', Kept t r' := by
  cases a with
  | start => exact ⟨_, rfl, r, kept.start swept⟩
  | stop => exact ⟨_, rfl, r, kept.stop⟩
  | close => exact kept.close swept (kept.still swept one allowed)
  | loop fd ok =>
    obtain ⟨t, moved⟩ := kept.loop_ok fd ok
    exact ⟨t, moved, kept.moves swept (kept.calm one allowed) (loop_moves moved)⟩
  | connect fd client => exact ⟨_, rfl, r, kept.connect client⟩
  | ready fd => exact kept.ready fd
  | reopen fd => cases allowed

theorem Kept.sound {threads : Nat} (kept : Kept s r) (swept : Swept bound s) (one : threads ≤ 1) :
    s.Sound threads false bound := by
  refine ⟨?_, ?_, ?_⟩
  · intro a fault failed
    obtain ⟨allowed, failed⟩ := guarded_eq_error_iff.mp failed
    obtain ⟨t, moved, _⟩ := kept.step swept one allowed
    cases moved.symm.trans failed
  · intro fd pc
    cases found : r.slots (fd, .read) with
    | none => exact .inl (kept.queued (by rw [pc]; rfl) found)
    | some h =>
      right
      obtain ⟨_, _, _, listening⟩ := kept.held fd .read h found
      refine ⟨listening, ?_⟩
      have events : r.events fd = epollIn := by
        unfold Registry.events
        rw [found, kept.write fd, Option.isSome_some, Option.isSome_none]
        decide
      rw [kept.layout]
      change r.interest fd = _
      unfold Registry.interest
      rw [events]
      rfl
  · intro fd invalid
    by_cases unstarted : s.pc fd = .unstarted
    · exact ends_of_unstarted unstarted
    · refine Draining.ends ⟨?_, invalid, kept.owned fd, ?_, ?_⟩
      · by_contra going
        have listening := swept.going (by simpa using going) unstarted
        cases listening.symm.trans invalid
      · intro waiting
        exact kept.queued waiting (kept.unregistered fd (.inr (by rw [invalid]; decide)))
      · by_contra inside
        have listening := kept.inside fd (by simpa using inside)
        cases listening.symm.trans invalid

/-! ### No thread -/

/-- What is left of a server while nothing runs. -/
structure Asleep (s : Accepting κ χ) : Prop where
  io : s.io = Registry.empty.concrete
  pc : ∀ fd, s.pc fd = .unstarted ∨ s.pc fd = .scheduled
  closer : s.closer = .idle ∨ s.closer = .scheduled

theorem Asleep.refused_loop {reuse : Bool} (asleep : Asleep s) : s.allowed 0 reuse bound (.loop fd ok) = false := by
  have still : (s.pc fd).running = false := by
    rcases asleep.pc fd with pc | pc
    · rw [pc]; rfl
    · rw [pc]; rfl
  simp [allowed, still]

theorem Asleep.refused_close {reuse : Bool} (asleep : Asleep s) : s.allowed 0 reuse bound .close = false := by
  have calm : s.closer.running = false := by
    rcases asleep.closer with closer | closer
    · rw [closer]; rfl
    · rw [closer]; rfl
  simp [allowed, calm]

theorem Asleep.ready (asleep : Asleep s) (fd : Fd) : ∃ t, s.ready fd = .ok t ∧ Asleep t := by
  have nothing : s.io.deliver fd epollIn true = .ok s.io := by
    have quiet : (Registry.empty : Registry κ Fd).events fd = 0 := (Registry.empty.events_eq_zero fd).mpr ⟨rfl, rfl⟩
    rw [asleep.io, Registry.deliver_concrete, quiet, if_pos (.inl (by decide))]
  unfold Accepting.ready
  split
  · exact ⟨s, rfl, asleep⟩
  · rw [nothing]
    exact ⟨s, rfl, asleep⟩

theorem Asleep.step {reuse : Bool} {a : Action χ} (asleep : Asleep s) (allowed : s.allowed 0 reuse bound a = true) :
    ∃ t, s.step a = .ok t ∧ Asleep t := by
  cases a with
  | start =>
    refine ⟨_, rfl, ?_⟩
    unfold Accepting.start
    split
    · exact asleep
    · refine ⟨asleep.io, fun fd => ?_, asleep.closer⟩
      dsimp only
      split
      · exact .inr rfl
      · exact asleep.pc fd
  | stop =>
    refine ⟨_, rfl, ?_⟩
    unfold Accepting.stop
    split
    · exact asleep
    · exact ⟨asleep.io, asleep.pc, .inr rfl⟩
  | close => cases asleep.refused_close.symm.trans allowed
  | loop fd ok => cases asleep.refused_loop.symm.trans allowed
  | connect fd client =>
    refine ⟨_, rfl, ?_⟩
    unfold Accepting.connect
    split
    · exact ⟨asleep.io, asleep.pc, asleep.closer⟩
    · exact asleep
  | ready fd => exact asleep.ready fd
  | reopen fd =>
    refine ⟨_, rfl, ?_⟩
    unfold Accepting.reopen
    split
    · exact asleep
    · exact ⟨asleep.io, asleep.pc, asleep.closer⟩

theorem Asleep.sound {reuse : Bool} (asleep : Asleep s) (swept : Swept bound s) : s.Sound 0 reuse bound := by
  refine ⟨?_, ?_, ?_⟩
  · intro a fault failed
    obtain ⟨allowed, failed⟩ := guarded_eq_error_iff.mp failed
    obtain ⟨t, moved, _⟩ := asleep.step allowed
    cases moved.symm.trans failed
  · intro fd parked
    rcases asleep.pc fd with pc | pc
    · cases pc.symm.trans parked
    · cases pc.symm.trans parked
  · intro fd invalid
    have unbound : fd ∉ bound := by
      intro member
      have place := swept.place
      unfold Place at place
      have listening : s.phase fd = .listening := by
        rcases asleep.closer with closer | closer
        · rw [closer] at place
          exact place.2 fd member
        · rw [closer] at place
          exact place.2 fd member
      cases listening.symm.trans invalid
    exact ends_of_unstarted (swept.outside fd unbound).2

/-! ### Servers that do not shut down -/

end Cool.Accepting
