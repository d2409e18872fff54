import Cool.Scheduler.Caller

/-!
# The turns of the programs

The queue of `stop` holds callbacks and suspended fibers, and `run` holds a `cb_fiber` and the idle fiber
beside it. From one pass of the head of its loop to the next, `run` lets one program of the queue go on.
-/

namespace Cool.Scheduler.Caller

open Foundation

open IOManager (increment decrement)

variable {κ : Type} {segment : Segment κ} {t : ThreadId} {s : System κ} {pc : Pc κ} {c : Option FiberId} {i f : FiberId}
  {b : Branch} {rest : FiberId → κ} {ran : List κ}

/-! ### What stands in the queue -/

/-- An entry of `m_fibers` for a program: the callback itself, or a fiber that goes on with it. -/
inductive Stands (heap : FiberId → Fiber κ) (created : Nat) (rest : FiberId → κ) : FiberAndThread κ → Int × κ → Prop where
  | callback {threadId : Int} {k : κ} : Stands heap created rest { cb := some k, threadId := threadId } (threadId, k)
  | fiber {f : FiberId} {threadId : Int} (known : f < created) (resting : (heap f).state ≠ .exec)
      (suspended : (heap f).ctx = .suspended) (task : (heap f).cb.isNone = false) :
      Stands heap created rest { fiber := some f, threadId := threadId } (threadId, rest f)

def queued (fibers : List (FiberAndThread κ)) : List FiberId := fibers.filterMap (·.fiber)

/-- The queue, with the fibers that `run` holds beside it: `own` and the idle fiber `i`. -/
structure Standing (s : System κ) (own : List FiberId) (i : FiberId) (rest : FiberId → κ) (queue : List (Int × κ)) :
    Prop where
  queue : List.Forall₂ (Stands s.heap s.created rest) s.fibers queue
  owned : (i :: (own ++ queued s.fibers)).Nodup
  known : ∀ g ∈ i :: own, g < s.created
  resting : (s.heap i).state = .init ∨ (s.heap i).state = .hold
  live : (s.heap i).ctx ≠ .finished
  task : (s.heap i).cb.isNone = false
  flags : s.autostop = true ∧ s.stop = true

variable {s' : System κ} {own own' : List FiberId} {rest' : FiberId → κ} {queue : List (Int × κ)} {k : κ}

theorem Standing.frame (standing : Standing s own i rest queue) (fibers : s'.fibers = s.fibers)
    (same : ∀ g, g ∉ own → g < s.created → s'.heap g = s.heap g ∧ rest' g = rest g) (created : s.created ≤ s'.created)
    (fewer : own'.Sublist own) (flags : s'.autostop = s.autostop ∧ s'.stop = s.stop) :
    Standing s' own' i rest' queue := by
  obtain ⟨apart, distinct⟩ := List.nodup_cons.mp standing.owned
  obtain ⟨_, _, disjoint⟩ := List.nodup_append.mp distinct
  have idle := same i (fun member => apart (List.mem_append_left _ member)) (standing.known i List.mem_cons_self)
  have still : ∀ ft ∈ s.fibers, ∀ e, Stands s.heap s.created rest ft e → Stands s'.heap s'.created rest' ft e := by
    intro ft member e stands
    cases stands with
    | callback => exact .callback
    | @fiber f threadId known resting suspended task =>
      have out : f ∉ own := fun owned => disjoint f owned f (List.mem_filterMap.mpr ⟨_, member, rfl⟩) rfl
      obtain ⟨heap, goes_on⟩ := same f out known
      rw [← heap] at resting suspended task
      rw [← goes_on]
      exact .fiber (known.trans_le created) resting suspended task
  refine ⟨?_, ?_, ?_, ?_, ?_, ?_, ?_⟩
  · rw [fibers]
    have all := List.forall₂_iff_zip.mp standing.queue
    refine List.forall₂_iff_zip.mpr ⟨all.1, fun {ft e} member => ?_⟩
    exact still ft (List.of_mem_zip member).1 e (all.2 member)
  · rw [fibers]
    exact standing.owned.sublist ((fewer.append_right _).cons_cons _)
  · intro g member
    refine (standing.known g ?_).trans_le created
    exact List.cons_subset_cons _ fewer.subset member
  · rw [idle.1]; exact standing.resting
  · rw [idle.1]; exact standing.live
  · rw [idle.1]; exact standing.task
  · rw [flags.1, flags.2]; exact standing.flags

theorem queued_entries (spawned : List (Int × κ)) : queued (spawned.map entry) = [] := by
  unfold queued
  rw [List.filterMap_map]
  exact List.filterMap_eq_nil_iff.mpr fun _ _ => rfl

theorem Standing.spawn (standing : Standing s own i rest queue) (spawned : List (Int × κ)) :
    Standing { s with fibers := s.fibers ++ spawned.map entry } own i rest (queue ++ spawned) := by
  have callbacks : List.Forall₂ (Stands s.heap s.created rest) (spawned.map entry) spawned := by
    refine List.forall₂_map_left_iff.mpr (List.forall₂_same.mpr ?_)
    rintro ⟨threadId, k⟩ _
    exact .callback
  have same : queued (s.fibers ++ spawned.map entry) = queued s.fibers := by
    unfold queued
    rw [List.filterMap_append]
    exact (congrArg _ (queued_entries spawned)).trans (List.append_nil _)
  refine ⟨List.rel_append standing.queue callbacks, ?_, standing.known, standing.resting, standing.live, standing.task,
    standing.flags⟩
  dsimp only
  rw [same]
  exact standing.owned

/-- A suspended fiber that `run` held is put into the queue. -/
theorem Standing.enqueue (standing : Standing s (f :: own) i rest queue) (threadId : Int)
    (resting : (s.heap f).state ≠ .exec) (suspended : (s.heap f).ctx = .suspended) (task : (s.heap f).cb.isNone = false) :
    Standing { s with fibers := s.fibers ++ [{ fiber := some f, threadId := threadId }] } own i rest
      (queue ++ [(threadId, rest f)]) := by
  have known : f < s.created := standing.known f (List.mem_cons_of_mem _ List.mem_cons_self)
  refine ⟨List.rel_append standing.queue (.cons (.fiber known resting suspended task) .nil), ?_, ?_, standing.resting,
    standing.live, standing.task, standing.flags⟩
  · have moved : queued (s.fibers ++ [{ fiber := some f, threadId := threadId }]) = queued s.fibers ++ [f] := by
      unfold queued
      rw [List.filterMap_append]
      rfl
    dsimp only
    rw [moved, ← List.append_assoc]
    refine (List.Perm.nodup_iff ?_).mp standing.owned
    exact ((List.perm_append_singleton f (own ++ queued s.fibers)).symm).cons i
  · intro g member
    apply standing.known g
    rcases List.mem_cons.mp member with rfl | inside
    · exact List.mem_cons_self
    · exact List.mem_cons_of_mem _ (List.mem_cons_of_mem _ inside)

/-- An entry is taken out of the queue, and with it the fiber it holds. -/
theorem Standing.pick {before after : List (Int × κ)} {e : Int × κ} {ft : FiberAndThread κ}
    {pre post : List (FiberAndThread κ)} (standing : Standing s own i rest (before ++ e :: after)) (active : Nat)
    (split : s.fibers = pre ++ ft :: post) (front : List.Forall₂ (Stands s.heap s.created rest) pre before)
    (stands : Stands s.heap s.created rest ft e) (back : List.Forall₂ (Stands s.heap s.created rest) post after) :
    Standing { s with fibers := pre ++ post, activeThreadCount := active } (ft.fiber.toList ++ own) i rest (before ++ after) := by
  refine ⟨List.rel_append front back, ?_, ?_, standing.resting, standing.live, standing.task, standing.flags⟩
  · have parts : queued s.fibers = queued pre ++ (ft.fiber.toList ++ queued post) := by
      rw [split]
      unfold queued
      rw [List.filterMap_append, List.filterMap_cons]
      cases ft.fiber with
      | none => rfl
      | some f => rfl
    have joined : queued (pre ++ post) = queued pre ++ queued post := List.filterMap_append
    have owned := standing.owned
    rw [parts] at owned
    dsimp only
    rw [joined]
    refine (List.Perm.nodup_iff (List.Perm.cons i ?_)).mp owned
    rw [List.append_assoc]
    calc own ++ (queued pre ++ (ft.fiber.toList ++ queued post))
      _ = own ++ queued pre ++ (ft.fiber.toList ++ queued post) := (List.append_assoc ..).symm
      _ |>.Perm (ft.fiber.toList ++ (own ++ queued pre ++ queued post)) := List.perm_append_comm_assoc ..
      _ = ft.fiber.toList ++ (own ++ (queued pre ++ queued post)) := by rw [List.append_assoc]
  · intro g member
    rcases List.mem_cons.mp member with rfl | member
    · exact standing.known g List.mem_cons_self
    · rcases List.mem_append.mp member with taken | member
      · cases stands with
        | callback => cases taken
        | fiber known =>
          rcases List.mem_cons.mp taken with rfl | none_more
          · exact known
          · cases none_more
      · exact standing.known g (List.mem_cons_of_mem _ member)

theorem queued_known {heap : FiberId → Fiber κ} {created : Nat} {fibers : List (FiberAndThread κ)}
    (stand : List.Forall₂ (Stands heap created rest) fibers queue) : ∀ g ∈ queued fibers, g < created := by
  induction stand with
  | nil => exact fun _ member => absurd member List.not_mem_nil
  | cons stands _ ih =>
    intro g member
    cases stands with
    | callback => exact ih g member
    | fiber known =>
      rcases List.mem_cons.mp member with rfl | member
      · exact known
      · exact ih g member

/-- A fiber is made. -/
theorem Standing.create (standing : Standing s own i rest queue) (cb : Option κ) :
    Standing (s.create cb) (s.created :: own) i rest queue := by
  have heap {g : FiberId} (known : g < s.created) : (s.create cb).heap g = s.heap g :=
    Function.update_of_ne (Nat.ne_of_lt known) _ _
  have fresh : s.created ∉ i :: (own ++ queued s.fibers) := by
    intro member
    refine absurd (?_ : s.created < s.created) (Nat.lt_irrefl _)
    rw [← List.cons_append] at member
    rcases List.mem_append.mp member with member | member
    · exact standing.known _ member
    · exact queued_known standing.queue _ member
  have framed : Standing (s.create cb) own i rest queue :=
    standing.frame rfl (fun _ _ known => ⟨heap known, rfl⟩) (Nat.le_succ _) (List.Sublist.refl _) ⟨rfl, rfl⟩
  refine ⟨framed.queue, ?_, ?_, framed.resting, framed.live, framed.task, framed.flags⟩
  · refine (List.Perm.nodup_iff (List.Perm.swap _ _ _)).mp (List.nodup_cons.mpr ⟨fresh, standing.owned⟩)
  · intro g member
    rcases List.mem_cons.mp member with rfl | member
    · exact framed.known g List.mem_cons_self
    · rcases List.mem_cons.mp member with rfl | member
      · exact Nat.lt_succ_self _
      · exact framed.known g (List.mem_cons_of_mem _ member)

/-! ### A turn -/

theorem Steps.on {d d' : Caller κ} (driven : drive segment t (on t s pc c i rest ran) = .ok d') (inside : pc ≠ .exited)
    (steps : Steps segment t d' d) : Steps segment t (Caller.on t s pc c i rest ran) d := by
  refine .head ⟨?_, driven⟩ steps
  unfold Exited
  rw [threads_on]
  exact fun exited => inside (Option.some.inj exited)

theorem fiber_exec (exit : Exit κ) (fiber : Fiber κ) : exit.fiber { fiber with state := .exec } = exit.fiber fiber := by
  cases exit <;> rfl

/-- The state when `run` comes to look at what has become of the fiber. -/
def checked (spawned : List (Int × κ)) (exit : Exit κ) (s : System κ) (f : FiberId) : System κ :=
  { s with
    fibers := s.fibers ++ spawned.map entry ++ exit.pushed f
    activeThreadCount := decrement s.activeThreadCount
    heap := Function.update s.heap f { exit.fiber (s.heap f) with ctx := exit.ctx } }

theorem checked_heap (spawned : List (Int × κ)) (exit : Exit κ) (s : System κ) (f : FiberId) :
    (checked spawned exit s f).heap f = { exit.fiber (s.heap f) with ctx := exit.ctx } := Function.update_self ..

/-- The steps from `swapIn` on change the fiber one after another. -/
theorem checked_eq (spawned : List (Int × κ)) (exit : Exit κ) (s : System κ) (f : FiberId) :
    checked spawned exit s f =
      { s with
        fibers := s.fibers ++ spawned.map entry ++ exit.pushed f
        activeThreadCount := decrement s.activeThreadCount
        heap := Function.update (Function.update (s.setState f .exec).heap f (exit.fiber ((s.setState f .exec).heap f))) f
          { Function.update (s.setState f .exec).heap f (exit.fiber ((s.setState f .exec).heap f)) f with
            ctx := exit.ctx } } := by
  have marked : (s.setState f .exec).heap f = { s.heap f with state := .exec } := Function.update_self ..
  have heap : (s.setState f .exec).heap = Function.update s.heap f { s.heap f with state := .exec } := rfl
  rw [Function.update_self, Function.update_idem, marked, fiber_exec, heap, Function.update_idem]
  rfl

/-- The program of the fiber after it has given up the thread. -/
def restOf (exit : Exit κ) (rest : FiberId → κ) (f : FiberId) : FiberId → κ :=
  exit.rest.elim rest (Function.update rest f)

theorem steps_checked {d : Caller κ} (task : (s.heap f).cb.isNone = false) (known : f < s.created) (busy : b ≠ .idle)
    (resting : (s.heap f).state ≠ .exec) (live : (s.heap f).ctx ≠ .finished) (program : current s rest f = k)
    (steps : Steps segment t (on t (checked (segment k).1 (segment k).2 s f) (.task b f .check) c i
      (restOf (segment k).2 rest f) (ran ++ [k])) d) :
    Steps segment t (on t s (.task b f .swapIn) c i rest ran) d := by
  have marked : (s.setState f .exec).heap f = { s.heap f with state := .exec } := Function.update_self ..
  have task : ((s.setState f .exec).heap f).cb.isNone = false := by rw [marked]; exact task
  have live : ((s.setState f .exec).heap f).ctx ≠ .finished := by rw [marked]; exact live
  have program : current (s.setState f .exec) rest f = k := by
    unfold current at program ⊢
    rw [marked]
    exact program
  have entered : f < (s.setState f .exec).created := known
  refine .on (drive_swapIn resting) (by simp) (.on drive_mark (by simp) (.on (drive_switch live) (by simp) ?_))
  refine .on (drive_run task entered busy program) (by simp) (.on drive_leave (by simp) (.on (drive_back busy) (by simp) ?_))
  rw [checked_eq] at steps
  exact steps

/-- `run` is at the head of its loop. -/
structure Top (s : System κ) (c : Option FiberId) (i : FiberId) (rest : FiberId → κ) (queue : List (Int × κ)) : Prop where
  standing : Standing s c.toList i rest queue
  kept : ∀ f, c = some f → s.heap f = Fiber.new none
  active : s.activeThreadCount = 0

/-- `run` is about to switch into a fiber; `spare` is a `cb_fiber` that it keeps meanwhile. -/
structure Turn (s : System κ) (b : Branch) (c spare : Option FiberId) (i f : FiberId) (rest : FiberId → κ)
    (queue : List (Int × κ)) (k : κ) : Prop where
  standing : Standing s (f :: spare.toList) i rest queue
  kept : ∀ g, spare = some g → s.heap g = Fiber.new none
  branch : b = .cb ∧ c = some f ∧ spare = none ∨ b = .fiber ∧ c = spare
  task : (s.heap f).cb.isNone = false
  resting : (s.heap f).state ≠ .exec
  live : (s.heap f).ctx ≠ .finished
  program : current s rest f = k
  active : s.activeThreadCount = 1

variable {spare : Option FiberId}

/-- The turn of a callback. -/
theorem Turn.callback (standing : Standing s [f] i rest queue) (made : s.heap f = Fiber.new (some k))
    (active : s.activeThreadCount = 1) : Turn s .cb (some f) none i f rest queue k := by
  refine ⟨standing, fun g none_kept => ?_, .inl ⟨rfl, rfl, rfl⟩, ?_, ?_, ?_, ?_, active⟩
  · cases none_kept
  · rw [made]; rfl
  · rw [made]; simp [Fiber.new]
  · rw [made]; simp [Fiber.new]
  · unfold current
    rw [made]
    rfl

theorem Turn.fresh (turn : Turn s b c spare i f rest queue k) : f ∉ spare.toList := by
  obtain ⟨_, distinct⟩ := List.nodup_cons.mp turn.standing.owned
  rw [List.cons_append] at distinct
  exact fun member => (List.nodup_cons.mp distinct).1 (List.mem_append_left _ member)

theorem Turn.checked (turn : Turn s b c spare i f rest queue k) (spawned : List (Int × κ)) (exit : Exit κ) :
    Standing { checked spawned exit s f with fibers := s.fibers ++ spawned.map entry } (f :: spare.toList) i
      (restOf exit rest f) (queue ++ spawned) := by
  refine Standing.spawn (s := { Caller.checked spawned exit s f with fibers := s.fibers }) ?_ _
  refine turn.standing.frame rfl (fun g out _ => ?_) le_rfl (List.Sublist.refl _) ⟨rfl, rfl⟩
  have other : g ≠ f := fun same => out (same ▸ List.mem_cons_self)
  refine ⟨Function.update_of_ne other _ _, ?_⟩
  unfold restOf
  cases exit.rest with
  | none => rfl
  | some rest' => exact Function.update_of_ne other _ _

/-- The `cb_fiber` that `run` kept during the turn. -/
theorem Turn.still (turn : Turn s b c spare i f rest queue k) (fiber : Fiber κ) :
    ∀ g, spare = some g → Function.update s.heap f fiber g = Fiber.new none := by
  intro g kept
  have other : g ≠ f := by
    rintro rfl
    exact turn.fresh (by rw [kept]; exact List.mem_cons_self)
  rw [Function.update_of_ne other]
  exact turn.kept g kept

/-- The fiber is gone: a `cb_fiber` is recycled, another one is forgotten. -/
theorem Turn.ended {spawned : List (Int × κ)} {exit : Exit κ} (turn : Turn s b c spare i f rest queue k)
    (active : (Caller.checked spawned exit s f).activeThreadCount = 0) (none_pushed : exit.pushed f = [])
    (gone : (exit.fiber (s.heap f)).state = .term ∨ (exit.fiber (s.heap f)).state = .error) :
    ∃ s' c', Steps segment t (on t (Caller.checked spawned exit s f) (.task b f .check) c i (restOf exit rest f) ran)
        (on t s' .top c' i (restOf exit rest f) ran) ∧ Top s' c' i (restOf exit rest f) (queue ++ spawned) := by
  have standing := turn.checked spawned exit
  have here : ((Caller.checked spawned exit s f).heap f).state = (exit.fiber (s.heap f)).state := by rw [checked_heap]
  have gone : ((Caller.checked spawned exit s f).heap f).state = .term ∨
      ((Caller.checked spawned exit s f).heap f).state = .error := by rwa [here]
  have other : ((Caller.checked spawned exit s f).heap f).state ≠ .ready := by
    rcases gone with gone | gone <;> simp [gone]
  have fibers : (Caller.checked spawned exit s f).fibers = s.fibers ++ spawned.map entry := by
    unfold Caller.checked
    dsimp only
    rw [none_pushed, List.append_nil]
  rcases turn.branch with ⟨rfl, rfl, rfl⟩ | ⟨rfl, rfl⟩
  · refine ⟨_, _, .on (drive_check other) (by simp) (.on (drive_ended gone) (by simp) (.on (drive_recycle gone) (by simp) .refl)), ?_, ?_, active⟩
    · refine standing.frame fibers (fun g out _ => ⟨?_, rfl⟩) le_rfl (List.Sublist.refl _) ⟨rfl, rfl⟩
      have other : g ≠ f := fun same => out (same ▸ List.mem_cons_self)
      exact Function.update_of_ne other _ _
    · rintro g ⟨⟩
      exact Function.update_self ..
  · refine ⟨_, _, .on (drive_check other) (by simp) (.on (drive_ended gone) (by simp) .refl), ?_, turn.still _, active⟩
    exact standing.frame fibers (fun _ _ _ => ⟨rfl, rfl⟩) le_rfl (List.sublist_cons_self _ _) ⟨rfl, rfl⟩

/-- The fiber stays suspended, and `run` lets go of it. -/
theorem Turn.held {spawned : List (Int × κ)} {exit : Exit κ} {queue' : List (Int × κ)} (turn : Turn s b c spare i f rest queue k)
    (active : (Caller.checked spawned exit s f).activeThreadCount = 0) (hold : (exit.fiber (s.heap f)).state = .hold)
    (standing : Standing (Caller.checked spawned exit s f) spare.toList i (restOf exit rest f) queue') :
    ∃ s' c', Steps segment t (on t (Caller.checked spawned exit s f) (.task b f .check) c i (restOf exit rest f) ran)
        (on t s' .top c' i (restOf exit rest f) ran) ∧ Top s' c' i (restOf exit rest f) queue' := by
  have here : ((Caller.checked spawned exit s f).heap f).state = .hold := by rw [checked_heap]; exact hold
  have same : (Caller.checked spawned exit s f).setState f .hold = Caller.checked spawned exit s f := by
    unfold System.setState
    rw [← here]
    exact System.setFiber_self _ _
  have steps : Steps segment t (on t (Caller.checked spawned exit s f) (.task b f .check) c i (restOf exit rest f) ran)
      (on t (Caller.checked spawned exit s f) .top (if b = .cb then none else c) i (restOf exit rest f) ran) := by
    refine .on (drive_check (by simp [here])) (by simp) (.on (drive_settle (by simp [here])) (by simp) (.on drive_hold (by simp) ?_))
    rw [same]
  refine ⟨_, _, steps, ?_⟩
  rcases turn.branch with ⟨rfl, rfl, rfl⟩ | ⟨rfl, rfl⟩
  · refine ⟨standing, fun g none_kept => ?_, active⟩
    cases none_kept
  · exact ⟨standing, turn.still _, active⟩

/-- A turn ends at the head of the loop, with what the program has scheduled and the program itself in the
queue. -/
theorem Turn.steps (turn : Turn s b c spare i f rest queue k) (segment : Segment κ) (t : ThreadId) (ran : List κ) :
    ∃ s' c' rest', Steps segment t (on t s (.task b f .swapIn) c i rest ran) (on t s' .top c' i rest' (ran ++ [k])) ∧
      Top s' c' i rest' (queue ++ (segment k).1 ++ (segment k).2.requeued) := by
  have known : f < s.created := turn.standing.known f (List.mem_cons_of_mem _ List.mem_cons_self)
  have busy : b ≠ .idle := by
    rcases turn.branch with ⟨rfl, _⟩ | ⟨rfl, _⟩
    · decide
    · decide
  suffices after : ∃ s' c', Steps segment t (on t (Caller.checked (segment k).1 (segment k).2 s f) (.task b f .check) c i
        (restOf (segment k).2 rest f) (ran ++ [k])) (on t s' .top c' i (restOf (segment k).2 rest f) (ran ++ [k])) ∧
      Top s' c' i (restOf (segment k).2 rest f) (queue ++ (segment k).1 ++ (segment k).2.requeued) by
    obtain ⟨s', c', steps, top⟩ := after
    exact ⟨s', c', _, steps_checked turn.task known busy turn.resting turn.live turn.program steps, top⟩
  generalize (segment k).1 = spawned
  generalize (segment k).2 = exit
  have standing := turn.checked spawned exit
  have active : (Caller.checked spawned exit s f).activeThreadCount = 0 := by
    unfold Caller.checked
    dsimp only
    rw [turn.active]
    exact IOManager.decrement_count (n := 0) (by decide)
  have here := checked_heap spawned exit s f
  cases exit with
  | returns =>
    rw [Exit.requeued, List.append_nil]
    exact turn.ended active rfl (.inl rfl)
  | throws =>
    rw [Exit.requeued, List.append_nil]
    exact turn.ended active rfl (.inr rfl)
  | hold =>
    rw [Exit.requeued, List.append_nil]
    refine turn.held active rfl (standing.frame (List.append_nil _) (fun _ _ _ => ⟨rfl, rfl⟩) le_rfl ?_ ⟨rfl, rfl⟩)
    exact List.sublist_cons_self _ _
  | ready rest' =>
    have goes_on : restOf (.ready rest') rest f f = rest' := Function.update_self ..
    have ready : ((Caller.checked spawned (.ready rest') s f).heap f).state = .ready := by rw [here]; rfl
    refine ⟨_, _, .on (drive_ready ready) (by simp) (.on drive_requeue (by simp) .refl), ⟨?_, ?_, active⟩⟩
    · have put := standing.enqueue (-1) (by rw [here]; simp [Exit.fiber]) (by rw [here]; rfl) (by rw [here]; exact turn.task)
      rw [goes_on] at put
      refine put.frame ?_ (fun _ _ _ => ⟨rfl, rfl⟩) le_rfl (List.nil_sublist _) ⟨rfl, rfl⟩
      unfold Caller.checked
      dsimp only
      rw [Exit.pushed, List.append_nil]
    · intro g none_kept
      cases none_kept
  | again threadId rest' =>
    have goes_on : restOf (.again threadId rest') rest f f = rest' := Function.update_self ..
    have put := standing.enqueue threadId (by rw [here]; simp [Exit.fiber]) (by rw [here]; rfl) (by rw [here]; exact turn.task)
    rw [goes_on] at put
    exact turn.held active rfl put

/-! ### Rounds -/

theorem threadId_of_stands {heap : FiberId → Fiber κ} {created : Nat} {ft : FiberAndThread κ} {e : Int × κ}
    (stands : Stands heap created rest ft e) : ft.threadId = e.1 := by
  cases stands with
  | callback => rfl
  | fiber => rfl

theorem foreign_iff {e : Int × κ} : foreign t e = true ↔ e.1 ≠ -1 ∧ e.1 ≠ t.val := by
  unfold foreign
  simp

theorem passed_of_stands {heap : FiberId → Fiber κ} {created : Nat} {fibers : List (FiberAndThread κ)}
    {queue : List (Int × κ)} (stand : List.Forall₂ (Stands heap created rest) fibers queue)
    (passed : ∀ e ∈ queue, foreign t e = true) : ∀ it ∈ fibers, it.threadId ≠ -1 ∧ it.threadId ≠ t.val := by
  induction stand with
  | nil => exact fun _ member => absurd member List.not_mem_nil
  | cons stands _ ih =>
    obtain ⟨first, later⟩ := List.forall_mem_cons.mp passed
    refine List.forall_mem_cons.mpr ⟨?_, ih later⟩
    rw [threadId_of_stands stands]
    exact foreign_iff.mp first

/-- The first program of the queue that is not for another thread runs up to its next switch. -/
theorem Top.turn {before after : List (Int × κ)} {e : Int × κ} (top : Top s c i rest (before ++ e :: after))
    (passed : ∀ e ∈ before, foreign t e = true) (here : foreign t e = false) (segment : Segment κ) (ran : List κ) :
    ∃ s' c' rest', Steps segment t (on t s .top c i rest ran) (on t s' .top c' i rest' (ran ++ [e.2])) ∧
      Top s' c' i rest' (before ++ after ++ (segment e.2).1 ++ (segment e.2).2.requeued) := by
  obtain ⟨standing, kept, active⟩ := top
  obtain ⟨pre, ft, post, split, front, stands, back⟩ : ∃ pre ft post, s.fibers = pre ++ ft :: post ∧
      List.Forall₂ (Stands s.heap s.created rest) pre before ∧ Stands s.heap s.created rest ft e ∧
      List.Forall₂ (Stands s.heap s.created rest) post after := by
    have back := List.forall₂_drop_append _ _ _ standing.queue
    obtain ⟨ft, post, stands, back, behind⟩ := List.forall₂_cons_right_iff.mp back
    refine ⟨_, ft, post, ?_, List.forall₂_take_append _ _ _ standing.queue, stands, back⟩
    rw [← behind, List.take_append_drop]
  have picked := standing.pick (increment s.activeThreadCount) split front stands back
  have one : increment s.activeThreadCount = 1 := by
    rw [active]
    rfl
  have local_ : ¬ (ft.threadId ≠ -1 ∧ ft.threadId ≠ t.val) := by
    rw [threadId_of_stands stands, ← foreign_iff, here]
    exact Bool.false_ne_true
  have passing := passed_of_stands front passed
  cases stands with
  | @callback threadId k =>
    cases c with
    | none =>
      have turn := Turn.callback (picked.create (some k)) (Function.update_self ..) one
      obtain ⟨s', c', rest', steps, top⟩ := turn.steps segment t ran
      exact ⟨s', c', rest', .on (drive_pick split passing local_ rfl rfl) (by simp) (.on drive_begin (by simp) steps), top⟩
    | some f =>
      have reset : Standing (System.setFiber { s with fibers := pre ++ post, activeThreadCount := increment s.activeThreadCount } f
          (Fiber.new (some k))) [f] i rest (before ++ after) := by
        refine picked.frame rfl (fun g out _ => ⟨?_, rfl⟩) le_rfl (List.Sublist.refl _) ⟨rfl, rfl⟩
        have other : g ≠ f := fun same => out (same ▸ List.mem_cons_self)
        exact Function.update_of_ne other _ _
      have turn := Turn.callback reset (Function.update_self ..) one
      obtain ⟨s', c', rest', steps, top⟩ := turn.steps segment t ran
      exact ⟨s', c', rest', .on (drive_pick split passing local_ rfl rfl) (by simp)
        (.on (drive_reset (kept f rfl)) (by simp) steps), top⟩
  | @fiber f threadId known resting suspended task =>
    have turn : Turn { s with fibers := pre ++ post, activeThreadCount := increment s.activeThreadCount } .fiber c c i f rest
        (before ++ after) (rest f) := by
      refine ⟨picked, kept, .inr ⟨rfl, rfl⟩, task, resting, ?_, ?_, one⟩
      · dsimp only
        rw [suspended]
        decide
      · unfold current
        dsimp only
        rw [suspended]
    obtain ⟨s', c', rest', steps, top⟩ := turn.steps segment t ran
    have idle : (some f).any (fun f => (s.heap f).state == .exec) = false := by simpa using resting
    exact ⟨s', c', rest', .on (drive_pick split passing local_ rfl idle) (by simp) (.on (drive_resume rfl) (by simp) steps), top⟩

/-! ### The end -/

/-- With an empty queue the idle fiber ends, and `run` with it. -/
theorem Top.exits (top : Top s c i rest []) (segment : Segment κ) (t : ThreadId) (ran : List κ) :
    ∃ s' c', Steps segment t (on t s .top c i rest ran) (on t s' .exited c' i rest ran) ∧ s'.fibers = [] := by
  obtain ⟨standing, kept, active⟩ := top
  have empty : s.fibers = [] := List.forall₂_nil_right_iff.mp standing.queue
  have nothing {s : System κ} (empty : s.fibers = []) : ∀ it ∈ s.fibers, it.threadId ≠ -1 ∧ it.threadId ≠ t.val := by
    rw [empty]
    exact fun _ member => absurd member List.not_mem_nil
  have resting : (s.heap i).state ≠ .term ∧ (s.heap i).state ≠ .exec := by
    rcases standing.resting with state | state <;> simp [state]
  have marked : (System.setState { s with idleThreadCount := increment s.idleThreadCount } i .exec).heap i =
      { s.heap i with state := .exec } := Function.update_self ..
  have live : ((System.setState { s with idleThreadCount := increment s.idleThreadCount } i .exec).heap i).ctx ≠ .finished := by
    rw [marked]
    exact standing.live
  have task : ((System.setState { s with idleThreadCount := increment s.idleThreadCount } i .exec).heap i).cb.isNone = false := by
    rw [marked]
    exact standing.task
  have stopping : (System.setState { s with idleThreadCount := increment s.idleThreadCount } i .exec).stopping = true := by
    change (s.autostop && s.stop && s.fibers.isEmpty && s.activeThreadCount == 0) = true
    rw [standing.flags.1, standing.flags.2, empty, active]
    rfl
  have ended {s : System κ} (empty : s.fibers = []) (gone : (s.heap i).state = .term) :
      Steps segment t (on t s (.task .idle i .settle) c i rest ran) (on t s .exited c i rest ran) :=
    .on (drive_ended (.inl gone)) (by simp) (.on (drive_none (nothing empty)) (by simp) (.on (drive_exit gone) (by simp) .refl))
  refine ⟨_, _, .on (drive_none (nothing empty)) (by simp) (.on (drive_idling resting.1) (by simp)
    (.on (drive_swapIn resting.2) (by simp) (.on drive_mark (by simp) (.on (drive_switch live) (by simp)
    (.on (drive_idle_stop task stopping) (by simp) (.on drive_leave (by simp) (.on drive_back_idle (by simp)
    (ended ?_ ?_)))))))), ?_⟩
  · exact empty
  · simp [System.setFiber]
  · exact empty

/-- The idle fiber, as `run` goes round it. -/
inductive Spinning (fiber : Fiber κ) (i : FiberId) : Pc κ → Prop where
  | top (resting : fiber.state = .init ∨ fiber.state = .hold) : Spinning fiber i .top
  | idling (resting : fiber.state = .init ∨ fiber.state = .hold) : Spinning fiber i .idling
  | swapIn (resting : fiber.state = .init ∨ fiber.state = .hold) : Spinning fiber i (.task .idle i .swapIn)
  | mark : Spinning fiber i (.task .idle i .mark)
  | switch : Spinning fiber i (.task .idle i .switch)
  | run : Spinning fiber i (.task .idle i .run)
  | leave (hold : fiber.state = .hold) : Spinning fiber i (.task .idle i (.leave .suspended))
  | back (hold : fiber.state = .hold) : Spinning fiber i (.task .idle i .back)
  | settle (hold : fiber.state = .hold) : Spinning fiber i (.task .idle i .settle)
  | hold (hold : fiber.state = .hold) : Spinning fiber i (.task .idle i .hold)

/-- Only tasks for other threads are left. -/
def Spins (t : ThreadId) (d : Caller κ) : Prop :=
  ∃ s pc c i rest ran, d = on t s pc c i rest ran ∧ s.fibers ≠ [] ∧
    (∀ it ∈ s.fibers, it.threadId ≠ -1 ∧ it.threadId ≠ t.val) ∧ (s.heap i).cb.isNone = false ∧
    (s.heap i).ctx ≠ .finished ∧ Spinning (s.heap i) i pc

theorem Spins.not_exited {d : Caller κ} (spins : Spins t d) : ¬ d.Exited t := by
  obtain ⟨s, pc, c, i, rest, ran, rfl, _, _, _, _, spinning⟩ := spins
  unfold Exited
  rw [threads_on]
  intro exited
  cases Option.some.inj exited
  cases spinning

theorem Spins.step {d : Caller κ} (spins : Spins t d) (segment : Segment κ) :
    ∃ d', Step segment t d d' ∧ Spins t d' := by
  have inside := spins.not_exited
  obtain ⟨s, pc, c, i, rest, ran, rfl, left, all, task, live, spinning⟩ := spins
  cases spinning with
  | top resting => exact ⟨_, ⟨inside, drive_none all⟩, _, _, _, _, _, _, rfl, left, all, task, live, .idling resting⟩
  | idling resting =>
    have alive : (s.heap i).state ≠ .term := by rcases resting with state | state <;> simp [state]
    exact ⟨_, ⟨inside, drive_idling alive⟩, _, _, _, _, _, _, rfl, left, all, task, live, .swapIn resting⟩
  | swapIn resting =>
    have idle : (s.heap i).state ≠ .exec := by rcases resting with state | state <;> simp [state]
    exact ⟨_, ⟨inside, drive_swapIn idle⟩, _, _, _, _, _, _, rfl, left, all, task, live, .mark⟩
  | mark =>
    have marked : (s.setState i .exec).heap i = { s.heap i with state := .exec } := Function.update_self ..
    refine ⟨_, ⟨inside, drive_mark⟩, _, _, _, _, _, _, rfl, left, all, ?_, ?_, .switch⟩
    · rw [marked]; exact task
    · rw [marked]; exact live
  | switch => exact ⟨_, ⟨inside, drive_switch live⟩, _, _, _, _, _, _, rfl, left, all, task, live, .run⟩
  | run =>
    have going : s.stopping = false := by
      unfold System.stopping
      cases found : s.fibers with
      | nil => exact absurd found left
      | cons it fibers => simp
    have yielded : (s.setFiber i { s.heap i with state := .hold }).heap i = { s.heap i with state := .hold } :=
      Function.update_self ..
    refine ⟨_, ⟨inside, drive_idle_hold task going⟩, _, _, _, _, _, _, rfl, left, all, ?_, ?_, .leave ?_⟩
    · rw [yielded]; exact task
    · rw [yielded]; exact live
    · rw [yielded]
  | leave hold =>
    have left_at : (s.setFiber i { s.heap i with ctx := .suspended }).heap i = { s.heap i with ctx := .suspended } :=
      Function.update_self ..
    refine ⟨_, ⟨inside, drive_leave⟩, _, _, _, _, _, _, rfl, left, all, ?_, ?_, .back ?_⟩
    · rw [left_at]; exact task
    · rw [left_at]; simp
    · rw [left_at]; exact hold
  | back hold => exact ⟨_, ⟨inside, drive_back_idle⟩, _, _, _, _, _, _, rfl, left, all, task, live, .settle hold⟩
  | settle hold =>
    refine ⟨_, ⟨inside, drive_settle ?_⟩, _, _, _, _, _, _, rfl, left, all, task, live, .hold hold⟩
    simp [hold]
  | hold hold =>
    have same : s.setState i .hold = s := by
      unfold System.setState
      rw [← hold]
      exact System.setFiber_self _ _
    refine ⟨_, ⟨inside, drive_hold⟩, _, _, _, _, _, _, rfl, left, all, ?_, ?_, .top (.inr ?_)⟩
    · rw [same]; exact task
    · rw [same]; exact live
    · rw [same]; exact hold

/-! ### `stop` -/

theorem Top.rounds {left : List (Int × κ)} {log : List κ} (rounds : Rounds segment t queue log left) :
    ∀ {s c rest} (ran : List κ), Top s c i rest queue → ∃ s' c' rest',
      Steps segment t (on t s .top c i rest ran) (on t s' .top c' i rest' (ran ++ log)) ∧ Top s' c' i rest' left := by
  induction rounds with
  | rest _ =>
    intro s c rest ran top
    rw [List.append_nil]
    exact ⟨s, c, rest, .refl, top⟩
  | turn passed here _ ih =>
    intro s c rest ran top
    obtain ⟨s', c', rest', steps, top⟩ := top.turn passed here segment ran
    obtain ⟨s'', c'', rest'', more, top⟩ := ih (ran ++ [_]) top
    rw [List.append_assoc] at more
    exact ⟨s'', c'', rest'', steps.trans more, top⟩

theorem entered_eq (t : ThreadId) (idle : κ) (tasks : List (Int × κ)) :
    ∃ s, entered t idle tasks = .ok (on t s .top none 0 (fun _ => idle) []) ∧ Top s none 0 (fun _ => idle) tasks := by
  refine ⟨System.create { System.new with fibers := tasks.map entry, autostop := true, stop := true } (some idle), ?_, ?_⟩
  · unfold entered
    dsimp only
    rw [foldlM_spawn]
    rfl
  · have callbacks : List.Forall₂ (Stands (κ := κ) (Function.update (fun _ => Fiber.new none) 0 (Fiber.new (some idle))) 1
        fun _ => idle) (tasks.map entry) tasks := by
      refine List.forall₂_map_left_iff.mpr (List.forall₂_same.mpr ?_)
      rintro ⟨threadId, k⟩ _
      exact .callback
    have alone : (0 :: ([] ++ queued (tasks.map entry))).Nodup := by
      rw [queued_entries]
      decide
    refine ⟨⟨callbacks, alone, ?_, .inl rfl, Fiber.Context.noConfusion, rfl, rfl, rfl⟩, ?_, rfl⟩
    · intro g member
      rcases List.mem_cons.mp member with rfl | none_more
      · exact Nat.zero_lt_one
      · cases none_more
    · intro f none_kept
      cases none_kept

/-- Programs that come to an end: what one schedules and what it goes on with weighs less than it does. -/
def Finite (segment : Segment κ) (weight : κ → Nat) : Prop :=
  ∀ k, (((segment k).1 ++ (segment k).2.requeued).map (weight ·.2)).sum < weight k

theorem first_here (t : ThreadId) (queue : List (Int × κ)) :
    (∀ e ∈ queue, foreign t e = true) ∨ ∃ before e after, queue = before ++ e :: after ∧
      (∀ e ∈ before, foreign t e = true) ∧ foreign t e = false := by
  induction queue with
  | nil => exact .inl fun _ member => absurd member List.not_mem_nil
  | cons e queue ih =>
    cases here : foreign t e with
    | false => exact .inr ⟨[], e, queue, rfl, fun _ member => absurd member List.not_mem_nil, here⟩
    | true =>
      rcases ih with all | ⟨before, e', after, rfl, passed, first⟩
      · exact .inl (List.forall_mem_cons.mpr ⟨here, all⟩)
      · exact .inr ⟨e :: before, e', after, rfl, List.forall_mem_cons.mpr ⟨here, passed⟩, first⟩

theorem Finite.rounds {weight : κ → Nat} (finite : Finite segment weight) (t : ThreadId) (queue : List (Int × κ)) :
    ∃ log left, Rounds segment t queue log left := by
  induction total : (queue.map (weight ·.2)).sum using Nat.strong_induction_on generalizing queue with
  | _ n ih =>
    rcases first_here t queue with all | ⟨before, e, after, rfl, passed, here⟩
    · exact ⟨[], queue, .rest all⟩
    · have lighter : ((before ++ after ++ (segment e.2).1 ++ (segment e.2).2.requeued).map (weight ·.2)).sum < n := by
        have less := finite e.2
        simp only [List.map_append, List.sum_append, List.map_cons, List.sum_cons] at total less ⊢
        omega
      obtain ⟨log, left, rounds⟩ := ih _ lighter _ rfl
      exact ⟨e.2 :: log, left, .turn passed here rounds⟩

theorem Rounds.foreign_left {log : List κ} {left : List (Int × κ)} (rounds : Rounds segment t queue log left) :
    ∀ e ∈ left, foreign t e = true := by
  induction rounds with
  | rest none_here => exact none_here
  | turn _ _ _ ih => exact ih

theorem step_unique (segment : Segment κ) (t : ThreadId) : Relator.RightUnique (Step segment t) := by
  rintro d d' d'' ⟨_, first⟩ ⟨_, second⟩
  exact Except.ok.inj (first.symm.trans second)

/-- Every way that `stop` goes leads to `e`, where it is back from `run`. -/
structure Returns (segment : Segment κ) (t : ThreadId) (d e : Caller κ) : Prop where
  exited : e.Exited t
  empty : e.sys.fibers = []
  reached : ∀ d', Steps segment t d d' → Steps segment t d' e

def Hangs (segment : Segment κ) (t : ThreadId) (d : Caller κ) : Prop :=
  ∀ d', Steps segment t d d' → ∃ e, Step segment t d' e

/-- `stop` lets the programs take turns until none is left for its thread. It comes back when none is left
at all, and goes round for ever when one is left that was scheduled for another thread. -/
theorem stop_runs_all {weight : κ → Nat} (finite : Finite segment weight) (t : ThreadId) (idle : κ) (tasks : List (Int × κ)) :
    ∃ d, entered t idle tasks = .ok d ∧ (∃ log left, Rounds segment t tasks log left) ∧
      ∀ log left, Rounds segment t tasks log left →
        (left = [] → ∃ e, Returns segment t d e ∧ e.ran = log) ∧ (left ≠ [] → Hangs segment t d) := by
  obtain ⟨s, started, top⟩ := entered_eq t idle tasks
  refine ⟨_, started, finite.rounds t tasks, fun log left rounds => ?_⟩
  obtain ⟨s', c', rest', steps, top⟩ := Top.rounds rounds [] top
  rw [List.nil_append] at steps
  constructor
  · rintro rfl
    obtain ⟨s'', c'', more, empty⟩ := top.exits segment t log
    have exited : (on t s'' .exited c'' 0 rest' log).Exited t := by
      unfold Exited
      rw [threads_on]
      rfl
    refine ⟨_, ⟨exited, empty, fun d' reached => ?_⟩, rfl⟩
    exact reachable_final (step_unique segment t) (steps.trans more) (fun e step => step.1 exited) reached
  · intro some_left d' reached
    have spins : Spins t (on t s' .top c' 0 rest' log) := by
      refine ⟨_, _, _, _, _, _, rfl, ?_, passed_of_stands top.standing.queue rounds.foreign_left, top.standing.task, top.standing.live,
        .top top.standing.resting⟩
      intro empty
      have queue := top.standing.queue
      rw [empty] at queue
      exact some_left (List.forall₂_nil_left_iff.mp queue)
    exact reachable_goes_on (step_unique segment t) steps spins (fun d spins => spins.step segment) reached

/-- A program that schedules another one and yields, a number of times. -/
def countdown : Segment Nat
  | 0 => ([], .returns)
  | n + 1 => ([(-1, 0)], .ready n)

theorem countdown_finite : Finite countdown (2 * · + 1) := by
  intro n
  cases n with
  | zero => decide
  | succ n =>
    simp only [countdown, Exit.requeued, List.cons_append, List.nil_append, List.map_cons, List.map_nil, List.sum_cons,
      List.sum_nil]
    omega

theorem stop_runs_all_countdown :
    Finite countdown (2 * · + 1) ∧ ∃ d, entered 0 7 [(-1, 2), (3, 1)] = .ok d ∧
      (∃ log left, Rounds countdown 0 [(-1, 2), (3, 1)] log left) ∧
      ∀ log left, Rounds countdown 0 [(-1, 2), (3, 1)] log left →
        (left = [] → ∃ e, Returns countdown 0 d e ∧ e.ran = log) ∧ (left ≠ [] → Hangs countdown 0 d) :=
  ⟨countdown_finite, stop_runs_all countdown_finite 0 7 [(-1, 2), (3, 1)]⟩

end Cool.Scheduler.Caller
