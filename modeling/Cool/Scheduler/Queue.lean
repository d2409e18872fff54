import Cool.Foundation.Run
import Cool.Scheduler.Basic

/-!
# No task is lost and none is handed out twice

Any number of threads schedule tasks and pick them, each under `m_mutex`. The entries of `m_fibers`
are numbered in the order in which they were pushed. The states of the fibers are whatever the rest
of the program makes them.
-/

namespace Cool.Scheduler

open Foundation

variable {κ : Type}

/-- `cells` are the objects that callers of `schedule` pass by pointer, `fibers` is `m_fibers` with
the numbers, `pushed` has every entry made so far and `handed` the numbers picked, with the thread. -/
structure Tasks (κ : Type) where
  cells : Nat → FiberOrCb κ
  state : FiberId → Fiber.State
  fibers : List (FiberAndThread κ × Nat)
  pushed : List (FiberAndThread κ)
  handed : List (Nat × ThreadId)

namespace Tasks

def new (cells : Nat → FiberOrCb κ) (state : FiberId → Fiber.State) : Tasks κ := ⟨cells, state, [], [], []⟩

def queue (s : Tasks κ) : List (FiberAndThread κ) := s.fibers.map Prod.fst

/-- Number what stands behind the entries there were. -/
def push (s : Tasks κ) (fibers : List (FiberAndThread κ)) : Tasks κ :=
  let added := fibers.drop s.fibers.length
  { s with fibers := s.fibers ++ added.zipIdx s.pushed.length, pushed := s.pushed ++ added }

inductive Action (κ : Type) where
  | schedule (fc : FiberOrCb κ) (threadId : Int)
  | swap (cell : Nat) (threadId : Int)
  | range (first last : Nat)
  | pick (t : ThreadId)
  /-- A caller stores a task in one of its objects. -/
  | assign (cell : Nat) (fc : FiberOrCb κ)
  /-- A fiber changes its state. -/
  | become (f : FiberId) (state : Fiber.State)

/-- The objects from `begin` to `end`. -/
def cellRange (s : Tasks κ) (first last : Nat) : List (FiberOrCb κ) :=
  (List.range' first (last - first)).map s.cells

def step (s : Tasks κ) : Action κ → Except Fault (Tasks κ)
  | .schedule fc threadId => .ok (s.push (scheduleNoLock s.queue fc threadId).2)
  | .swap cell threadId =>
    .ok { s.push (scheduleNoLock s.queue (s.cells cell) threadId).2 with
      cells := Function.update s.cells cell (s.cells cell).swapped }
  | .range first last =>
    .ok { s.push (scheduleRange false s.queue (s.cellRange first last)).2 with
      cells := fun cell => if first ≤ cell ∧ cell < last then (s.cells cell).swapped else s.cells cell }
  | .pick t =>
    match locate s.state t s.queue with
    | .error fault => .error fault
    | .ok (_, none) => .ok s
    | .ok (_, some i) =>
      .ok { s with
        fibers := s.fibers.eraseIdx i
        handed := s.handed ++ (s.fibers[i]?).toList.map fun entry => (entry.2, t) }
  | .assign cell fc => .ok { s with cells := Function.update s.cells cell fc }
  | .become f state => .ok { s with state := Function.update s.state f state }

/-- The entries a call builds, empty ones included. -/
def offered (s : Tasks κ) : Action κ → List (FiberAndThread κ)
  | .schedule fc threadId => [fc.andThread threadId]
  | .swap cell threadId => [(s.cells cell).andThread threadId]
  | .range first last => (s.cellRange first last).map (·.andThread (-1))
  | _ => []

end Tasks

namespace Tasks

variable {s s' : Tasks κ} {a : Action κ} {t : ThreadId}

theorem push_eq (s : Tasks κ) (added : List (FiberAndThread κ)) :
    s.push (s.queue ++ added) =
      { s with fibers := s.fibers ++ added.zipIdx s.pushed.length, pushed := s.pushed ++ added } := by
  have rest : (s.queue ++ added).drop s.fibers.length = added :=
    List.drop_left' (by rw [queue, List.length_map])
  rw [push, rest]

/-- Every call adds the non-empty ones of its tasks, in their order, behind what there was. -/
theorem step_pushes (ok : step s a = .ok s') (calls : ∀ t, a ≠ .pick t) :
    s'.pushed = s.pushed ++ (s.offered a).filter FiberAndThread.hasTask ∧
    s'.fibers = s.fibers ++ ((s.offered a).filter FiberAndThread.hasTask).zipIdx s.pushed.length ∧
    s'.handed = s.handed := by
  cases a with
  | schedule fc threadId =>
    cases ok
    rw [scheduleNoLock_eq, push_eq]
    exact ⟨rfl, rfl, rfl⟩
  | swap cell threadId =>
    cases ok
    rw [scheduleNoLock_eq, push_eq]
    exact ⟨rfl, rfl, rfl⟩
  | range first last =>
    cases ok
    rw [scheduleRange_eq, push_eq]
    exact ⟨rfl, rfl, rfl⟩
  | pick t => exact absurd rfl (calls t)
  | assign cell fc => cases ok; simp [offered]
  | become f state => cases ok; simp [offered]

/-! ### The invariant -/

/-- What is queued is what was pushed, in that order, less what was handed out. -/
structure Conserved (s : Tasks κ) : Prop where
  ordered : s.fibers.Sublist s.pushed.zipIdx
  tasks : ∀ ft ∈ s.pushed, ft.hasTask = true
  balance : (s.fibers.map Prod.snd ++ s.handed.map Prod.fst).Perm (List.range s.pushed.length)
  own : ∀ n t, (n, t) ∈ s.handed → ∃ ft, s.pushed[n]? = some ft ∧ (ft.threadId = -1 ∨ ft.threadId = t.val)

theorem new_conserved (cells : Nat → FiberOrCb κ) (state : FiberId → Fiber.State) :
    Conserved (new cells state) where
  ordered := List.Sublist.refl []
  tasks := by simp [new]
  balance := List.Perm.refl []
  own := by simp [new]

theorem Conserved.mem (conserved : Conserved s) {ft : FiberAndThread κ} {n : Nat} (queued : (ft, n) ∈ s.fibers) :
    s.pushed[n]? = some ft :=
  List.mem_zipIdx_iff_getElem?.mp (conserved.ordered.subset queued)

theorem Conserved.queue_tasks (conserved : Conserved s) : ∀ it ∈ s.queue, it.hasTask = true := by
  intro it member
  obtain ⟨⟨ft, n⟩, queued, rfl⟩ := List.mem_map.mp member
  exact conserved.tasks ft (List.mem_of_getElem? (conserved.mem queued))

theorem Conserved.push (conserved : Conserved s) {added : List (FiberAndThread κ)}
    (tasks : ∀ ft ∈ added, ft.hasTask = true)
    (pushed : s'.pushed = s.pushed ++ added)
    (fibers : s'.fibers = s.fibers ++ added.zipIdx s.pushed.length) (handed : s'.handed = s.handed) :
    Conserved s' where
  ordered := by
    rw [fibers, pushed, List.zipIdx_append, Nat.zero_add]
    exact conserved.ordered.append (List.Sublist.refl _)
  tasks := by
    intro ft member
    rw [pushed, List.mem_append] at member
    exact member.elim (conserved.tasks ft) (tasks ft)
  balance := by
    rw [fibers, handed, pushed, List.map_append, List.zipIdx_map_snd, List.length_append,
      List.range_add, ← List.range'_eq_map_range, List.append_assoc]
    exact (List.Perm.append_left _ List.perm_append_comm).trans
      ((List.append_assoc _ _ _).symm ▸ conserved.balance.append_right _)
  own := by
    intro n t member
    rw [handed] at member
    obtain ⟨ft, found, own⟩ := conserved.own n t member
    exact ⟨ft, by rw [pushed, List.getElem?_append_left (List.getElem?_eq_some_iff.mp found).1, found], own⟩

/-- A pick leaves everything as it is, or takes the eligible task with the smallest number. -/
theorem Conserved.picks (conserved : Conserved s) (ok : step s (.pick t) = .ok s') :
    (s' = s ∧ ∀ ft n, (ft, n) ∈ s.fibers → ¬ Eligible s.state t ft) ∨
    ∃ i ft n, s.fibers[i]? = some (ft, n) ∧ Eligible s.state t ft ∧
      s' = { s with fibers := s.fibers.eraseIdx i, handed := s.handed ++ [(n, t)] } ∧
      ∀ ft' m, (ft', m) ∈ s.fibers → Eligible s.state t ft' → n ≤ m := by
  have increasing : s.fibers.Pairwise (fun x y => x.2 < y.2) := by
    refine List.Pairwise.sublist conserved.ordered (List.pairwise_map.mp ?_)
    rw [List.zipIdx_map_snd]
    exact List.pairwise_lt_range' ..
  unfold step at ok
  dsimp only at ok
  split at ok
  · cases ok
  · rename_i tickleMe found
    cases ok
    exact .inl ⟨rfl, fun ft n queued => locate_stops found ft (List.mem_map_of_mem queued)⟩
  · rename_i tickleMe i found
    obtain ⟨it, at_i, -, eligible, first⟩ := locate_stops found
    rw [queue, List.getElem?_map, Option.map_eq_some_iff] at at_i
    obtain ⟨⟨ft, n⟩, at_i, rfl⟩ := at_i
    rw [at_i] at ok
    cases ok
    refine .inr ⟨i, ft, n, at_i, eligible, rfl, fun ft' m queued eligible' => ?_⟩
    obtain ⟨j, at_j⟩ := List.mem_iff_getElem?.mp queued
    have later : i ≤ j := by
      by_contra before
      refine first j (Nat.lt_of_not_le before) ft' ?_ eligible'
      rw [queue, List.getElem?_map, at_j]
      rfl
    rcases Nat.eq_or_lt_of_le later with rfl | before
    · cases at_i.symm.trans at_j
      exact Nat.le_refl n
    · obtain ⟨bound_i, here⟩ := List.getElem?_eq_some_iff.mp at_i
      obtain ⟨bound_j, there⟩ := List.getElem?_eq_some_iff.mp at_j
      have order := List.pairwise_iff_getElem.mp increasing i j bound_i bound_j before
      rw [here, there] at order
      exact Nat.le_of_lt order

theorem Conserved.take (conserved : Conserved s) {i n : Nat} {ft : FiberAndThread κ}
    (at_i : s.fibers[i]? = some (ft, n)) (eligible : Eligible s.state t ft) :
    Conserved { s with fibers := s.fibers.eraseIdx i, handed := s.handed ++ [(n, t)] } where
  ordered := (List.eraseIdx_sublist _ _).trans conserved.ordered
  tasks := conserved.tasks
  balance := by
    obtain ⟨bound, here⟩ := List.getElem?_eq_some_iff.mp at_i
    have taken : (n :: (s.fibers.eraseIdx i).map Prod.snd).Perm (s.fibers.map Prod.snd) := by
      have perm := (List.getElem_cons_eraseIdx_perm bound).map Prod.snd
      rwa [here] at perm
    refine List.Perm.trans ?_ ((taken.append_right _).trans conserved.balance)
    rw [List.map_append, ← List.append_assoc]
    exact List.perm_append_singleton n _
  own := by
    intro m u member
    rcases List.mem_append.mp member with old | new
    · exact conserved.own m u old
    · cases List.mem_singleton.mp new
      exact ⟨ft, conserved.mem (List.mem_of_getElem? at_i), eligible.1⟩

theorem Conserved.step (conserved : Conserved s) (ok : s.step a = .ok s') : Conserved s' := by
  by_cases picks : ∃ t, a = .pick t
  · obtain ⟨t, rfl⟩ := picks
    rcases conserved.picks ok with ⟨rfl, -⟩ | ⟨i, ft, n, at_i, eligible, rfl, -⟩
    · exact conserved
    · exact conserved.take at_i eligible
  · obtain ⟨pushed, fibers, handed⟩ := step_pushes ok fun t same => picks ⟨t, same⟩
    exact conserved.push (fun ft member => (List.mem_filter.mp member).2) pushed fibers handed

/-- Every non-empty task given to `schedule` is in exactly one place: handed to one thread, or still
in `m_fibers`. A task bound to a thread is picked by no other, the assertion of the search cannot
fail, and a pick takes the earliest of the tasks that the thread may take. -/
theorem tasks_conserved {cells : Nat → FiberOrCb κ} {state : FiberId → Fiber.State} {actions : List (Action κ)}
    (run : Run (fun s a s' => step s a = .ok s') (new cells state) actions s) :
    (s.fibers.map Prod.snd ++ s.handed.map Prod.fst).Perm (List.range s.pushed.length) ∧
    (∀ ft n, (ft, n) ∈ s.fibers → s.pushed[n]? = some ft) ∧
    (∀ n t, (n, t) ∈ s.handed → ∃ ft, s.pushed[n]? = some ft ∧ (ft.threadId = -1 ∨ ft.threadId = t.val)) ∧
    (∀ a s', step s a = .ok s' →
      s'.pushed = s.pushed ++ (s.offered a).filter FiberAndThread.hasTask) ∧
    ∀ t, ∃ s', step s (.pick t) = .ok s' ∧
      ((s' = s ∧ ∀ ft n, (ft, n) ∈ s.fibers → ¬ Eligible s.state t ft) ∨
        ∃ i ft n, s.fibers[i]? = some (ft, n) ∧ Eligible s.state t ft ∧
          s' = { s with fibers := s.fibers.eraseIdx i, handed := s.handed ++ [(n, t)] } ∧
          ∀ ft' m, (ft', m) ∈ s.fibers → Eligible s.state t ft' → n ≤ m) := by
  have conserved : Conserved s :=
    run.invariant (fun _ _ _ conserved ok => conserved.step ok) (new_conserved cells state)
  refine ⟨conserved.balance, fun ft n => conserved.mem, conserved.own, fun a s' ok => ?_, fun t => ?_⟩
  · by_cases picks : ∃ t, a = .pick t
    · obtain ⟨t, rfl⟩ := picks
      rcases conserved.picks ok with ⟨rfl, -⟩ | ⟨i, ft, n, at_i, eligible, rfl, -⟩
      · simp [offered]
      · simp [offered]
    · exact (step_pushes ok fun t same => picks ⟨t, same⟩).1
  · have located : ∃ found, locate s.state t s.queue = .ok found := locate_ok conserved.queue_tasks
    obtain ⟨⟨tickleMe, i⟩, found⟩ := located
    obtain ⟨s', ok⟩ : ∃ s', step s (.pick t) = .ok s' := by
      unfold step
      cases i <;> simp [found]
    exact ⟨s', ok, conserved.picks ok⟩

/-- Thread 0 passes over a task bound to thread 1 and takes the later one. -/
theorem tasks_conserved_bound :
    ∃ s : Tasks Nat, Run (fun s a s' => step s a = .ok s') (new (fun _ => .cb none) fun _ => .init)
        ([] ++ [.schedule (.cb (some 7)) 1] ++ [.schedule (.cb (some 8)) (-1)] ++ [.pick 0]) s ∧
      s.handed = [(1, 0)] ∧ (s.fibers.map Prod.snd ++ s.handed.map Prod.fst).Perm (List.range 2) := by
  have run : Run (fun s a s' => step s a = .ok s') (new (fun _ => .cb none) fun _ => .init)
      ([] ++ [.schedule (.cb (some 7)) 1] ++ [.schedule (.cb (some 8)) (-1)] ++ [.pick 0]) _ :=
    ((Run.nil.snoc rfl).snoc rfl).snoc rfl
  exact ⟨_, run, rfl, (tasks_conserved run).1⟩

end Tasks

end Cool.Scheduler
