import Cool.FdManager.Basic
import Cool.Foundation.Run

/-!
# Calls of `get` that create

Threads that call `get(fd, true)` for one descriptor. A call that finds the slot empty leaves the read
lock before it takes the write lock, and does not look again: between the two halves other threads move.
All calls return one context as long as no thread that has looked before the first creation creates after it.
-/

namespace Cool

open Foundation

namespace FdManager

/-- Where a thread is: `missed` is between the two locks of `get`. -/
inductive Pc where
  | outside
  | missed
  deriving DecidableEq, Repr

/-- `returned` are the contexts that calls have returned, the latest last. -/
structure Getters (ι κ : Type) where
  world : World κ
  pc : ι → Pc
  returned : List FdCtx.Ref

inductive GetStep (ι : Type) where
  /-- The next half of a call of `get(fd, true)`. -/
  | get (thread : ι)
  | setTimeout (ref : FdCtx.Ref) (type : Timeo) (v : UInt64)
  | setUserNonBlock (ref : FdCtx.Ref) (v : Bool)
  deriving DecidableEq, Repr

def GetStep.thread? {ι : Type} : GetStep ι → Option ι
  | .get thread => some thread
  | _ => none

/-- The threads of the halves of `get`, in their order. -/
def halves {ι : Type} (as : List (GetStep ι)) : List ι := as.filterMap GetStep.thread?

/-- Of the threads that look before the first creation only the one that makes it comes back. The first
creation is where a thread comes back at all: until then every look-up misses. -/
def OneCreates {ι : Type} (threads : List ι) : Prop :=
  ∀ before p after, threads = before ++ p :: after → before.Nodup → p ∈ before → ∀ q ∈ before, q ∈ after → q = p

namespace Getters

variable {ι κ : Type}

def start (w : World κ) : Getters ι κ := ⟨w, fun _ => .outside, []⟩

def alter (s : Getters ι κ) (ref : FdCtx.Ref) (change : FdCtx → FdCtx) : Getters ι κ :=
  { s with world := { s.world with fds := s.world.fds.alter ref change } }

theorem length_alter (s : Getters ι κ) (ref : FdCtx.Ref) (change : FdCtx → FdCtx) :
    (s.alter ref change).world.fds.contexts.length = s.world.fds.contexts.length :=
  List.length_modify ..

def next [DecidableEq ι] (S : System κ) (fd : Int) (s : Getters ι κ) : GetStep ι → Except FdFault (Getters ι κ)
  | .get thread =>
    match s.pc thread with
    | .outside =>
      match s.world.fds.find fd true with
      | .error fault => .error fault
      | .ok none => .ok { s with pc := Function.update s.pc thread .missed }
      | .ok (some found) => .ok { s with returned := s.returned ++ found.toList }
    | .missed =>
      match create S fd s.world with
      | .error fault => .error fault
      | .ok (ref, world) => .ok
        { world := world, pc := Function.update s.pc thread .outside, returned := s.returned ++ [ref] }
  | .setTimeout ref type v => .ok (s.alter ref (FdCtx.setTimeout type v))
  | .setUserNonBlock ref v => .ok (s.alter ref (FdCtx.setUserNonBlock v))

/-- What a step can do when the descriptor has a slot. -/
inductive Moved [DecidableEq ι] (S : System κ) (fd : Int) (place : Fin 64) (s : Getters ι κ) :
    Option ι → Getters ι κ → Prop where
  | hit (thread : ι) (outside : s.pc thread = .outside) (ref : FdCtx.Ref) (there : s.world.fds.datas place = some ref) :
      Moved S fd place s (some thread) { s with returned := s.returned ++ [ref] }
  | miss (thread : ι) (outside : s.pc thread = .outside) (free : s.world.fds.datas place = none) :
      Moved S fd place s (some thread) { s with pc := Function.update s.pc thread .missed }
  | create (thread : ι) (missed : s.pc thread = .missed) :
      Moved S fd place s (some thread)
        { world := ⟨(FdCtx.new S fd s.world.sys).2, s.world.fds.install place (FdCtx.new S fd s.world.sys).1⟩
          pc := Function.update s.pc thread .outside
          returned := s.returned ++ [s.world.fds.contexts.length] }
  | alter (ref : FdCtx.Ref) (change : FdCtx → FdCtx) : Moved S fd place s none (s.alter ref change)

variable {S : System κ} {fd : Int} {place : Fin 64} {s t : Getters ι κ} {a : GetStep ι} {thread : Option ι}

theorem next_moves [DecidableEq ι] (found : slot fd = .ok place) (s : Getters ι κ) (a : GetStep ι) :
    ∃ t, s.next S fd a = .ok t ∧ Moved S fd place s a.thread? t := by
  cases a with
  | get thread =>
    cases here : s.pc thread with
    | outside =>
      cases there : s.world.fds.datas place with
      | none =>
        refine ⟨_, ?_, .miss thread here there⟩
        simp only [next, here, find_create found, there, Option.map_none]
      | some ref =>
        refine ⟨_, ?_, .hit thread here ref there⟩
        simp only [next, here, find_create found, there, Option.map_some, Option.toList_some]
    | missed =>
      refine ⟨_, ?_, .create thread here⟩
      simp only [next, here, create_of_slot S found]
  | setTimeout ref type v => exact ⟨_, rfl, .alter ref _⟩
  | setUserNonBlock ref v => exact ⟨_, rfl, .alter ref _⟩

theorem moved_of_next [DecidableEq ι] (found : slot fd = .ok place) (done : s.next S fd a = .ok t) :
    Moved S fd place s a.thread? t := by
  obtain ⟨u, same, moved⟩ := next_moves (S := S) found s a
  rw [done] at same
  cases same
  exact moved

/-- `base` is the number of contexts at the start, so the calls have made the ones from `base` on. As
long as there is at most one, every call has returned the one in the slot; from the second on two calls
have returned different ones. -/
structure Agree (place : Fin 64) (base : Nat) (s : Getters ι κ) : Prop where
  grown : base ≤ s.world.fds.contexts.length
  known : ∀ ref ∈ s.returned, ref < s.world.fds.contexts.length
  free : s.world.fds.contexts.length = base → ∀ thread, s.pc thread = .missed → s.world.fds.datas place = none
  same : s.world.fds.contexts.length ≤ base + 1 → ∀ ref ∈ s.returned, s.world.fds.datas place = some ref
  made : base < s.world.fds.contexts.length → ∃ ref, ref ∈ s.returned
  differ : base + 1 < s.world.fds.contexts.length → ∃ ref ∈ s.returned, ∃ ref' ∈ s.returned, ref ≠ ref'

theorem agree_start (place : Fin 64) (w : World κ) :
    Agree place w.fds.contexts.length (start w : Getters ι κ) where
  grown := Nat.le_refl _
  known := by simp [start]
  free := by simp [start]
  same := by simp [start]
  made := by simp [start]
  differ := by simp [start]

theorem Agree.hit {base : Nat} (h : Agree place base s) {ref : FdCtx.Ref}
    (there : s.world.fds.datas place = some ref) :
    Agree place base { s with returned := s.returned ++ [ref] } where
  grown := h.grown
  known := by
    intro other member
    rcases List.mem_append.mp member with before | last
    · exact h.known other before
    · rw [List.mem_singleton.mp last]
      exact s.world.fds.held place ref there
  free := h.free
  same := by
    intro few other member
    rcases List.mem_append.mp member with before | last
    · exact h.same few other before
    · rw [List.mem_singleton.mp last]
      exact there
  made _ := ⟨ref, List.mem_append_right _ (List.mem_singleton_self ref)⟩
  differ many := by
    obtain ⟨one, first, two, second, apart⟩ := h.differ many
    exact ⟨one, List.mem_append_left _ first, two, List.mem_append_left _ second, apart⟩

/-- The second half of a call. The slot was empty when nothing had been created, so then no call has
returned yet; otherwise some call has returned an older context. -/
theorem Agree.create [DecidableEq ι] {base : Nat} (h : Agree place base s) {thread : ι} (missed : s.pc thread = .missed)
    (sys : κ) (ctx : FdCtx) :
    Agree place base
      { world := ⟨sys, s.world.fds.install place ctx⟩
        pc := Function.update s.pc thread .outside
        returned := s.returned ++ [s.world.fds.contexts.length] } := by
  have length := length_install s.world.fds place ctx
  have last : s.world.fds.contexts.length ∈ s.returned ++ [s.world.fds.contexts.length] :=
    List.mem_append_right _ (List.mem_singleton_self _)
  have grown := h.grown
  refine ⟨?_, ?_, ?_, ?_, fun _ => ⟨_, last⟩, ?_⟩
  · show base ≤ (s.world.fds.install place ctx).contexts.length
    omega
  · intro ref member
    show ref < (s.world.fds.install place ctx).contexts.length
    rw [length]
    rcases List.mem_append.mp member with before | now
    · exact Nat.lt_succ_of_lt (h.known ref before)
    · rw [List.mem_singleton.mp now]
      exact Nat.lt_succ_self _
  · intro none
    have none : (s.world.fds.install place ctx).contexts.length = base := none
    omega
  · intro few ref member
    have few : (s.world.fds.install place ctx).contexts.length ≤ base + 1 := few
    have untouched : s.world.fds.contexts.length = base := by omega
    have empty := h.free untouched thread missed
    rcases List.mem_append.mp member with before | now
    · have there := h.same (by omega) ref before
      rw [empty] at there
      cases there
    · rw [List.mem_singleton.mp now]
      exact install_self s.world.fds place ctx
  · intro many
    have many : base + 1 < (s.world.fds.install place ctx).contexts.length := many
    obtain ⟨ref, older⟩ := h.made (by omega)
    refine ⟨ref, List.mem_append_left _ older, _, last, ?_⟩
    exact Nat.ne_of_lt (h.known ref older)

theorem Agree.alter {base : Nat} (h : Agree place base s) (ref : FdCtx.Ref) (change : FdCtx → FdCtx) :
    Agree place base (s.alter ref change) := by
  have length := s.length_alter ref change
  refine ⟨?_, ?_, ?_, ?_, ?_, ?_⟩
  all_goals rw [length]
  · exact h.grown
  · exact h.known
  · exact h.free
  · exact h.same
  · exact h.made
  · exact h.differ

theorem Agree.moved [DecidableEq ι] {base : Nat} (h : Agree place base s) (moved : Moved S fd place s thread t) :
    Agree place base t := by
  cases moved with
  | hit thread outside ref there => exact h.hit there
  | miss thread outside free => exact ⟨h.grown, h.known, fun _ _ _ => free, h.same, h.made, h.differ⟩
  | create thread missed => exact h.create missed _ _
  | alter ref change => exact h.alter ref change

theorem agree_of_run [DecidableEq ι] {as : List (GetStep ι)} {w : World κ} (found : slot fd = .ok place)
    (run : Run (fun s a t => next S fd s a = .ok t) (start w) as t) : Agree place w.fds.contexts.length t :=
  run.invariant (fun _ _ _ agree done => agree.moved (moved_of_next found done)) (agree_start place w)

/-! ### The order of the halves -/

/-- What the halves so far say of the state: the slot was held from the start, no thread has come back yet,
or `p` was the first one that did. -/
inductive Told (place : Fin 64) (m : FdManager) : List ι → Getters ι κ → Prop where
  | settled {l : List ι} {s : Getters ι κ} (held : m.datas place ≠ none) (there : s.world.fds.datas place ≠ none)
      (outside : ∀ q, s.pc q = .outside) (count : s.world.fds.contexts.length = m.contexts.length) : Told place m l s
  | looking {l : List ι} {s : Getters ι κ} (free : m.datas place = none) (nodup : l.Nodup)
      (empty : s.world.fds.datas place = none) (missed : ∀ q, s.pc q = .missed ↔ q ∈ l)
      (count : s.world.fds.contexts.length = m.contexts.length) : Told place m l s
  | created {before after : List ι} {p : ι} {s : Getters ι κ} (free : m.datas place = none) (nodup : before.Nodup)
      (back : p ∈ before) (there : s.world.fds.datas place ≠ none)
      (missed : ∀ q, s.pc q = .missed ↔ q ∈ before ∧ q ≠ p ∧ q ∉ after)
      (more : m.contexts.length < s.world.fds.contexts.length)
      (count : s.world.fds.contexts.length ≤ m.contexts.length + 1 ↔ ∀ q ∈ before, q ∈ after → q = p) :
      Told place m (before ++ p :: after) s

/-- The place where a thread first comes back is the only one. -/
theorem oneCreates_iff {before after : List ι} {p : ι} (nodup : before.Nodup) (back : p ∈ before) :
    OneCreates (before ++ p :: after) ↔ ∀ q ∈ before, q ∈ after → q = p := by
  constructor
  · intro one
    exact one before p after rfl nodup back
  · intro only before' p' after' same nodup' back'
    obtain ⟨more, rfl, rest⟩ | ⟨more, rfl, rest⟩ := List.append_eq_append_iff.mp same
    · cases more with
      | nil =>
        obtain ⟨rfl, rfl⟩ := List.cons.inj rest
        rwa [List.append_nil]
      | cons first more =>
        obtain ⟨rfl, rfl⟩ := List.cons.inj rest
        exact absurd (List.disjoint_of_nodup_append nodup' back List.mem_cons_self) id
    · cases more with
      | nil =>
        obtain ⟨rfl, rfl⟩ := List.cons.inj rest
        rwa [List.append_nil] at only
      | cons first more =>
        obtain ⟨rfl, rfl⟩ := List.cons.inj rest
        exact absurd (List.disjoint_of_nodup_append nodup back' List.mem_cons_self) id

theorem Told.few_iff {m : FdManager} {l : List ι} (told : Told place m l s) :
    s.world.fds.contexts.length ≤ m.contexts.length + 1 ↔ m.datas place ≠ none ∨ OneCreates l := by
  cases told with
  | settled held there outside count =>
    rw [count]
    exact ⟨fun _ => .inl held, fun _ => Nat.le_succ _⟩
  | looking free nodup empty missed count =>
    rw [count]
    refine ⟨fun _ => .inr ?_, fun _ => Nat.le_succ _⟩
    intro before p after split _ back
    rw [split] at nodup
    exact absurd (List.disjoint_of_nodup_append nodup back List.mem_cons_self) id
  | created free nodup back there missed more count =>
    rw [count, oneCreates_iff nodup back]
    exact ⟨.inr, fun one => one.resolve_left fun held => held free⟩

theorem told_start (place : Fin 64) (w : World κ) : Told place w.fds [] (start w : Getters ι κ) := by
  by_cases free : w.fds.datas place = none
  · exact .looking free List.nodup_nil free (by simp [start]) rfl
  · exact .settled free free (fun _ => rfl) rfl

theorem Told.hit {m : FdManager} {l : List ι} {q : ι} {ref : FdCtx.Ref} (told : Told place m l s)
    (outside : s.pc q = .outside) (there : s.world.fds.datas place = some ref) :
    Told place m (l ++ [q]) { s with returned := s.returned ++ [ref] } := by
  cases told with
  | settled held there outside count => exact .settled held there outside count
  | looking free nodup empty missed count => cases empty.symm.trans there
  | @created before after p _ free nodup back there missed more count =>
    rw [List.append_assoc, List.cons_append]
    -- a thread that is outside has come back before, or was not among the first
    have known : q ∈ before → q ≠ p → q ∈ after := by
      intro looked other
      by_contra new
      have waiting := (missed q).mpr ⟨looked, other, new⟩
      rw [outside] at waiting
      cases waiting
    refine .created free nodup back there ?_ more ?_
    · intro x
      rw [missed x, List.mem_append, List.mem_singleton]
      constructor
      · intro ⟨looked, other, new⟩
        refine ⟨looked, other, ?_⟩
        rintro (old | rfl)
        · exact new old
        · exact new (known looked other)
      · intro ⟨looked, other, new⟩
        exact ⟨looked, other, fun old => new (.inl old)⟩
    · rw [count]
      constructor
      · intro only x looked later
        rcases List.mem_append.mp later with old | last
        · exact only x looked old
        · obtain rfl := List.mem_singleton.mp last
          by_contra other
          exact other (only x looked (known looked other))
      · intro only x looked later
        exact only x looked (List.mem_append_left _ later)

theorem Told.miss [DecidableEq ι] {m : FdManager} {l : List ι} {q : ι} (told : Told place m l s)
    (outside : s.pc q = .outside) (empty : s.world.fds.datas place = none) :
    Told place m (l ++ [q]) { s with pc := Function.update s.pc q .missed } := by
  cases told with
  | settled held there outside count => exact absurd empty there
  | created free nodup back there missed more count => exact absurd empty there
  | looking free nodup empty missed count =>
    have new : q ∉ l := by
      intro looked
      have waiting := (missed q).mpr looked
      rw [outside] at waiting
      cases waiting
    refine .looking free (nodup.append (List.nodup_singleton q) (List.disjoint_singleton.mpr new)) empty ?_ count
    intro x
    by_cases here : x = q
    · subst here
      simp
    · simp [missed x, here]

theorem Told.create [DecidableEq ι] {m : FdManager} {l : List ι} {q : ι} (told : Told place m l s)
    (waiting : s.pc q = .missed) (sys : κ) (ctx : FdCtx) (returned : List FdCtx.Ref) :
    Told place m (l ++ [q]) ⟨⟨sys, s.world.fds.install place ctx⟩, Function.update s.pc q .outside, returned⟩ := by
  have held : (s.world.fds.install place ctx).datas place ≠ none := by
    rw [install_self]
    exact Option.some_ne_none _
  have length := length_install s.world.fds place ctx
  cases told with
  | settled held there outside count =>
    rw [outside q] at waiting
    cases waiting
  | looking free nodup empty missed count =>
    refine .created free nodup ((missed q).mp waiting) held ?_ ?_ ?_
    · intro x
      by_cases here : x = q
      · subst here
        simp
      · simp [missed x, here]
    · show m.contexts.length < (s.world.fds.install place ctx).contexts.length
      omega
    · show (s.world.fds.install place ctx).contexts.length ≤ m.contexts.length + 1 ↔ _
      rw [length, count]
      simp
  | @created before after p _ free nodup back there missed more count =>
    obtain ⟨looked, other, new⟩ := (missed q).mp waiting
    rw [List.append_assoc, List.cons_append]
    refine .created free nodup back held ?_ ?_ ?_
    · intro x
      by_cases here : x = q
      · subst here
        simp
      · simp [missed x, here]
    · show m.contexts.length < (s.world.fds.install place ctx).contexts.length
      omega
    · show (s.world.fds.install place ctx).contexts.length ≤ m.contexts.length + 1 ↔ _
      rw [length]
      constructor
      · intro few
        omega
      · intro only
        exact absurd (only q looked (List.mem_append_right _ (List.mem_singleton_self q))) other

theorem Told.alter {m : FdManager} {l : List ι} (told : Told place m l s) (ref : FdCtx.Ref) (change : FdCtx → FdCtx) :
    Told place m l (s.alter ref change) := by
  have length := s.length_alter ref change
  cases told with
  | settled held there outside count => exact .settled held there outside (length.trans count)
  | looking free nodup empty missed count => exact .looking free nodup empty missed (length.trans count)
  | created free nodup back there missed more count =>
    refine .created free nodup back there missed ?_ ?_
    · rw [length]
      exact more
    · rw [length]
      exact count

theorem Told.moved [DecidableEq ι] {m : FdManager} {l : List ι} (told : Told place m l s)
    (moved : Moved S fd place s thread t) : Told place m (l ++ thread.toList) t := by
  cases moved with
  | hit thread outside ref there => exact told.hit outside there
  | miss thread outside free => exact told.miss outside free
  | create thread missed => exact told.create missed _ _ _
  | alter ref change =>
    rw [Option.toList_none, List.append_nil]
    exact told.alter ref change

theorem told_of_run [DecidableEq ι] {as : List (GetStep ι)} {w : World κ} (found : slot fd = .ok place)
    (run : Run (fun s a t => next S fd s a = .ok t) (start w) as t) : Told place w.fds (halves as) t := by
  induction run with
  | nil => exact told_start place w
  | @snoc s t as a _ last ih =>
    have grown : halves (as ++ [a]) = halves as ++ a.thread?.toList := by
      rw [halves, List.filterMap_append]
      cases thread : a.thread? <;> simp [halves, thread]
    rw [grown]
    exact ih.moved (moved_of_next found last)

/-- For a descriptor the table has a slot for no call faults. All calls return one context, the one that later
look-ups find, exactly when there is a context from the start or, of the threads that look before the first
creation, only the one that makes it comes back. -/
theorem get_same_iff [DecidableEq ι] (S : System κ) {fd : Int} (low : 0 ≤ fd) (high : fd < 64) {w : World κ}
    {as : List (GetStep ι)} {t : Getters ι κ}
    (run : Run (fun s a t => next S fd s a = .ok t) (start w) as t) :
    (∀ a fault, next S fd t a ≠ .error fault) ∧
    ((∀ ref ∈ t.returned, ∀ ref' ∈ t.returned, ref = ref') ↔
      w.fds.peek fd ≠ .ok none ∨ OneCreates (halves as)) ∧
    (w.fds.peek fd ≠ .ok none ∨ OneCreates (halves as) →
      ∀ ref ∈ t.returned, t.world.fds.find fd false = .ok (some (some ref))) := by
  obtain ⟨place, found⟩ := slot_of_inside low high
  have agree := agree_of_run found run
  have few_iff := (told_of_run found run).few_iff
  have held : w.fds.peek fd ≠ .ok none ↔ w.fds.datas place ≠ none := (peek_none_iff found).not
  rw [held, ← few_iff]
  refine ⟨?_, ⟨?_, ?_⟩, ?_⟩
  · intro a fault failed
    obtain ⟨u, done, _⟩ := next_moves (S := S) found t a
    rw [done] at failed
    cases failed
  · intro all
    by_contra many
    obtain ⟨ref, first, ref', second, apart⟩ := agree.differ (by omega)
    exact apart (all ref first ref' second)
  · intro few ref first ref' second
    exact Option.some.inj ((agree.same few ref first).symm.trans (agree.same few ref' second))
  · intro few ref member
    rw [find_plain found, agree.same few ref member]

end Getters

end FdManager

/-- Every call answers 0, and every open descriptor is a socket. -/
def System.quiet : System Unit where
  origin _ k := (0, k)
  errno _ := 0
  setErrno _ k := k
  fstat _ _ := some true
  int _ _ := some 0
  timespec _ _ := some (0, 0)
  timeval _ _ := some (0, 0)
  plain _ _ _ _ _ := rfl
  ints _ _ _ _ := rfl

namespace FdManager.Getters

/-- The second thread looks after the first has created. -/
theorem get_same_iff_twice :
    ∃ t : Getters (Fin 2) Unit,
      Run (fun s a t => next .quiet 3 s a = .ok t) (start ⟨(), .new⟩) [.get 0, .get 0, .get 1] t ∧
        t.returned = [0, 0] ∧ ∀ ref ∈ t.returned, t.world.fds.find 3 false = .ok (some (some ref)) := by
  have seen : (List.foldlM (next .quiet 3) (start ⟨(), .new⟩ : Getters (Fin 2) Unit)
      [.get 0, .get 0, .get 1]).toOption.map (fun t => t.returned) = some [0, 0] := by
    decide +kernel
  obtain ⟨t, run, seen⟩ := Run.of_seen seen
  have one : OneCreates (halves [.get 0, .get 0, .get (1 : Fin 2)]) := by
    refine (oneCreates_iff (List.nodup_singleton 0) (List.mem_singleton_self 0)).mpr ?_
    simp
  exact ⟨t, run, seen, (get_same_iff .quiet (by decide) (by decide) run).2.2 (.inr one)⟩

/-- Both threads look before either creates. The receive timeout that the first one then sets is not the
one that a later look-up finds. -/
theorem get_twice_created :
    ∃ t : Getters (Fin 2) Unit,
      Run (fun s a t => next .quiet 3 s a = .ok t) (start ⟨(), .new⟩)
        [.get 0, .get 1, .get 0, .setTimeout 0 .rcvtimeo 5000, .get 1] t ∧
      t.returned = [0, 1] ∧ t.world.fds.find 3 false = .ok (some (some 1)) ∧
      t.world.fds.contexts.map (fun ctx => ctx.getTimeout .rcvtimeo) = [5000, -1] := by
  have seen : (List.foldlM (next .quiet 3) (start ⟨(), .new⟩ : Getters (Fin 2) Unit)
      [.get 0, .get 1, .get 0, .setTimeout 0 .rcvtimeo 5000, .get 1]).toOption.map
        (fun t => (t.returned, (t.world.fds.find 3 false).toOption,
          t.world.fds.contexts.map (fun ctx => ctx.getTimeout .rcvtimeo))) =
        some ([0, 1], some (some (some 1)), [5000, -1]) := by
    decide +kernel
  obtain ⟨t, run, seen⟩ := Run.of_seen seen
  rw [Prod.mk.injEq, Prod.mk.injEq] at seen
  obtain ⟨returned, found, timeouts⟩ := seen
  refine ⟨t, run, returned, ?_, timeouts⟩
  cases ok : t.world.fds.find 3 false with
  | error fault => rw [ok] at found; cases found
  | ok answer => rw [ok] at found; exact congrArg Except.ok (Option.some.inj found)

end FdManager.Getters

end Cool
