import Cool.Log.Define

/-!
# Delivering an event

`Logger::log` hands an event to the appenders of the logger, or to the root logger when it has none, and holds
the logger's spinlock all the while. Appenders are objects here: one object can be at a logger twice, and is
found again by `del_appender`. The appenders of a configuration are new objects.
-/

namespace Cool

open Foundation

/-- The loggers, and which object stands behind each appender of a logger. -/
structure Logs where
  manager : LoggerManager
  objects : Text → List Nat
  aligned : ∀ name, (objects name).length = (manager.getLogger name).appenders.length

namespace Logs

/-- `event->get_level() >= m_level`. -/
def admits (s : Logs) (name : Text) (level : LogLevel) : Bool :=
  (s.manager.getLogger name).level.value ≤ level.value

/-- `Logger::log` with the spinlocks of the loggers in `held` taken by the caller, giving the appenders that
the event is handed to, in order. `LOG_ROOT()->log(event)` comes before the lock is released. -/
def log (s : Logs) (held : List Text) (name : Text) (level : LogLevel) : Except LogFault (List Nat) :=
  if s.admits name level then
    if name ∈ held then .error .deadlock
    else if s.objects name ≠ [] then .ok (s.objects name)
    else s.log (name :: held) rootName level
  else .ok []
termination_by (if rootName ∈ held then 0 else 2) + (if name = rootName then 0 else 1)
decreasing_by
  rename_i free _
  by_cases root : name = rootName
  · subst root
    simp [free]
  · by_cases locked : rootName ∈ held <;> simp [root, locked, Ne.symm root]

/-! ### The changes -/

def put (s : Logs) (name : Text) (l : Logger) (ids : List Nat) (same : ids.length = l.appenders.length) : Logs where
  manager := s.manager.put name l
  objects := Function.update s.objects name ids
  aligned := by
    intro other
    by_cases here : other = name
    · subst here
      rw [Function.update_self, LoggerManager.getLogger, LoggerManager.put_self, same]
      rfl
    · rw [Function.update_of_ne here, LoggerManager.getLogger_put_other s.manager here, s.aligned]

theorem length_addAppender (s : Logs) (name : Text) (id : Nat) (appender : LogAppender) :
    (s.objects name ++ [id]).length = ((s.manager.getLogger name).addAppender appender).appenders.length := by
  rw [Logger.addAppender, List.length_append, List.length_append, s.aligned]
  rfl

theorem length_delAppender (s : Logs) (name : Text) (i : Nat) :
    ((s.objects name).eraseIdx i).length = ((s.manager.getLogger name).delAppender i).appenders.length := by
  rw [Logger.delAppender, List.length_eraseIdx, List.length_eraseIdx, s.aligned]

inductive Change where
  | addAppender (name : Text) (id : Nat) (appender : LogAppender)
  | delAppender (name : Text) (id : Nat)
  | clearAppenders (name : Text)
  | setLevel (name : Text) (level : LogLevel)
  | configure (old new : LogDefines)

/-- The names that a configuration update deals with. -/
def Named (old new : LogDefines) (name : Text) : Prop :=
  (∃ d ∈ old.items, d.name = name) ∨ ∃ d ∈ new.items, d.name = name

variable (error : Text → Bool)

inductive Step (s : Logs) : Change → Logs → Prop where
  | addAppender (name : Text) (id : Nat) (appender : LogAppender) :
      Step s (.addAppender name id appender)
        (s.put name ((s.manager.getLogger name).addAppender appender) (s.objects name ++ [id])
          (s.length_addAppender name id appender))
  | delAppender (name : Text) (id : Nat) :
      Step s (.delAppender name id)
        (s.put name ((s.manager.getLogger name).delAppender ((s.objects name).idxOf id))
          ((s.objects name).eraseIdx ((s.objects name).idxOf id))
          (s.length_delAppender name _))
  | clearAppenders (name : Text) :
      Step s (.clearAppenders name) (s.put name (s.manager.getLogger name).clearAppenders [] rfl)
  | setLevel (name : Text) (level : LogLevel) :
      Step s (.setLevel name level)
        (s.put name ((s.manager.getLogger name).setLevel level) (s.objects name) (s.aligned name))
  | configure {old new : LogDefines} {t : Logs} (ran : s.manager.onLogsChanged error old new = .ok t.manager)
      (kept : ∀ name, ¬ Named old new name → t.objects name = s.objects name)
      (fresh : ∀ name, Named old new name → (t.objects name).Nodup ∧
        ∀ id ∈ t.objects name, ∀ other, id ∉ s.objects other ∧ (other ≠ name → id ∉ t.objects other)) :
      Step s (.configure old new) t

/-- The logger does not have the appender yet. -/
def Once (s : Logs) : Change → Prop
  | .addAppender name id _ => id ∉ s.objects name
  | _ => True

/-- The manager of the constructor: a root logger with an appender for standard output. -/
def initial : Logs where
  manager := .initial
  objects := Function.update (fun _ => []) rootName [0]
  aligned := by
    intro name
    by_cases here : name = rootName
    · subst here
      rfl
    · simp [LoggerManager.getLogger, LoggerManager.initial, Function.update_of_ne here, Logger.new]

variable {error}

theorem put_nodup {s : Logs} {name : Text} {l : Logger} {ids : List Nat} (same : ids.length = l.appenders.length)
    (before : ∀ name, (s.objects name).Nodup) (nodup : ids.Nodup) (other : Text) :
    ((s.put name l ids same).objects other).Nodup := by
  show (Function.update s.objects name ids other).Nodup
  by_cases here : other = name
  · subst here
    rwa [Function.update_self]
  · rw [Function.update_of_ne here]
    exact before other

theorem initial_nodup (name : Text) : (initial.objects name).Nodup := by
  show (Function.update (fun _ => []) rootName [0] name).Nodup
  by_cases here : name = rootName
  · subst here
    rw [Function.update_self]
    exact List.nodup_singleton 0
  · rw [Function.update_of_ne here]
    exact List.nodup_nil

theorem step_nodup {s t : Logs} {change : Change} (before : ∀ name, (s.objects name).Nodup)
    (step : Step error s change t) (once : Once s change) (name : Text) : (t.objects name).Nodup := by
  cases step with
  | addAppender at_ id appender =>
    have disjoint : ∀ a ∈ s.objects at_, ∀ c ∈ [id], a ≠ c := by
      intro a member c here same
      obtain rfl := List.mem_singleton.mp here
      subst same
      exact once member
    exact put_nodup _ before (List.nodup_append.mpr ⟨before at_, List.nodup_singleton id, disjoint⟩) name
  | delAppender at_ id => exact put_nodup _ before ((before at_).sublist (List.eraseIdx_sublist ..)) name
  | clearAppenders at_ => exact put_nodup _ before List.nodup_nil name
  | setLevel at_ level => exact put_nodup _ before (before at_) name
  | configure ran kept fresh =>
    rename_i old new
    by_cases named : Named old new name
    · exact (fresh name named).1
    · rw [kept name named]
      exact before name

/-- As long as no appender is added to a logger that has it, every logger has each of its appenders once. -/
theorem objects_nodup {s : Logs} {changes : List Change}
    (run : Run (fun s change t => Step error s change t ∧ Once s change) initial changes s) (name : Text) :
    (s.objects name).Nodup :=
  run.invariant (I := fun s => ∀ name, (s.objects name).Nodup)
    (fun _ _ _ before step => step_nodup before step.1 step.2) initial_nodup name

/-! ### Who gets the event -/

/-- The appenders that an event is for. -/
def target (s : Logs) (name : Text) (level : LogLevel) : List Nat :=
  if ¬ s.admits name level then []
  else if s.objects name ≠ [] then s.objects name
  else if s.admits rootName level then s.objects rootName
  else []

/-- `log` returns, and has handed the event to each appender it is for once, and to no other. -/
def Delivers (s : Logs) (name : Text) (level : LogLevel) : Prop :=
  ∃ delivered, s.log [] name level = .ok delivered ∧
    ∀ id, delivered.count id = if id ∈ s.target name level then 1 else 0

/-- The logger and the root logger both admit the event and have no appenders. -/
def Stuck (s : Logs) (name : Text) (level : LogLevel) : Prop :=
  (s.admits name level ∧ s.objects name = []) ∧ s.admits rootName level ∧ s.objects rootName = []

instance decidableStuck (s : Logs) (name : Text) (level : LogLevel) : Decidable (s.Stuck name level) :=
  inferInstanceAs (Decidable ((s.admits name level ∧ s.objects name = []) ∧
    s.admits rootName level ∧ s.objects rootName = []))

theorem log_root_empty (s : Logs) {held : List Text} {level : LogLevel} (admits : s.admits rootName level)
    (empty : s.objects rootName = []) : s.log held rootName level = .error .deadlock := by
  rw [log, if_pos admits]
  by_cases locked : rootName ∈ held
  · rw [if_pos locked]
  · -- It asks itself, and finds its own lock taken.
    rw [if_neg locked, if_neg (not_not.mpr empty), log, if_pos admits, if_pos List.mem_cons_self]

theorem log_stuck {s : Logs} {name : Text} {level : LogLevel} (stuck : s.Stuck name level) :
    s.log [] name level = .error .deadlock := by
  obtain ⟨⟨admits, empty⟩, root, none⟩ := stuck
  rw [log, if_pos admits, if_neg List.not_mem_nil, if_neg (not_not.mpr empty), log_root_empty s root none]

theorem log_target {s : Logs} {name : Text} {level : LogLevel} (free : ¬ s.Stuck name level) :
    s.log [] name level = .ok (s.target name level) := by
  rw [log, target]
  by_cases admits : s.admits name level
  · rw [if_pos admits, if_neg List.not_mem_nil, if_neg (not_not.mpr admits)]
    by_cases empty : s.objects name = []
    · rw [if_neg (not_not.mpr empty), if_neg (not_not.mpr empty), log]
      by_cases root : s.admits rootName level
      · -- The root logger has appenders, so it is another one, whose lock is free.
        have some_ : s.objects rootName ≠ [] := fun none => free ⟨⟨admits, empty⟩, root, none⟩
        have apart : rootName ∉ [name] := by
          intro member
          obtain rfl := List.mem_singleton.mp member
          exact some_ empty
        rw [if_pos root, if_pos root, if_neg apart, if_pos some_]
      · rw [if_neg root, if_neg root]
    · rw [if_pos empty, if_pos empty]
  · rw [if_neg admits, if_pos admits]

theorem count_iff_nodup (ids : List Nat) : (∀ id, ids.count id = if id ∈ ids then 1 else 0) ↔ ids.Nodup := by
  rw [List.nodup_iff_count_le_one]
  constructor
  · intro once id
    rw [once id]
    split <;> omega
  · intro once id
    split
    · rename_i member
      exact Nat.le_antisymm (once id) (List.count_pos_iff.mpr member)
    · rename_i absent
      exact List.count_eq_zero.mpr absent

/-- In every state an event is delivered exactly when the logger is not stuck and has none of the appenders
that the event is for twice; and no run adds an appender twice unless it is asked to. -/
theorem log_delivers_iff (s : Logs) (name : Text) (level : LogLevel) :
    (s.Delivers name level ↔ ¬ s.Stuck name level ∧ (s.target name level).Nodup) ∧
    ∀ (error : Text → Bool) (changes : List Change),
      Run (fun s change t => Step error s change t ∧ Once s change) initial changes s →
        (s.target name level).Nodup := by
  constructor
  · by_cases stuck : s.Stuck name level
    · refine iff_of_false ?_ fun both => both.1 stuck
      rintro ⟨delivered, returned, _⟩
      rw [log_stuck stuck] at returned
      cases returned
    · rw [Delivers, log_target stuck, ← count_iff_nodup]
      constructor
      · rintro ⟨delivered, returned, once⟩
        cases returned
        exact ⟨stuck, once⟩
      · rintro ⟨_, once⟩
        exact ⟨_, rfl, once⟩
  · intro error changes run
    have nodup := objects_nodup run
    rw [target]
    split
    · exact List.nodup_nil
    split
    · exact nodup name
    split
    · exact nodup rootName
    · exact List.nodup_nil

/-- The root logger loses its appender: any logger without appenders of its own then waits for itself. -/
theorem cleared_root_deadlocks : ∃ s,
    Run (fun s change t => Step (fun _ => false) s change t ∧ Once s change) initial ([] ++ [.clearAppenders rootName]) s ∧
      s.log [] rootName .error = .error .deadlock ∧ s.log [] "system".toList .error = .error .deadlock :=
  ⟨_, Run.nil.snoc ⟨.clearAppenders rootName, trivial⟩, log_stuck (by decide), log_stuck (by decide)⟩

end Logs

end Cool
