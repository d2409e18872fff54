import Cool.Log.Logger
import Cool.Foundation.Run
import Mathlib.Data.List.Nodup

/-!
# The log configuration

`LogDefine` and the listener that `LogIniter` installs on the variable `logs`. A set of definitions is
ordered by name alone, so it has one definition of a name; whether a definition has changed is decided by
full equality.
-/

namespace Cool

/-- `type` is 1 for a file and 2 for standard output. -/
structure LogAppenderDefine where
  type : Int
  formatter : Text
  file : Text
  deriving DecidableEq, Repr

structure LogDefine where
  name : Text
  level : LogLevel
  formatter : Text
  appenders : List LogAppenderDefine
  deriving DecidableEq, Repr

/-- `std::set<LogDefine>`. -/
structure LogDefines where
  items : List LogDefine
  distinct : (items.map (·.name)).Nodup

inductive LogFault where
  | nullLogger
  | nullAppender
  /-- A spinlock is taken by the thread that holds it. -/
  | deadlock
  deriving DecidableEq, Repr

namespace LogDefines

def find (s : LogDefines) (d : LogDefine) : Option LogDefine := s.items.find? (·.name = d.name)

theorem find_mem {s : LogDefines} {d : LogDefine} : s.find d = some d ↔ d ∈ s.items := by
  constructor
  · exact List.mem_of_find?_eq_some
  · intro member
    cases found : s.find d with
    | none =>
      have apart := List.find?_eq_none.mp found d member
      simp at apart
    | some other =>
      have there := List.mem_of_find?_eq_some found
      have same : other.name = d.name := by simpa using List.find?_some found
      rw [List.inj_on_of_nodup_map s.distinct there member same]

theorem find_eq_none {s : LogDefines} {d : LogDefine} : s.find d = none ↔ ∀ other ∈ s.items, other.name ≠ d.name := by
  simp [find, List.find?_eq_none]

end LogDefines

variable (error : Text → Bool)

/-- The appender of a definition; of any other type it stays null and is dereferenced. -/
def LogAppenderDefine.make (a : LogAppenderDefine) : Except LogFault LogAppender :=
  let formatter := if a.formatter = [] then none else some a.formatter
  if a.type = 1 then .ok ⟨.file a.file, formatter⟩
  else if a.type = 2 then .ok ⟨.stdout, formatter⟩
  else .error .nullAppender

namespace LoggerManager

open Foundation

def addDefined (l : Logger) (a : LogAppenderDefine) : Except LogFault Logger :=
  match a.make with
  | .error fault => .error fault
  | .ok appender => .ok (l.addAppender appender)

/-- Level, appenders and formatter of a logger before the appenders of the definition are added. -/
def prepare (d : LogDefine) (l : Logger) : Logger :=
  if d.formatter = [] then (l.setLevel d.level).clearAppenders
  else (l.setLevel d.level).clearAppenders.setFormatter error d.formatter

/-- The body of the first loop from `logger->set_level` on. -/
def configure (s : LoggerManager) (d : LogDefine) : Except LogFault LoggerManager :=
  match d.appenders.foldlM addDefined (prepare error d (s.getLogger d.name)) with
  | .error fault => .error fault
  | .ok l => .ok (s.put d.name l)

/-- The first loop: `logger` stays null for a definition that has not changed. -/
def change (old : LogDefines) (s : LoggerManager) (d : LogDefine) : Except LogFault LoggerManager :=
  match old.find d with
  | none => s.configure error d
  | some d' => if d ≠ d' then s.configure error d else .error .nullLogger

/-- The second loop. -/
def remove (new : LogDefines) (s : LoggerManager) (d : LogDefine) : LoggerManager :=
  if new.find d = none then s.put d.name ((s.getLogger d.name).setLevel (.other 100)).clearAppenders else s

/-- `LOG_DEBUG` of the root logger: without appenders it logs to the root logger, itself, with its lock
held. -/
def rootLogs (s : LoggerManager) : Prop :=
  LogLevel.debug.value < (s.getLogger rootName).level.value ∨ (s.getLogger rootName).appenders ≠ []

instance decidableRootLogs (s : LoggerManager) : Decidable s.rootLogs :=
  inferInstanceAs (Decidable (LogLevel.debug.value < (s.getLogger rootName).level.value ∨
    (s.getLogger rootName).appenders ≠ []))

/-- The listener. -/
def onLogsChanged (old new : LogDefines) (s : LoggerManager) : Except LogFault LoggerManager :=
  if s.rootLogs then
    match new.items.foldlM (change error old) s with
    | .error fault => .error fault
    | .ok s => .ok (old.items.foldl (remove new) s)
  else .error .deadlock

/-! ## What a definition makes of a logger -/

/-- The appender of a definition once it is at a logger with the formatter. -/
def made (formatter : Text) (a : LogAppenderDefine) : LogAppender :=
  ⟨if a.type = 1 then .file a.file else .stdout, some (if a.formatter = [] then formatter else a.formatter)⟩

def configured (d : LogDefine) (l : Logger) : Logger :=
  let formatter := if d.formatter = [] ∨ error d.formatter = true then l.formatter else d.formatter
  ⟨l.name, d.level, d.appenders.map (made formatter), formatter⟩

def Makes (a : LogAppenderDefine) : Prop := a.type = 1 ∨ a.type = 2

theorem addDefined_makes (l : Logger) (a : LogAppenderDefine) (makes : Makes a) :
    addDefined l a = .ok { l with appenders := l.appenders ++ [made l.formatter a] } := by
  obtain ⟨type, formatter, file⟩ := a
  rcases makes with rfl | rfl
  · by_cases none : formatter = [] <;> simp [addDefined, LogAppenderDefine.make, Logger.addAppender, made, none]
  · by_cases none : formatter = [] <;> simp [addDefined, LogAppenderDefine.make, Logger.addAppender, made, none]

theorem addDefined_fails (l : Logger) (a : LogAppenderDefine) (fails : ¬ Makes a) :
    ∃ fault, addDefined l a = .error fault := by
  have one : a.type ≠ 1 := fun one => fails (.inl one)
  have two : a.type ≠ 2 := fun two => fails (.inr two)
  exact ⟨.nullAppender, by simp [addDefined, LogAppenderDefine.make, one, two]⟩

theorem foldl_addDefined (as : List LogAppenderDefine) (l : Logger) :
    as.foldl (fun l a => { l with appenders := l.appenders ++ [made l.formatter a] }) l =
      { l with appenders := l.appenders ++ as.map (made l.formatter) } := by
  induction as generalizing l with
  | nil => simp
  | cons a rest ih =>
    rw [List.foldl_cons, ih]
    simp

/-- A definition that the first loop gets through. -/
def Passes (old : LogDefines) (d : LogDefine) : Prop := d ∉ old.items ∧ ∀ a ∈ d.appenders, Makes a

theorem configure_passes {d : LogDefine} (makes : ∀ a ∈ d.appenders, Makes a) (s : LoggerManager) :
    s.configure error d = .ok (s.put d.name (configured error d (s.getLogger d.name))) := by
  have prepared : { prepare error d (s.getLogger d.name) with
      appenders := d.appenders.map (made (prepare error d (s.getLogger d.name)).formatter) } =
        configured error d (s.getLogger d.name) := by
    unfold prepare configured Logger.setFormatter
    by_cases none : d.formatter = []
    · simp [none, Logger.setLevel, Logger.clearAppenders]
    · by_cases bad : error d.formatter = true <;> simp [none, bad, Logger.setLevel, Logger.clearAppenders]
  have cleared : (prepare error d (s.getLogger d.name)).appenders = [] := by
    unfold prepare Logger.setFormatter
    split
    · rfl
    · split <;> rfl
  rw [configure, foldlM_passes addDefined_makes makes, foldl_addDefined, cleared, List.nil_append, prepared]

theorem configure_fails {d : LogDefine} (fails : ∃ a ∈ d.appenders, ¬ Makes a) (s : LoggerManager) :
    ∃ fault, s.configure error d = .error fault := by
  obtain ⟨fault, failed⟩ := foldlM_fails addDefined_makes addDefined_fails fails
  exact ⟨fault, by rw [configure, failed]⟩

theorem change_of_changed {old : LogDefines} {d : LogDefine} (changed : d ∉ old.items) (s : LoggerManager) :
    change error old s d = s.configure error d := by
  unfold change
  cases found : old.find d with
  | none => rfl
  | some other =>
    have apart : d ≠ other := by
      intro same
      subst same
      exact changed (LogDefines.find_mem.mp found)
    simp [apart]

theorem change_passes {old : LogDefines} (s : LoggerManager) (d : LogDefine) (passes : Passes old d) :
    change error old s d = .ok (s.put d.name (configured error d (s.getLogger d.name))) := by
  rw [change_of_changed error passes.1, configure_passes error passes.2]

theorem change_fails {old : LogDefines} (s : LoggerManager) (d : LogDefine) (fails : ¬ Passes old d) :
    ∃ fault, change error old s d = .error fault := by
  by_cases same : d ∈ old.items
  · refine ⟨.nullLogger, ?_⟩
    unfold change
    rw [LogDefines.find_mem.mpr same]
    simp
  · rw [change_of_changed error same]
    have bad : ∃ a ∈ d.appenders, ¬ Makes a := by
      by_contra none
      push Not at none
      exact fails ⟨same, none⟩
    exact configure_fails error bad s

/-! ## The loops -/

/-- Each logger is changed by the one definition of its name, and the others not at all. -/
theorem foldl_put (edit : LogDefine → Logger → Logger) (ds : List LogDefine) (distinct : (ds.map (·.name)).Nodup)
    (s : LoggerManager) :
    (∀ d ∈ ds, (ds.foldl (fun s d => s.put d.name (edit d (s.getLogger d.name))) s).loggers d.name =
      some (edit d (s.getLogger d.name))) ∧
    ∀ name, (∀ d ∈ ds, d.name ≠ name) →
      (ds.foldl (fun s d => s.put d.name (edit d (s.getLogger d.name))) s).loggers name = s.loggers name := by
  induction ds generalizing s with
  | nil => exact ⟨fun _ member => absurd member List.not_mem_nil, fun _ _ => rfl⟩
  | cons first rest ih =>
    rw [List.map_cons, List.nodup_cons] at distinct
    obtain ⟨here, elsewhere⟩ := ih distinct.2 (s.put first.name (edit first (s.getLogger first.name)))
    have fresh : ∀ d ∈ rest, d.name ≠ first.name := by
      intro d member same
      exact distinct.1 (same ▸ List.mem_map_of_mem member)
    rw [List.foldl_cons]
    constructor
    · intro d member
      rcases List.mem_cons.mp member with rfl | later
      · rw [elsewhere d.name fresh, put_self]
      · rw [here d later, getLogger_put_other s (fresh d later)]
    · intro name none
      rw [elsewhere name fun d member => none d (List.mem_cons_of_mem _ member),
        put_other s (none first List.mem_cons_self).symm]

theorem foldl_remove (new : LogDefines) (ds : List LogDefine) (s : LoggerManager) :
    ds.foldl (remove new) s =
      (ds.filter fun d => new.find d = none).foldl
        (fun s d => s.put d.name ((s.getLogger d.name).setLevel (.other 100)).clearAppenders) s := by
  rw [List.foldl_filter]
  simp only [decide_eq_true_eq]
  rfl

/-- What the listener is for. -/
structure Applied (old new : LogDefines) (s s' : LoggerManager) : Prop where
  named : ∀ d ∈ new.items, ∃ l, s'.loggers d.name = some l ∧ l.level = d.level ∧
    (d.formatter ≠ [] → error d.formatter = false → l.formatter = d.formatter) ∧
    l.appenders = d.appenders.map (made l.formatter)
  removed : ∀ d ∈ old.items, (∀ d' ∈ new.items, d'.name ≠ d.name) →
    ∃ l, s'.loggers d.name = some l ∧ l.level = .other 100 ∧ l.appenders = []
  others : ∀ name, (∀ d ∈ new.items, d.name ≠ name) → (∀ d ∈ old.items, d.name ≠ name) →
    s'.loggers name = s.loggers name

theorem applied_of_loops (old new : LogDefines) (s : LoggerManager) :
    Applied error old new s
      (old.items.foldl (remove new)
        (new.items.foldl (fun s d => s.put d.name (configured error d (s.getLogger d.name))) s)) := by
  obtain ⟨here, elsewhere⟩ := foldl_put (configured error) new.items new.distinct s
  have subset : ((old.items.filter fun d => new.find d = none).map (·.name)).Nodup :=
    (List.filter_sublist.map _).nodup old.distinct
  rw [foldl_remove]
  generalize new.items.foldl (fun s d => s.put d.name (configured error d (s.getLogger d.name))) s = s₁ at here elsewhere ⊢
  obtain ⟨gone, kept⟩ := foldl_put (fun _ l => (l.setLevel (.other 100)).clearAppenders) _ subset s₁
  refine ⟨?_, ?_, ?_⟩
  · intro d member
    have stays : ∀ d' ∈ old.items.filter fun d => new.find d = none, d'.name ≠ d.name := by
      intro d' filtered same
      have none : new.find d' = none := by simpa using (List.mem_filter.mp filtered).2
      exact LogDefines.find_eq_none.mp none d member same.symm
    refine ⟨_, (kept d.name stays).trans (here d member), rfl, ?_, rfl⟩
    intro some_ ok
    simp [configured, some_, ok]
  · intro d member absent
    have filtered : d ∈ old.items.filter fun d => new.find d = none :=
      List.mem_filter.mpr ⟨member, by simpa using LogDefines.find_eq_none.mpr absent⟩
    exact ⟨_, gone d filtered, rfl, rfl⟩
  · intro name new_ old_
    rw [kept name fun d filtered => old_ d (List.mem_filter.mp filtered).1, elsewhere name new_]

/-- The listener does its work exactly when no definition is in both sets unchanged, every appender is
of one of the two types, and the root logger, where the listener logs first, can be logged to. -/
theorem onLogsChanged_applies_iff (old new : LogDefines) (s : LoggerManager) :
    (∃ s', onLogsChanged error old new s = .ok s' ∧ Applied error old new s s') ↔
      s.rootLogs ∧ (∀ d ∈ new.items, d ∉ old.items) ∧
        ∀ d ∈ new.items, ∀ a ∈ d.appenders, a.type = 1 ∨ a.type = 2 := by
  constructor
  · rintro ⟨s', ran, _⟩
    unfold onLogsChanged at ran
    split at ran
    · rename_i root
      by_contra bad
      have some_ : ∃ d ∈ new.items, ¬ Passes old d := by
        by_contra none
        push Not at none
        exact bad ⟨root, fun d member => (none d member).1, fun d member => (none d member).2⟩
      obtain ⟨fault, failed⟩ := foldlM_fails (s := s) (change_passes error) (change_fails error) some_
      rw [failed] at ran
      cases ran
    · cases ran
  · rintro ⟨root, changed, makes⟩
    have passes : ∀ d ∈ new.items, Passes old d := fun d member => ⟨changed d member, makes d member⟩
    have loop := foldlM_passes (s := s) (change_passes error) passes
    refine ⟨_, ?_, applied_of_loops error old new s⟩
    rw [onLogsChanged, if_pos root, loop]

/-- `LoggerManager::LoggerManager`. -/
def initial : LoggerManager where
  loggers := Function.update (fun _ => none) rootName
    (some ((Logger.new rootName).addAppender ⟨.stdout, none⟩))
  root := ⟨_, Function.update_self ..⟩

/-- A second definition is added to a configuration that has been applied. -/
theorem unchanged_definition_faults :
    (onLogsChanged (fun _ => false) ⟨[], by decide⟩ ⟨[⟨"a".toList, .info, [], [⟨2, [], []⟩]⟩], by decide⟩ initial).bind
      (onLogsChanged (fun _ => false) ⟨[⟨"a".toList, .info, [], [⟨2, [], []⟩]⟩], by decide⟩
        ⟨[⟨"a".toList, .info, [], [⟨2, [], []⟩]⟩, ⟨"b".toList, .debug, [], []⟩], by decide⟩) =
      .error .nullLogger := by
  rfl

end LoggerManager

end Cool
