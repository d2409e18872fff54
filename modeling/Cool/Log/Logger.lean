import Cool.Config.Registry

/-!
# Loggers

The loggers of `LoggerManager` by name. A logger is one object that all its holders share, so to change
it is to change what the manager has under its name. The root logger is registered as `root` by the
constructor. A formatter is known by its pattern; which patterns are in error is left open.
-/

namespace Cool

/-- `LogLevel::Level`; a value outside the enumeration comes from a cast. -/
inductive LogLevel where
  | unknown | debug | info | warn | error | fatal
  | other (value : Nat)
  deriving DecidableEq, Repr

def LogLevel.value : LogLevel → Nat
  | .unknown => 0
  | .debug => 1
  | .info => 2
  | .warn => 3
  | .error => 4
  | .fatal => 5
  | .other value => value

namespace LogLevel

def fromString (v : Text) : LogLevel :=
  if v = "debug".toList then .debug
  else if v = "info".toList then .info
  else if v = "warn".toList then .warn
  else if v = "error".toList then .error
  else if v = "fatal".toList then .fatal
  else if v = "DEBUG".toList then .debug
  else if v = "INFO".toList then .info
  else if v = "WARN".toList then .warn
  else if v = "ERROR".toList then .error
  else if v = "FATAL".toList then .fatal
  else .unknown

def toString : LogLevel → Text
  | .debug => "DEBUG".toList
  | .info => "INFO".toList
  | .warn => "WARN".toList
  | .error => "ERROR".toList
  | .fatal => "FATAL".toList
  | _ => "UNKNOWN".toList

theorem fromString_toString {level : LogLevel} (named : ∀ value, level ≠ .other value) :
    fromString level.toString = level := by
  cases level with
  | other value => exact absurd rfl (named value)
  | _ => decide

end LogLevel

/-- `FileLogAppender` with its file, and `StdoutLogAppender`. -/
inductive AppenderKind where
  | file (filename : Text)
  | stdout
  deriving DecidableEq, Repr

structure LogAppender where
  kind : AppenderKind
  /-- The pattern of the formatter, or none while the pointer is null. -/
  formatter : Option Text
  deriving DecidableEq, Repr

structure Logger where
  name : Text
  level : LogLevel
  appenders : List LogAppender
  formatter : Text
  deriving DecidableEq, Repr

namespace Logger

def defaultPattern : Text := "%d\x7b%Y-%m-%d %H:%M:%S\x7d %t(%N):%F [%p] [%c] %f:%l %m %n".toList

def new (name : Text) : Logger := ⟨name, .debug, [], defaultPattern⟩

def setLevel (l : Logger) (level : LogLevel) : Logger := { l with level := level }

def clearAppenders (l : Logger) : Logger := { l with appenders := [] }

/-- An appender without formatter takes the logger's. -/
def addAppender (l : Logger) (appender : LogAppender) : Logger :=
  { l with appenders := l.appenders ++ [{ appender with formatter := some (appender.formatter.getD l.formatter) }] }

/-- `del_appender` of the appender that stands at `i`. -/
def delAppender (l : Logger) (i : Nat) : Logger := { l with appenders := l.appenders.eraseIdx i }

/-- `set_formatter(const std::string &)`: a pattern in error is refused. -/
def setFormatter (error : Text → Bool) (l : Logger) (val : Text) : Logger :=
  if error val then l else { l with formatter := val }

end Logger

def rootName : Text := "root".toList

structure LoggerManager where
  loggers : Text → Option Logger
  root : ∃ l, loggers rootName = some l

namespace LoggerManager

/-- `get_logger`: a logger that is not there yet is made. -/
def getLogger (s : LoggerManager) (name : Text) : Logger := (s.loggers name).getD (Logger.new name)

/-- The logger of a name becomes another, and is in the map from then on. -/
def put (s : LoggerManager) (name : Text) (l : Logger) : LoggerManager where
  loggers := Function.update s.loggers name (some l)
  root := by
    by_cases here : rootName = name
    · exact ⟨l, by rw [here, Function.update_self]⟩
    · obtain ⟨r, there⟩ := s.root
      exact ⟨r, by rw [Function.update_of_ne here, there]⟩

@[simp] theorem put_self (s : LoggerManager) (name : Text) (l : Logger) : (s.put name l).loggers name = some l :=
  Function.update_self ..

theorem put_other (s : LoggerManager) {name other : Text} (apart : other ≠ name) (l : Logger) :
    (s.put name l).loggers other = s.loggers other :=
  Function.update_of_ne apart ..

theorem getLogger_put_other (s : LoggerManager) {name other : Text} (apart : other ≠ name) (l : Logger) :
    (s.put name l).getLogger other = s.getLogger other := by
  rw [getLogger, getLogger, put_other s apart]

end LoggerManager

end Cool
