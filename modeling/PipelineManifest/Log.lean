import PipelineManifest.Fault

/-!
# `PipelineManifest.Log`: log entries and the log level

Operations say what they did in log entries. A log shows the entries from a chosen level on;
the level is named by an option or the environment, in any letter case.

* `LogEntry`: an entry.
* `Logged`: a result with the entries written on the way to it.
* `upperCase`: the upper-case form of a name.
* `LogSetup`, `LogSetup.ofName`: a log that is set up for a level.
-/

set_option autoImplicit false

namespace PipelineManifest

/-- How important an entry is. -/
inductive LogLevel where
  | debug
  | warning
  deriving DecidableEq, Repr

namespace LogLevel

/-- The name of a level in a log line. -/
def name : LogLevel → String
  | debug => "DEBUG"
  | warning => "WARNING"

/-- The rank of a level. -/
def rank : LogLevel → Nat
  | debug => 10
  | warning => 30

end LogLevel

/-- An entry of the log. -/
structure LogEntry where
  level : LogLevel
  logger : String
  message : String
  deriving DecidableEq, Repr

/-- The name under which all loggers stand. -/
def rootLogger : String := "ssh_runner"

/-- The name of the logger of one part of the program. -/
def loggerName (part : String) : String := rootLogger ++ "." ++ part

/-- An entry at a rank of at least `threshold` is shown. -/
def LogEntry.isShown (threshold : Nat) (e : LogEntry) : Bool := threshold ≤ e.level.rank

/-- A result and the log entries written on the way to it. -/
structure Logged (α : Type) where
  result : α
  log : List LogEntry

/-! ### Levels by name -/

/-- The upper-case form of a character, for the characters whose form is made of ASCII letters;
all others stay, and then a name is none of the known ones. -/
def upperCaseChar (c : Char) : List Char :=
  if c = 'ſ' then ['S']
  else if c = 'ı' then ['I']
  else if c = 'ﬅ' || c = 'ﬆ' then ['S', 'T']
  else [c.toUpper]

/-- The upper-case form of a name. -/
def upperCase (s : String) : String := String.ofList (s.toList.flatMap upperCaseChar)

/-- The rank that stands for no threshold of its own. -/
def unsetRank : Nat := 0

/-- The rank of a level's name. Two names of the same form belong to other settings: one is a
text and one a table, and neither is a level. -/
def rankOfName (name : String) : Outcome Nat :=
  if name = "DEBUG" then .ok 10
  else if name = "INFO" then .ok 20
  else if name = "WARNING" || name = "WARN" then .ok 30
  else if name = "ERROR" then .ok 40
  else if name = "CRITICAL" || name = "FATAL" then .ok 50
  else if name = "NOTSET" then .ok unsetRank
  else if name = "BASIC_FORMAT" then .error .invalidValue
  else if name = "_STYLES" then .error .wrongKind
  else .error .missingMember

/-- The name of the level: the option if it is given, else the environment's, else `INFO`. -/
def levelName (option env : Option String) : String :=
  upperCase (option.getD (env.getD "INFO"))

/-- A log that is set up: one handler, which alone receives the entries. -/
structure LogSetup where
  rank : Nat
  toStandardError : Bool
  handlers : Nat := 1
  propagates : Bool := false

/-- The log for a level's name. Where documents go to standard output, the log goes to
standard error. -/
def LogSetup.ofName (name : String) (json : Bool) : Outcome LogSetup := do
  return { rank := ← rankOfName name, toStandardError := json }

/-- The rank from which entries are shown. Without one of its own it is that of a warning. -/
def LogSetup.threshold (s : LogSetup) : Nat :=
  if s.rank = unsetRank then LogLevel.warning.rank else s.rank

end PipelineManifest
