import ModelTypes.Text.Case
/-!
Log records, and what a run does with them: it shows them on the console and may keep them in a
file, each from a level on and in a format of its own.
-/

namespace ModelTypes

inductive LogLevel where
  | notset
  | debug
  | info
  | warning
  | error
  | critical
deriving DecidableEq, Repr

namespace LogLevel

def severity : LogLevel → Nat
  | notset => 0
  | debug => 10
  | info => 20
  | warning => 30
  | error => 40
  | critical => 50

def name : LogLevel → String
  | notset => "NOTSET"
  | debug => "DEBUG"
  | info => "INFO"
  | warning => "WARNING"
  | error => "ERROR"
  | critical => "CRITICAL"

/-- The names that levels go by. -/
def names : List (String × LogLevel) :=
  [("NOTSET", notset), ("DEBUG", debug), ("INFO", info), ("WARNING", warning), ("WARN", warning),
   ("ERROR", error), ("CRITICAL", critical), ("FATAL", critical)]

/-- The level that a name in any letter case stands for; any other text stands for warnings. -/
def ofName (name : String) : LogLevel := (names.lookup (Text.upperString name)).getD warning

/-- Whether records of level `b` pass where `a` is set. -/
def admits (a b : LogLevel) : Bool := a.severity ≤ b.severity

def least (a b : LogLevel) : LogLevel := if a.severity ≤ b.severity then a else b

end LogLevel

structure LogRecord where
  level : LogLevel
  logger : String
  message : String
deriving DecidableEq, Repr

namespace Log

/-! ## Formats -/

/-- How much of a record a line shows. -/
inductive Format where
  | plain
  | timed
  | detailed
deriving DecidableEq, Repr

def Format.template : Format → String
  | plain => "%(levelname)s: %(message)s"
  | timed => "%(asctime)s [%(name)s] %(message)s"
  | detailed => "%(asctime)s %(levelname)-5s %(name)s:%(lineno)d — %(message)s"

def clockTemplate : String := "%H:%M:%S"

def dateTemplate : String := "%Y-%m-%d %H:%M:%S"

/-- Pads a text with blanks on its right. -/
def padRight (width : Nat) (s : String) : String :=
  s ++ String.ofList (List.replicate (width - s.length) ' ')

/-- The line for a record. Records come from no numbered line, so detailed lines show number 0. -/
def Format.line (f : Format) (time : String) (r : LogRecord) : String :=
  match f with
  | plain => r.level.name ++ ": " ++ r.message
  | timed => time ++ " [" ++ r.logger ++ "] " ++ r.message
  | detailed => time ++ " " ++ padRight 5 r.level.name ++ " " ++ r.logger ++ ":0 — " ++ r.message

/-! ## Handlers -/

inductive Target where
  | console
  | file
deriving DecidableEq, Repr

structure Handler where
  target : Target
  level : LogLevel
  format : Format
  timeTemplate : Option String
deriving DecidableEq, Repr

/-- What is set for a run. `libraries` is the level of the loggers of chatty libraries, if they
have one of their own. -/
structure Setup where
  level : LogLevel
  libraries : Option LogLevel
  handlers : List Handler
deriving DecidableEq, Repr

/-- The loggers of chatty libraries. -/
def libraryLoggers : List String := ["pymongo", "urllib3", "asyncio"]

/-- The lower the level, the more a console line shows. -/
def consoleHandler (level : LogLevel) : Handler :=
  if level.severity ≤ LogLevel.debug.severity then ⟨.console, level, .detailed, some clockTemplate⟩
  else if level.severity ≤ LogLevel.info.severity then ⟨.console, level, .timed, some clockTemplate⟩
  else ⟨.console, level, .plain, none⟩

/-- The set-up for a console level. With `file` records are also kept in a file, from the file's
own level on if one is given. -/
def setup (level : String) (file : Bool) (fileLevel : String) (quietLibraries : Bool) : Setup :=
  let level := LogLevel.ofName level
  let own := if fileLevel == "" then level else LogLevel.ofName fileLevel
  { level := if file then level.least own else level
    libraries := if quietLibraries && LogLevel.debug.severity < level.severity then some .warning
      else none
    handlers := consoleHandler level ::
      (if file then [⟨.file, own, .detailed, some dateTemplate⟩] else []) }

/-- The lines that a handler makes of records. -/
def Handler.lines (h : Handler) (s : Setup) (time : String) (records : List LogRecord) :
    List String :=
  (records.filter fun r => s.level.admits r.level && h.level.admits r.level).map
    (h.format.line time)

end Log
end ModelTypes
