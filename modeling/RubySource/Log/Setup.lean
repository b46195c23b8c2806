import RubySource.Config.Load
import RubySource.Log.Family
import RubySource.Log.Level

/-!
# The log

One logger collects the records of the program and of its parts.  Setting it up gives it a level, by
two switches or by the configuration, and the first time also its destinations: the console, and a
file if the configuration names one.  Later calls change the level alone.

A record that no destination takes, because there is none or because its logger does not descend
from this one, is not lost if it is a warning or more: its bare message goes to the console.

Whether records of a level count on a logger is decided once and then remembered, until a level is
set.

A call may fail midway.  What it has done by then stays: a level is set before the destinations, and
the console comes before the file.  A log file that cannot be opened is no failure but a warning,
in which the halves in its name are shown by their numbers.

## What is here

* `Log.Destination`, `Log.Record`, `Log` — where records go, records, and the logger with what it
  has written.
* `Log.deliver`, `Log.emit` — hand on a record, and make one.
* `LogError` — why a set-up fails, and the wording.
* `Log.setUp`, `Log.setUpFor` — the set-up, by a configuration or by that of the user.
* `Log.clear` — the destinations taken away.
-/

set_option autoImplicit false

namespace RubySource

/-- Where records go. -/
inductive Log.Destination
  | console
  | file (place : FilePath.Place)
  deriving DecidableEq, Repr

/-- The word for a destination. -/
def Log.Destination.label : Log.Destination → String
  | .console => "StreamHandler"
  | .file _ => "FileHandler"

/-- A record, with the name of the logger that it is made on. -/
structure Log.Record where
  logger : String
  level : Nat
  message : String
  deriving DecidableEq, Repr

/-- A record as a line of the log. -/
def Log.Record.line (time : String) (r : Log.Record) : String :=
  time ++ " " ++ LogLevel.name r.level ++ " [" ++ r.logger ++ "] " ++ r.message ++ "\n"

/-- Whether records of a level count on a logger. -/
structure Log.Decision where
  logger : String
  level : Nat
  counts : Bool
  deriving DecidableEq, Repr

/-- The logger: its level and destinations, and all that was written. -/
structure Log where
  level : Nat
  destinations : List Log.Destination
  console : String
  files : FileSystem
  family : LoggerFamily
  /-- The decisions made since a level was set. -/
  decisions : List Log.Decision
  /-- The records made on the logger itself that count at its level. -/
  own : List Log.Record

/-- Why a set-up fails. -/
inductive LogError
  | config (error : ConfigError)
  /-- The word for the level stands for something else. -/
  | unknownLevel (what : LogLevel.Other)
  /-- The name of the log file is none. -/
  | noFileName (typeName : String)
  /-- The name of the log file holds a NUL. -/
  | nul
  /-- The name of the log file holds halves that stand for no byte. -/
  | strayHalves (error : EncodeError)
  deriving DecidableEq, Repr

/-- The wording of an error. -/
def LogError.message : LogError → String
  | .config e => e.message
  | .unknownLevel (.text s) => "Unknown level: " ++ quoted s
  | .unknownLevel (.table shown) => "Level not an integer or a valid string: " ++ shown
  | .noFileName typeName => "expected str, bytes or os.PathLike object, not " ++ typeName
  | .nul => "embedded null byte"
  | .strayHalves e => e.message

namespace Log

/-- The name of the logger. -/
def rootName : String := "rubysmell"

/-- The name of the logger of the part that builds trees. -/
def treeLogger : String := rootName ++ ".source.source_code"

/-- A logger that is not set up, in a working folder.  One part of the program has its logger from
the start. -/
def start (files : FileSystem) : Log where
  level := 0
  destinations := []
  console := ""
  files := files
  family := (LoggerFamily.empty.make treeLogger).make rootName
  decisions := []
  own := []

/-! ## Records -/

/-- Write a line to a destination. -/
def write (line : String) (log : Log) : Destination → Log
  | .console => { log with console := log.console ++ line }
  | .file place => { log with files := log.files.append place (Utf8.ofString line) }

/-- Whether the records of a logger come to this one. -/
def hears (log : Log) (logger : String) : Bool := log.family.isWithin rootName logger

/-- The level from which on the records of a logger count. -/
def threshold (log : Log) (logger : String) : Nat :=
  if log.hears logger then LogLevel.effective log.level else LogLevel.warning

/-- Whether records of a level count on a logger: as it was decided, or else by the threshold. -/
def counts (log : Log) (logger : String) (level : Nat) : Bool :=
  match log.decisions.find? fun d => d.logger == logger && d.level == level with
  | some d => d.counts
  | none => log.threshold logger ≤ level

/-- The log with a decision remembered. -/
def deciding (log : Log) (logger : String) (level : Nat) : Log :=
  { log with decisions := ⟨logger, level, log.counts logger level⟩ :: log.decisions }

/-- Hand a record that counts to the destinations, or to the console if there are none for it. -/
def deliver (time : String) (log : Log) (r : Record) : Log :=
  if log.hears r.logger && !log.destinations.isEmpty then
    log.destinations.foldl (write (r.line time)) log
  else if LogLevel.warning ≤ r.level then write (r.message ++ "\n") log .console
  else log

/-- A record noted, if it is made on the logger itself. -/
def noting (log : Log) (r : Record) : Log :=
  if r.logger = rootName then { log with own := log.own ++ [r] } else log

/-- Make a record; its logger is made if it was not there. -/
def emit (time : String) (log : Log) (r : Record) : Log :=
  let known := { log with family := log.family.make r.logger }
  let decided := known.deciding r.logger r.level
  if known.counts r.logger r.level then deliver time (decided.noting r) r else decided

/-- Set the level. -/
def setLevel (log : Log) (level : Nat) : Log := { log with level := level, decisions := [] }

/-! ## Set-up -/

/-- The level that a set-up asks for. -/
def wantedLevel (settings : ConfigValue) (verbose quiet : Bool) : Except LogError Nat :=
  if verbose then .ok LogLevel.debug
  else if quiet then .ok LogLevel.error
  else
    match Config.get settings "level" with
    | .error e => .error (.config e)
    | .ok v =>
      match v.orElse (.text "WARNING") with
      | .text word =>
        match LogLevel.named word with
        | .level level => .ok level
        | .other what => .error (.unknownLevel what)
      | other => .error (.config (.lacks other.typeName "upper"))

/-- Add the log file that the settings name, if they name one. -/
def addFile (time : String) (settings : ConfigValue) (log : Log) : Except LogError Unit × Log :=
  match Config.get settings "file" with
  | .error e => (.error (.config e), log)
  | .ok v =>
    if v.isTruthy then
      match v with
      | .text name =>
        match log.files.openLog name with
        | .ok (place, files) =>
          (.ok (), { log with
            files := files, destinations := log.destinations ++ [.file place] })
        | .error .nul => (.error .nul, log)
        | .error (.strayHalves e) => (.error (.strayHalves e), log)
        | .error _ =>
          (.ok (), log.emit time ⟨rootName, LogLevel.warning,
            "Cannot open log file " ++ name.shown ++ "; logging to stderr only"⟩)
      | other => (.error (.noFileName other.typeName), log)
    else (.ok (), log)

/-- Set the logger up. -/
def setUp (time : String) (config : ConfigValue) (verbose quiet : Bool) (log : Log) :
    Except LogError Unit × Log :=
  match Config.sectionOf config "logging" with
  | .error e => (.error (.config e), log)
  | .ok settings =>
    match wantedLevel settings verbose quiet with
    | .error e => (.error e, log)
    | .ok level =>
      let log := log.setLevel level
      if log.destinations.isEmpty then
        addFile time settings { log with destinations := [.console] }
      else (.ok (), log)

/-- Set the logger up; where no configuration is given, by the one of the user. -/
def setUpFor (time : String) (depth : Nat) (userFile : Config.Found) (config : Option ConfigValue)
    (verbose quiet : Bool) (log : Log) : Except LogError Unit × Log :=
  match config with
  | some config => setUp time config verbose quiet log
  | none =>
    match Config.loadGlobal depth userFile with
    | .ok config => setUp time config verbose quiet log
    | .error e => (.error (.config e), log)

/-- Take the destinations away. -/
def clear (log : Log) : Log := { log with destinations := [] }

end Log
end RubySource
