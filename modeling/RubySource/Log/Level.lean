import RubySource.Text.Loose

/-!
# Levels

The weight of a log record is a number; the common ones have names.  A configured level is looked up
by its upper-case form among the words that the logging system knows.  All but two of them name a
number: `BASIC_FORMAT` is the standard layout of records and `_STYLES` the table of the ways to
write a layout, and neither is a level.

## What is here

* `LogLevel.names`, `LogLevel.name` — the names, and the name of a number.
* `LogLevel.Other`, `LogLevel.others` — what is known under a word and is no level.
* `LogLevel.Named`, `LogLevel.named` — what a configured level stands for.
* `LogLevel.effective` — the level that counts where none is set.
-/

set_option autoImplicit false

namespace RubySource
namespace LogLevel

def debug : Nat := 10

def info : Nat := 20

def warning : Nat := 30

def error : Nat := 40

def critical : Nat := 50

/-- The names of levels, in upper case. -/
def names : List (LooseText × Nat) :=
  [("CRITICAL", critical), ("FATAL", critical), ("ERROR", error), ("WARN", warning),
   ("WARNING", warning), ("INFO", info), ("DEBUG", debug), ("NOTSET", 0)]

/-- The name of a number. -/
def name (level : Nat) : String :=
  ([(critical, "CRITICAL"), (error, "ERROR"), (warning, "WARNING"), (info, "INFO"),
    (debug, "DEBUG"), (0, "NOTSET")].lookup level).getD ("Level " ++ toString level)

/-- The standard layout of records. -/
def basicFormat : String := "%(levelname)s:%(name)s:%(message)s"

/-- The table of the ways to write a layout, as it is shown. -/
def shownStyles : String :=
  "\x7b'%': (<class 'logging.PercentStyle'>, '" ++ basicFormat
    ++ "'), '\x7b': (<class 'logging.StrFormatStyle'>, "
    ++ "'\x7blevelname\x7d:\x7bname\x7d:\x7bmessage\x7d'), "
    ++ "'$': (<class 'logging.StringTemplateStyle'>, "
    ++ "'$\x7blevelname\x7d:$\x7bname\x7d:$\x7bmessage\x7d')\x7d"

/-- What is known under a word and is no level. -/
inductive Other
  | text (s : String)
  /-- A table, by how it is shown. -/
  | table (shown : String)
  deriving DecidableEq, Repr

/-- The words that are known and name no level. -/
def others : List (LooseText × Other) :=
  [("BASIC_FORMAT", .text basicFormat), ("_STYLES", .table shownStyles)]

/-- What a configured level stands for. -/
inductive Named
  | level (level : Nat)
  | other (what : Other)
  deriving DecidableEq, Repr

/-- What a configured level stands for; a word that is not known stands for the level of
warnings. -/
def named (word : LooseText) : Named :=
  let word := word.upper
  match others.lookup word with
  | some what => .other what
  | none => .level ((names.lookup word).getD warning)

/-- The level that counts: where none is set, that of warnings. -/
def effective (level : Nat) : Nat :=
  if level = 0 then warning else level

end LogLevel
end RubySource
