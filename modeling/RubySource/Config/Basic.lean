import RubySource.Charset.Decode
import RubySource.File.System
import RubySource.Value.Json

/-!
# Configuration

A configuration is a table of sections, and a section is a table of settings.  It may be edited
freely, so what stands in the place of a section can be anything: what does not count as given is
read as an empty section, and anything else that is no table is an error.

## What is here

* `ConfigError` — why a configuration is not read or changed, and the wording.
* `Config.standard` — the settings that hold when nothing else is said.
* `Config.sectionOf`, `Config.setting` — sections and settings.
* `Config.sourceEncoding`, `Config.grammarKey` — the two settings that reading source depends on.
* `Config.assign` — the change of one setting.
-/

set_option autoImplicit false

namespace RubySource

/-- Why a configuration is not read or changed. -/
inductive ConfigError
  /-- A value of a type that cannot do what is asked of it. -/
  | lacks (typeName property : String)
  | noSection (name : String)
  /-- A value of a type that has no keys. -/
  | notIndexed (typeName : String)
  /-- A value of a type whose parts cannot be set. -/
  | notAssignable (typeName : String)
  /-- A value of a type that cannot be searched. -/
  | notSearchable (typeName : String)
  /-- A list, which is asked for a key. -/
  | listKey
  /-- A text, which is asked for a key. -/
  | textKey
  | undecodable (error : DecodeError)
  /-- A file of settings goes beyond a limit. -/
  | beyondLimit (error : JsonError)
  /-- A file of settings cannot be asked for. -/
  | file (error : FileError)
  deriving DecidableEq, Repr

/-- The wording of an error. -/
def ConfigError.message : ConfigError → String
  | .lacks typeName property => "'" ++ typeName ++ "' object has no attribute '" ++ property ++ "'"
  | .noSection name => quoted name
  | .notIndexed typeName => "'" ++ typeName ++ "' object is not subscriptable"
  | .notAssignable typeName => "'" ++ typeName ++ "' object does not support item assignment"
  | .notSearchable typeName => "argument of type '" ++ typeName ++ "' is not iterable"
  | .listKey => "list indices must be integers or slices, not str"
  | .textKey => "string indices must be integers, not 'str'"
  | .undecodable e => e.message
  | .beyondLimit e => e.message
  | .file e => e.message

namespace Config

/-- The settings that hold when nothing else is said. -/
def standardEntries : Entries :=
  [("parser", .table [("grammar", .text "ruby")]),
   ("source", .table [("encoding", .text "utf-8")]),
   ("logging", .table [("level", .text "WARNING"), ("file", .null)])]

/-- The configuration that holds when nothing else is said. -/
def standard : ConfigValue := .table standardEntries

/-- What stands at a key of a value that should be a table. -/
def get (config : ConfigValue) (key : String) : Except ConfigError ConfigValue :=
  match config with
  | .table entries => .ok (Value.getKey entries key)
  | v => .error (.lacks v.typeName "get")

/-- A section of a configuration. -/
def sectionOf (config : ConfigValue) (name : String) : Except ConfigError ConfigValue := do
  let v ← get config name
  .ok (v.orElse (.table []))

/-- A setting of a section; one that does not count as given is replaced. -/
def setting (config : ConfigValue) (sectionName name : String) (fallback : ConfigValue) :
    Except ConfigError ConfigValue := do
  let settings ← sectionOf config sectionName
  let v ← get settings name
  .ok (v.orElse fallback)

/-- The encoding that raw bytes and files are read in. -/
def sourceEncoding (config : ConfigValue) : Except ConfigError ConfigValue :=
  setting config "source" "encoding" (.text "utf-8")

/-- The key of the grammar. -/
def grammarKey (config : ConfigValue) : Except ConfigError ConfigValue :=
  setting config "parser" "grammar" (.text "ruby")

/-- A section with one setting changed. -/
def assignIn (settings : ConfigValue) (name : String) (value : ConfigValue) :
    Except ConfigError ConfigValue :=
  match settings with
  | .table entries => .ok (.table (Entries.put name value entries))
  | .list _ => .error .listKey
  | v => .error (.notAssignable v.typeName)

/-- A configuration with one setting of one section changed. -/
def assign (config : ConfigValue) (sectionName name : String) (value : ConfigValue) :
    Except ConfigError ConfigValue :=
  match config with
  | .table entries =>
    match Entries.find? entries sectionName with
    | some settings => do
      let changed ← assignIn settings name value
      .ok (.table (Entries.put sectionName changed entries))
    | none => .error (.noSection sectionName)
  | .list _ => .error .listKey
  | .text _ => .error .textKey
  | v => .error (.notIndexed v.typeName)

end Config
end RubySource
