import RubySource.Config.Merge
import RubySource.File.System
import RubySource.Text.Line

/-!
# Loading a configuration

Three layers make a configuration: the standard settings, the file in the user's folder, and the
file in the project's folder.  A file that is absent, is no JSON, or holds no table is no layer at
all.  A file that cannot be asked for, whose bytes are no UTF-8, or that goes beyond a limit of the
JSON reader, cannot be loaded.

The folder of a project is named by a string, so that folders whose names are no text are left out.

How deep the values in a file may be is up to the caller, because it takes the stack that the caller
has left, and more of it for the user's file than for the project's.

## What is here

* `Config.folderName`, `Config.fileName`, `Config.projectPath` — where the files are.
* `Config.Depths`, `Config.Found` — the greatest depths, and what is found where a file of settings
  should be.
* `Config.layer` — the layer that a file makes.
* `Config.projectFile` — the file of a project that is given by its folder.
* `Config.loadGlobal`, `Config.load` — the configuration of a user, and of a project.
* `Config.loadFor` — the configuration of a project that is given by its folder, or of a user.
-/

set_option autoImplicit false

namespace RubySource
namespace Config

/-- The folder that the settings are kept in. -/
def folderName : String := ".rubysmell"

/-- The file that the settings are kept in. -/
def fileName : String := "config.json"

/-- The file of the settings within a folder. -/
def relativePath : String := folderName ++ "/" ++ fileName

/-- The file of the settings of a project. -/
def projectPath (root : String) : String :=
  FilePath.within root relativePath

/-- The greatest depth of the values in each of the two files. -/
structure Depths where
  user : Nat
  project : Nat

/-- What is found where a file of settings should be: its contents if there is one, or why it cannot
be asked for. -/
abbrev Found := Except FileError (Option Bytes)

/-- The layer that a text makes, if it makes one. -/
def layerOfText (depth : Nat) (text : List Char) : Except ConfigError (Option Entries) :=
  match Json.document depth text with
  | .ok (.table entries) => .ok (some entries)
  | .ok _ => .ok none
  | .error .malformed => .ok none
  | .error e => .error (.beyondLimit e)

/-- The layer that a file makes, if there is one and it makes a layer. -/
def layer (depth : Nat) : Found → Except ConfigError (Option Entries)
  | .error e => .error (.file e)
  | .ok none => .ok none
  | .ok (some bytes) =>
    match decodeUtf8 bytes with
    | .ok cs => layerOfText depth (Text.unifyNewlines cs)
    | .error e => .error (.undecodable e)

/-- Entries with a layer laid over them, if there is one. -/
def withLayer (base : Entries) : Option Entries → Entries
  | some entries => overlayEntries base entries
  | none => base

/-- The configuration of a user, from the file in the user's folder. -/
def loadGlobal (depth : Nat) (userFile : Found) : Except ConfigError ConfigValue := do
  let user ← layer depth userFile
  .ok (.table (withLayer standardEntries user))

/-- The configuration of a project, from both files. -/
def load (depths : Depths) (userFile projectFile : Found) : Except ConfigError ConfigValue := do
  let user ← layer depths.user userFile
  let project ← layer depths.project projectFile
  .ok (.table (withLayer (withLayer standardEntries user) project))

/-- The place of the settings of a project.  The name of the project's folder is settled first. -/
def settingsPlace (fs : FileSystem) (root : String) : FilePath.Place :=
  (FilePath.settle fs.working root).follow [folderName, fileName]

/-- What is found where the settings of a project should be.  A name that leads nowhere is no file,
but one that is too long cannot be asked for. -/
def projectFile (fs : FileSystem) (root : String) : Found :=
  if root.toList.contains '\x00' then .error ⟨.nul, quoted root⟩
  else
    match fs.locate (settingsPlace fs root) with
    | .ok (.file bytes) => .ok (some bytes)
    | .error .tooLong => .error ⟨.tooLong, (settingsPlace fs root).name.quoted⟩
    | _ => .ok none

/-- The configuration of a project, or of a user where no project is given. -/
def loadFor (depths : Depths) (fs : FileSystem) (userFile : Found) :
    Option String → Except ConfigError ConfigValue
  | none => loadGlobal depths.user userFile
  | some root => load depths userFile (projectFile fs root)

end Config
end RubySource
