import RubySource.File.Path

/-!
# Files and folders

The files and folders of a system, and a working folder among them.  A name is followed part by
part: each part but the last must be a folder, two dots lead to the folder above, and a slash at the
end asks for a folder.  A name that is too long, or comes to a part that is too long, is refused.
Every system has the folders above its working folder, and a few folders and the empty device.

There are no links from one place to another, and everything may be read and written.

## What is here

* `FileProblem`, `FileError` — why a file is not opened, and the wording.
* `FileSystem` — the files with their contents, and the folders.
* `FileSystem.find`, `FileSystem.locate` — the file or folder of a name, and the one at a place.
* `FileSystem.read`, `FileSystem.put`, `FileSystem.openLog` — contents, and opening a file to add to
  it.
-/

set_option autoImplicit false

namespace RubySource

/-- Why a file is not opened. -/
inductive FileProblem
  | missing
  | notFolder
  | isFolder
  | tooLong
  /-- The name holds a NUL. -/
  | nul
  /-- The name holds halves that stand for no byte. -/
  | strayHalves (error : EncodeError)
  deriving DecidableEq, Repr

/-- A problem with a file, and the file's name as it is shown. -/
structure FileError where
  problem : FileProblem
  shown : String
  deriving DecidableEq, Repr

/-- The wording of an error. -/
def FileError.message (e : FileError) : String :=
  match e.problem with
  | .missing => "[Errno 2] No such file or directory: " ++ e.shown
  | .notFolder => "[Errno 20] Not a directory: " ++ e.shown
  | .isFolder => "[Errno 21] Is a directory: " ++ e.shown
  | .tooLong => "[Errno 36] File name too long: " ++ e.shown
  | .nul => "embedded null byte"
  | .strayHalves error => error.message

/-- A file or a folder. -/
inductive FileEntry
  | file (bytes : Bytes)
  | folder
  deriving DecidableEq, Repr

/-- The files and folders of a system by their places, and the place of the working folder. -/
structure FileSystem where
  working : FilePath.Place
  files : List (FilePath.Place × Bytes)
  folders : List FilePath.Place

namespace FileSystem

open FilePath

/-- The greatest number of bytes in a part of a name. -/
def partLimit : Nat := 255

/-- The greatest number of bytes in a name. -/
def nameLimit : Nat := 4095

/-- A working folder with nothing in it. -/
def empty : FileSystem := ⟨⟨["work"]⟩, [], []⟩

/-- What every system has. -/
def systemEntries : List (Place × FileEntry) :=
  [(⟨["dev"]⟩, .folder), (⟨["tmp"]⟩, .folder), (⟨["dev", "null"]⟩, .file [])]

/-- What stands at a place. -/
def lookup? (fs : FileSystem) (place : Place) : Option FileEntry :=
  if place.parts.isPrefixOf fs.working.parts then some .folder
  else
    match systemEntries.lookup place with
    | some entry => some entry
    | none =>
      match fs.files.lookup place with
      | some bytes => some (.file bytes)
      | none => if fs.folders.contains place then some .folder else none

/-- Follow the parts of a name from a place. -/
def follow (fs : FileSystem) (place : Place) (entry : FileEntry) :
    List LooseText → Except FileProblem FileEntry
  | [] => .ok entry
  | part :: rest =>
    match entry with
    | .file _ => .error .notFolder
    | .folder =>
      if part.size > partLimit then .error .tooLong
      else
        match fs.lookup? (place.next part) with
        | some next => fs.follow (place.next part) next rest
        | none => .error .missing

/-- The place that a name is followed from. -/
def start (fs : FileSystem) (name : String) : Place :=
  if isAbsolute name then .root else fs.working

/-- The file or folder of a name. -/
def find (fs : FileSystem) (name : String) : Except FileProblem FileEntry :=
  if name.toList.contains '\x00' then .error .nul
  else if name.isEmpty then .error .missing
  else if name.utf8ByteSize > nameLimit then .error .tooLong
  else fs.follow (fs.start name) .folder (looseParts name)

/-- The file or folder at a place, which is asked for by its name from the root on. -/
def locate (fs : FileSystem) (place : Place) : Except FileProblem FileEntry :=
  if place.name.size > nameLimit then .error .tooLong
  else fs.follow .root .folder place.parts

/-- The contents of the file of a name. -/
def read (fs : FileSystem) (name : String) : Except FileProblem Bytes :=
  match fs.find name with
  | .ok (.file bytes) => .ok bytes
  | .ok .folder => .error .isFolder
  | .error e => .error e

/-- Put in a folder and those above it. -/
def addFolder (fs : FileSystem) (place : Place) : FileSystem :=
  { fs with folders := fs.folders ++
      (List.range place.parts.length).map fun i => ⟨place.parts.take (i + 1)⟩ }

/-- Set the contents of a file, and put in the folders above it. -/
def put (fs : FileSystem) (place : Place) (bytes : Bytes) : FileSystem :=
  let fs := fs.addFolder place.parent
  { fs with files := (fs.files.filter fun f => f.1 != place) ++ [(place, bytes)] }

/-- Open the file at a place to add to it; it is made if there is none. -/
def openAt (fs : FileSystem) (place : Place) : Except FileProblem (Place × FileSystem) :=
  match fs.locate place with
  | .ok .folder => .error .isFolder
  | .ok (.file _) => .ok (place, fs)
  | .error .missing =>
    match fs.locate place.parent with
    | .ok .folder => .ok (place, fs.put place [])
    | _ => .error .missing
  | .error e => .error e

/-- The characters and halves of the name that a log file is opened by.  The name is settled first;
two slashes at its start stay two. -/
def logName (fs : FileSystem) (name : LooseText) : List LooseText.Point :=
  (if root name.front = "//" then [.char '/'] else []) ++ (settle fs.working name).points

/-- The place of a file that is opened to add to it, and the files with it among them. -/
def openLog (fs : FileSystem) (name : LooseText) : Except FileProblem (Place × FileSystem) :=
  match LooseText.strayHalvesFrom? (fun h => h.byte?.isNone) 0 (fs.logName name) with
  | some e => .error (.strayHalves e)
  | none =>
    if (fs.logName name).contains (.char '\x00') then .error .nul
    else if (LooseText.ofPoints (fs.logName name)).size > nameLimit then .error .tooLong
    else fs.openAt ⟨(settle fs.working name).parts.map LooseText.fileName⟩

/-- Add to the end of a file; what is added to the empty device is not kept. -/
def append (fs : FileSystem) (place : Place) (bytes : Bytes) : FileSystem :=
  { fs with files := fs.files.map fun f => if f.1 = place then (f.1, f.2 ++ bytes) else f }

end FileSystem
end RubySource
