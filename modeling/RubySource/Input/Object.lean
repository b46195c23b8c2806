import RubySource.File.System
import RubySource.Input.TextStream
import RubySource.Value.Text

/-!
# Objects that source may come from

Source is handed over as a text, the name of a file, an open handle, or anything else that a caller
may try.  A handle can do some of three things: tell a name, read all at once, read line by line.

An object may also come with the *route* by which it is to be read.

## What is here

* `Chunk` — what reading gives: a plain value, a text above all, or raw bytes.
* `HandleName`, `Handle` — handles and what they can do.
* `Route`, `SourceObject` — objects, with or without their route.
* `InputError` — why an object is not read, and the wording.
* `Handle.ofText`, `Handle.ofBytes`, `Handle.open` — handles on a text, on bytes, and on a file.
-/

set_option autoImplicit false

namespace RubySource

/-- Something read: a plain value, or raw bytes. -/
inductive Chunk
  | value (v : Value String)
  | bytes (b : Bytes)
  deriving Inhabited

/-- A text as something read. -/
def Chunk.ofText (cs : List Char) : Chunk := .value (.text (String.ofList cs))

/-- The word for the type of something read. -/
def Chunk.typeName : Chunk → String
  | .value v => v.typeName
  | .bytes _ => "bytes"

/-- Something read, as it is written into messages: texts and raw bytes in quotes. -/
def Chunk.written : Chunk → String
  | .value v => v.written
  | .bytes b => String.ofList (Text.quotedBytes b)

/-- Something read, as a message of its own: a text stands for itself. -/
def Chunk.shown : Chunk → String
  | .value (.text s) => s
  | c => c.written

/-- What a handle tells as its name. -/
inductive HandleName
  | chunk (c : Chunk)
  /-- The name of a file, in plain form. -/
  | path (name : String)
  deriving Inhabited

/-- Why source is not read from an object. -/
inductive InputError
  /-- The object is nothing to read from. -/
  | unreadable (typeName : String)
  /-- The object cannot do what its route asks for. -/
  | lacks (typeName property : String)
  /-- The object is no name of a file. -/
  | noFileName (typeName : String)
  /-- Raw bytes stand where the name of a file should. -/
  | rawFileName
  /-- A line is no text. -/
  | noTextLine (index : Nat) (typeName : String)
  /-- The encoding is not given by a name. -/
  | encodingType (opening : Bool) (typeName : String)
  /-- The name of the encoding holds a NUL. -/
  | encodingNul
  /-- The name of the encoding holds halves. -/
  | encodingHalves (error : EncodeError)
  | unknownEncoding (name : String)
  | text (error : FileTextError)
  | file (error : FileError)

/-- The wording of an error. -/
def InputError.message : InputError → String
  | .unreadable typeName => "Cannot read source code from " ++ quoted typeName
  | .lacks typeName property => "'" ++ typeName ++ "' object has no attribute '" ++ property ++ "'"
  | .noFileName typeName => "expected str, bytes or os.PathLike object, not " ++ typeName
  | .rawFileName =>
    "argument should be a str object or an os.PathLike object returning str, not <class 'bytes'>"
  | .noTextLine index typeName =>
    "sequence item " ++ toString index ++ ": expected str instance, " ++ typeName ++ " found"
  | .encodingType opening typeName =>
    if opening then "open() argument 'encoding' must be str or None, not " ++ typeName
    else "decode() argument 'encoding' must be str, not "
      ++ (if typeName = "NoneType" then "None" else typeName)
  | .encodingNul => "embedded null character"
  | .encodingHalves e => e.message
  | .unknownEncoding name => "unknown encoding: " ++ name
  | .text (.undecodable e) => e.message
  | .text .unmarked => "UTF-16 stream does not start with BOM"
  | .file e => e.message

/-- An open handle: the word for its type, short and in full, and what it can do. -/
structure Handle where
  typeName : String
  fullTypeName : String
  name : Option HandleName
  read : Option (Except DecodeError Chunk)
  readLines : Option (Except DecodeError (List Chunk))

/-- How source is read. -/
inductive Route
  /-- From a handle on a named file. -/
  | file
  /-- Line by line from a handle. -/
  | stream
  /-- From the file of a name. -/
  | path
  /-- The object is the source. -/
  | text
  deriving DecidableEq, Repr

/-- The word for a route. -/
def Route.label : Route → String
  | .file => "FileSource"
  | .stream => "StreamSource"
  | .path => "PathSource"
  | .text => "TextSource"

/-- The route that a word stands for. -/
def Route.ofLabel? (word : String) : Option Route :=
  [Route.file, Route.stream, Route.path, Route.text].find? (·.label == word)

/-- An object that source may come from. -/
inductive SourceObject
  | chunk (c : Chunk)
  /-- The name of a file, in plain form. -/
  | path (name : String)
  | handle (h : Handle)
  /-- An object with the route by which it is to be read. -/
  | routed (route : Route) (object : SourceObject)

namespace SourceObject

/-- The word for the type of an object. -/
def typeName : SourceObject → String
  | .chunk c => c.typeName
  | .path _ => "PosixPath"
  | .handle h => h.typeName
  | .routed route _ => route.label

/-- The word for the type of an object, in full. -/
def fullTypeName : SourceObject → String
  | .handle h => h.fullTypeName
  | object => object.typeName

end SourceObject

namespace Handle

/-- A handle on a text. -/
def ofText (text : String) : Handle where
  typeName := "StringIO"
  fullTypeName := "_io.StringIO"
  name := none
  read := some (.ok (.value (.text text)))
  readLines := some (.ok [.value (.text text)])

/-- A handle on raw bytes. -/
def ofBytes (bytes : Bytes) : Handle where
  typeName := "BytesIO"
  fullTypeName := "_io.BytesIO"
  name := none
  read := some (.ok (.bytes bytes))
  readLines := some (.ok ((Text.splitAfterNewline bytes).map .bytes))

/-- What a file is opened by: its name, the raw bytes of its name, or a number. -/
inductive Opener
  | name
  | rawName
  | number
  deriving DecidableEq, Repr

/-- The number of a file that is opened by number: the first one behind the three standard ones. -/
def fileNumber : Nat := 3

/-- What a handle tells as its name, by what the file was opened by. -/
def Opener.told (opener : Opener) (name : String) : HandleName :=
  match opener with
  | .name => .chunk (.value (.text name))
  | .rawName => .chunk (.bytes (Utf8.ofString name))
  | .number => .chunk (.value (.int fileNumber))

/-- A name as it is shown in an error, by what the file was opened by.  A folder that is opened by
number is refused only after that, and is known by the number then. -/
def Opener.shown (opener : Opener) (name : String) (problem : FileProblem) : String :=
  match opener, problem with
  | .rawName, _ => String.ofList (Text.quotedBytes (Utf8.ofString name))
  | .number, .isFolder => toString fileNumber
  | _, _ => quoted name

/-- A handle on a file, of which some characters or bytes have been read. -/
def «open» (fs : FileSystem) (name : String) (raw : Bool) (opener : Opener) (skip : Nat) :
    Except InputError Handle :=
  match fs.read name with
  | .error problem => .error (.file ⟨problem, opener.shown name problem⟩)
  | .ok bytes =>
    if raw then
      let rest := bytes.drop skip
      .ok { typeName := "BufferedReader"
            fullTypeName := "_io.BufferedReader"
            name := some (opener.told name)
            read := some (.ok (.bytes rest))
            readLines := some (.ok ((Text.splitAfterNewline rest).map .bytes)) }
    else
      match (TextStream.ofBytes bytes).skip skip with
      | .error e => .error (.text (.undecodable e))
      | .ok s =>
        .ok { typeName := "TextIOWrapper"
              fullTypeName := "_io.TextIOWrapper"
              name := some (opener.told name)
              read := some (s.readAll.map .ofText)
              readLines := some (s.readLines.map fun cs => [.ofText cs]) }

end Handle
end RubySource
