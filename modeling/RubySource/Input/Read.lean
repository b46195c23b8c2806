import RubySource.Input.Object

/-!
# Reading source from an object

An object without a route is given one by what it is: a text is the source itself, the name of a
file is read from that file, a handle that tells the name of a file is read as that file, and any
other handle line by line.  A name that starts with `<` is the made-up name of a stream.

Reading gives the source and its origin.  Raw bytes are decoded in the configured encoding, each
chunk alone; files read by name are decoded as a whole, and their line ends are unified.  Of all
encodings only those in `Charset` are read, and any other one is answered as unknown.

## What is here

* `Handle.isNamedFile`, `classify` — the route of an object.
* `charset` — the character set of a configured encoding.
* `decodeChunk`, `readTextFile` — the two ways of decoding.
* `Route.read` — the source of an object, and where it is from.
-/

set_option autoImplicit false

namespace RubySource

/-- The name of a file that a handle tells, if it tells one. -/
def HandleName.fileName? : HandleName → Option String
  | .chunk (.value (.text name)) => some name
  | .chunk _ => none
  | .path name => some name

/-- Whether a handle can be read as the file that it tells the name of. -/
def Handle.isNamedFile (h : Handle) : Bool :=
  h.read.isSome &&
    match h.name.bind HandleName.fileName? with
    | some name => name.toList.head? ≠ some '<'
    | none => false

/-- The route of an object, and the object to be read by it. -/
def classify : SourceObject → Except InputError (Route × SourceObject)
  | .routed route object => .ok (route, object)
  | .chunk (.value (.text s)) => .ok (.text, .chunk (.value (.text s)))
  | .path name => .ok (.path, .path name)
  | .handle h =>
    if h.isNamedFile then .ok (.file, .handle h)
    else if h.readLines.isSome then .ok (.stream, .handle h)
    else .error (.unreadable h.typeName)
  | object => .error (.unreadable object.typeName)

/-! ## Decoding -/

/-- The name of a configured encoding. -/
def encodingName (opening : Bool) : ConfigValue → Except InputError String
  | .text name =>
    match name.strayHalves? fun _ => true with
    | some e => .error (.encodingHalves e)
    | none =>
      if name.front.toList.contains '\x00' then .error .encodingNul else .ok name.front
  | v => .error (.encodingType opening v.typeName)

/-- The character set of a name.  A name that is not among those of the seven sets is unknown. -/
def charset (name : String) : Except InputError Charset :=
  match Charset.ofName? name with
  | some c => .ok c
  | none => .error (.unknownEncoding name)

/-- The text of a chunk.  What is no raw bytes stays as it is, and for no bytes at all the name of
the encoding is not looked up. -/
def decodeChunk (encoding : ConfigValue) : Chunk → Except InputError Chunk
  | .value v => .ok (.value v)
  | .bytes b => do
    let name ← encodingName false encoding
    if b.isEmpty then .ok (.ofText [])
    else
      let c ← charset name
      match c.decode b with
      | .ok cs => .ok (.ofText cs)
      | .error e => .error (.text (.undecodable e))

/-- The texts of chunks put together; each of them has to be a text. -/
def joinChunks (index : Nat) : List Chunk → Except InputError (List Char)
  | [] => .ok []
  | .value (.text s) :: rest => do
    let cs ← joinChunks (index + 1) rest
    .ok (s.toList ++ cs)
  | c :: _ => .error (.noTextLine index c.typeName)

/-- The text of the file of a name. -/
def readTextFile (fs : FileSystem) (name : String) (encoding : ConfigValue) :
    Except InputError (List Char) := do
  let encodingName ← encodingName true encoding
  match fs.read name with
  | .error problem => .error (.file ⟨problem, quoted name⟩)
  | .ok bytes =>
    let c ← charset encodingName
    match c.decodeFile bytes with
    | .ok cs => .ok (Text.unifyNewlines cs)
    | .error e => .error (.text e)

/-! ## Reading -/

/-- What is read from an object: the source, and where it is from. -/
structure Reading where
  text : SourceObject
  origin : Chunk

/-- A text as an origin. -/
def originOf (s : String) : Chunk := .value (.text s)

/-- Read all of a handle, and ask for its name. -/
def Handle.readAsFile (encoding : ConfigValue) (h : Handle) : Except InputError Reading :=
  match h.read with
  | none => .error (.lacks h.fullTypeName "read")
  | some (.error e) => .error (.text (.undecodable e))
  | some (.ok data) => do
    let text ← decodeChunk encoding data
    match h.name with
    | none => .error (.lacks h.fullTypeName "name")
    | some (.path name) => .ok ⟨.chunk text, originOf name⟩
    | some (.chunk (.value (.text name))) => .ok ⟨.chunk text, originOf name⟩
    | some (.chunk (.bytes name)) => .ok ⟨.chunk text, .bytes name⟩
    | some (.chunk c) => .error (.noFileName c.typeName)

/-- Read a handle line by line. -/
def Handle.readAsStream (encoding : ConfigValue) (h : Handle) : Except InputError Reading :=
  match h.readLines with
  | none => .error (.lacks h.fullTypeName "readlines")
  | some (.error e) => .error (.text (.undecodable e))
  | some (.ok lines) => do
    let texts ← lines.mapM (decodeChunk encoding)
    let cs ← joinChunks 0 texts
    .ok ⟨.chunk (.ofText cs), originOf "STDIN"⟩

/-- Read the file that a plain value names. -/
def Chunk.readAsName (fs : FileSystem) (encoding : ConfigValue) : Chunk → Except InputError Reading
  | .value (.text name) => do
    let cs ← readTextFile fs (FilePath.plain name) encoding
    .ok ⟨.chunk (.ofText cs), originOf name⟩
  | .bytes _ => .error .rawFileName
  | .value v => .error (.noFileName v.typeName)

/-- The source of an object that is read by a route, and where it is from.  An object with a route
of its own can be read all at once, but it tells no name and has no lines. -/
def Route.read (fs : FileSystem) (encoding : ConfigValue) :
    Route → SourceObject → Except InputError Reading
  | .text, object => .ok ⟨object, originOf "string"⟩
  | .file, .handle h => h.readAsFile encoding
  | .stream, .handle h => h.readAsStream encoding
  | .path, .path name => do
    let cs ← readTextFile fs name encoding
    .ok ⟨.chunk (.ofText cs), originOf name⟩
  | .path, .chunk c => c.readAsName fs encoding
  | .path, object => .error (.noFileName object.typeName)
  | .file, .routed inner object => do
    let _ ← inner.read fs (.text "utf-8") object
    .error (.lacks inner.label "name")
  | .file, object => .error (.lacks object.fullTypeName "read")
  | .stream, object => .error (.lacks object.fullTypeName "readlines")

end RubySource
