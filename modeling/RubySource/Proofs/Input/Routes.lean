import RubySource.Input.Read
import RubySource.Proofs.File.Plain
import RubySource.Proofs.Input.TextStream

/-!
# A file's code by every route

A file may be handed over by its name, as a handle that gives text, or as a handle that gives raw
bytes.  All of them lead to the same code, up to the line ends that only raw bytes keep.  What they
tell as the origin depends on the first character of the name: a handle on a file whose name starts
with `<` is read as a stream, also where the name does not end with `>`.

## What is here

* `decodeChunk_encode`, `exists_decoded_lines` — the bytes of a text are decoded as that text, as a
  whole or line by line.
* `readTextFile_eq` — what is read of a UTF-8 file by its name.
* `IsRead` — the route of an object, and what is read by it.
* `ReadsAs`, `Handle.readsAs` — how a handle is read, by the name that it tells.
* `same_code_by_every_route` — **a file's code is the same by every route**, and which origin is
  told.
* `Angled.taken_for_stream` — a name that only starts like that of a stream.
-/

set_option autoImplicit false

namespace RubySource

/-! ## Decoding UTF-8 -/

theorem charset_utf8 : charset "utf-8" = .ok .utf8 := by
  have hname : Charset.ofName? "utf-8" = some .utf8 := by decide
  rw [charset, hname]

theorem encodingName_utf8 (opening : Bool) : encodingName opening (.text "utf-8") = .ok "utf-8" :=
  rfl

theorem decode_utf8_encode (cs : List Char) : Charset.utf8.decode (Utf8.encode cs) = .ok cs :=
  decodeUtf8_eq_ok_iff.2 rfl

theorem decodeChunk_encode (cs : List Char) :
    decodeChunk (.text "utf-8") (.bytes (Utf8.encode cs)) = .ok (.ofText cs) := by
  by_cases hempty : (Utf8.encode cs).isEmpty = true
  · have hdecode := decode_utf8_encode cs
    rw [List.isEmpty_iff.1 hempty] at hdecode
    obtain rfl := Except.ok.inj hdecode
    rfl
  · simp [decodeChunk, encodingName_utf8, hempty, charset_utf8, decode_utf8_encode, bind,
      Except.bind]

theorem mapM_decodeChunk_encode (texts : List (List Char)) :
    ((texts.map Utf8.encode).map Chunk.bytes).mapM (decodeChunk (.text "utf-8"))
      = .ok (texts.map Chunk.ofText) := by
  induction texts with
  | nil => rfl
  | cons text texts ih =>
    rw [List.map_cons, List.map_cons, List.mapM_cons, decodeChunk_encode, ih]
    rfl

theorem joinChunks_ofText (index : Nat) (texts : List (List Char)) :
    joinChunks index (texts.map Chunk.ofText) = .ok texts.flatten := by
  induction texts generalizing index with
  | nil => rfl
  | cons text texts ih =>
    rw [List.map_cons, Chunk.ofText, joinChunks, ih]
    show Except.ok ((String.ofList text).toList ++ texts.flatten) = _
    rw [String.toList_ofList]
    rfl

/-- The lines of a text's bytes are decoded one by one, and are the text together. -/
theorem exists_decoded_lines (cs : List Char) :
    ∃ texts, ((Text.splitAfterNewline (Utf8.encode cs)).map Chunk.bytes).mapM
        (decodeChunk (.text "utf-8")) = .ok texts ∧ joinChunks 0 texts = .ok cs := by
  obtain ⟨texts, rfl, hlines⟩ := Utf8.exists_lines_encode cs
  refine ⟨texts.map Chunk.ofText, ?_, joinChunks_ofText 0 texts⟩
  rw [hlines, mapM_decodeChunk_encode]

/-- A UTF-8 file is read by its name with its line ends unified. -/
theorem readTextFile_eq {fs : FileSystem} {name : String} {content : List Char}
    (h : fs.read name = .ok (Utf8.encode content)) :
    readTextFile fs name (.text "utf-8") = .ok (Text.unifyNewlines content) := by
  have hfile : Charset.utf8.decodeFile (Utf8.encode content) = .ok content := by
    simp [Charset.decodeFile, decode_utf8_encode]
  simp [readTextFile, encodingName_utf8, h, charset_utf8, hfile, bind, Except.bind]

/-! ## Objects and their routes -/

/-- An object is read in UTF-8 by a route, and gives a code and its origin. -/
def IsRead (fs : FileSystem) (object : SourceObject) (route : Route) (code : List Char)
    (origin : String) : Prop :=
  ∃ inner, classify object = .ok (route, inner) ∧
    route.read fs (.text "utf-8") inner = .ok ⟨.chunk (.ofText code), originOf origin⟩

/-- There is one route for an object. -/
theorem IsRead.route_eq {fs : FileSystem} {object : SourceObject} {r₁ r₂ : Route}
    {code₁ code₂ : List Char} {origin₁ origin₂ : String} (h₁ : IsRead fs object r₁ code₁ origin₁)
    (h₂ : IsRead fs object r₂ code₂ origin₂) : r₁ = r₂ := by
  obtain ⟨_, hclass₁, -⟩ := h₁
  obtain ⟨_, hclass₂, -⟩ := h₂
  rw [hclass₁] at hclass₂
  exact (Prod.mk.inj (Except.ok.inj hclass₂)).1

/-- How a handle on a file is read.  A name that starts with `<` is taken for that of a stream,
whatever else is in it, and then the origin does not tell the name. -/
structure ReadsAs (fs : FileSystem) (name : String) (h : Handle) (code : List Char) : Prop where
  file : name.toList.head? ≠ some '<' → IsRead fs (.handle h) .file code name
  stream : name.toList.head? = some '<' → IsRead fs (.handle h) .stream code "STDIN"

/-- A handle is read as a code if both ways of reading it give that code. -/
theorem Handle.readsAs {fs : FileSystem} {name : String} {h : Handle} {code : List Char}
    {data : Chunk} {lines texts : List Chunk}
    (hname : h.name = some (.chunk (.value (.text name))))
    (hread : h.read = some (.ok data))
    (hdata : decodeChunk (.text "utf-8") data = .ok (.ofText code))
    (hlines : h.readLines = some (.ok lines))
    (htexts : lines.mapM (decodeChunk (.text "utf-8")) = .ok texts)
    (hjoin : joinChunks 0 texts = .ok code) : ReadsAs fs name h code := by
  have hnamed : h.isNamedFile = decide (name.toList.head? ≠ some '<') := by
    simp [Handle.isNamedFile, hread, hname, HandleName.fileName?]
  constructor
  · intro hhead
    refine ⟨.handle h, ?_, ?_⟩
    · simp [classify, hnamed, hhead]
    · simp [Route.read, Handle.readAsFile, hread, hdata, hname, bind, Except.bind]
  · intro hhead
    refine ⟨.handle h, ?_, ?_⟩
    · simp [classify, hnamed, hhead, hlines]
    · simp [Route.read, Handle.readAsStream, hlines, htexts, hjoin, bind, Except.bind]

section Routes

variable {fs : FileSystem} {name : String} {content : List Char}
  (h : fs.read name = .ok (Utf8.encode content))
include h

theorem isRead_path :
    IsRead fs (.path (FilePath.plain name)) .path (Text.unifyNewlines content)
      (FilePath.plain name) := by
  refine ⟨_, rfl, ?_⟩
  rw [Route.read, readTextFile_eq (FileSystem.read_plain h)]
  rfl

/-- A handle that gives text. -/
theorem exists_text_handle :
    ∃ handle, Handle.open fs name false .name 0 = .ok handle ∧
      ReadsAs fs name handle (Text.unifyNewlines content) := by
  have hstream := TextStream.holds_ofBytes content
  rw [Handle.open, h]
  simp only [TextStream.skip_zero, hstream.readAll_eq, hstream.readLines_eq]
  have hjoin : joinChunks 0 [Chunk.ofText (Text.unifyNewlines content)]
      = .ok (Text.unifyNewlines content) := by
    simpa using joinChunks_ofText 0 [Text.unifyNewlines content]
  exact ⟨_, rfl, Handle.readsAs rfl rfl rfl rfl rfl hjoin⟩

/-- A handle that gives raw bytes. -/
theorem exists_raw_handle :
    ∃ handle, Handle.open fs name true .name 0 = .ok handle ∧ ReadsAs fs name handle content := by
  obtain ⟨texts, htexts, hjoin⟩ := exists_decoded_lines content
  rw [Handle.open, h]
  exact ⟨_, rfl, Handle.readsAs rfl rfl (decodeChunk_encode content) rfl htexts hjoin⟩

end Routes

/-- By its name and by both kinds of handle a file gives the same code, but that raw bytes keep
their line ends. -/
structure SameCode (fs : FileSystem) (name : String) (content : List Char) : Prop where
  path : IsRead fs (.path (FilePath.plain name)) .path (Text.unifyNewlines content)
    (FilePath.plain name)
  text : ∃ handle, Handle.open fs name false .name 0 = .ok handle ∧
    ReadsAs fs name handle (Text.unifyNewlines content)
  raw : ∃ handle, Handle.open fs name true .name 0 = .ok handle ∧ ReadsAs fs name handle content

/-- **A file's code is the same by every route**, whatever its name and its text are.  A handle is
read as a file exactly where the name does not start with `<`, and only then the origin is the
name. -/
theorem same_code_by_every_route {fs : FileSystem} {name : String} {content : List Char}
    (h : fs.read name = .ok (Utf8.encode content)) : SameCode fs name content where
  path := isRead_path h
  text := exists_text_handle h
  raw := exists_raw_handle h

namespace Angled

/-- A file in a folder, with two kinds of line ends, and one with a name that starts like that of a
stream. -/
def files : FileSystem :=
  (FileSystem.empty.put ⟨["work", "lib", "a.rb"]⟩ (Utf8.encode "é = 1\r\nb\r".toList)).put
    ⟨["work", "<a.rb"]⟩ (Utf8.encode ['x'])

theorem same_code_sample :
    files.read "./lib//a.rb" = .ok (Utf8.encode "é = 1\r\nb\r".toList) ∧
      SameCode files "./lib//a.rb" "é = 1\r\nb\r".toList :=
  have h : files.read "./lib//a.rb" = .ok (Utf8.encode "é = 1\r\nb\r".toList) := by rfl
  ⟨h, same_code_by_every_route h⟩

/-- A name that starts with `<` and does not end with `>` is taken for that of a stream, so that the
origin is not the name of the file. -/
theorem taken_for_stream :
    "<a.rb".toList.getLast? ≠ some '>' ∧ files.read "<a.rb" = .ok (Utf8.encode ['x']) ∧
      ∃ handle, Handle.open files "<a.rb" false .name 0 = .ok handle ∧
        IsRead files (.handle handle) .stream ['x'] "STDIN" ∧
        ∀ code origin, ¬ IsRead files (.handle handle) .file code origin := by
  have h : files.read "<a.rb" = .ok (Utf8.encode ['x']) := by rfl
  obtain ⟨handle, hopen, hreads⟩ := exists_text_handle h
  have hstream := hreads.stream (by decide)
  refine ⟨by decide, h, handle, hopen, hstream, fun code origin hfile => ?_⟩
  cases hstream.route_eq hfile

end Angled

end RubySource
