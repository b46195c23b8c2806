import RubySource.Proofs.Charset.Fault
import RubySource.Proofs.Input.Routes

/-!
# Raw bytes read as a file and as a stream

A handle that gives raw bytes may be read as a file, and then all bytes are decoded in one go, or as
a stream, and then each line is decoded alone.  In UTF-8, Latin-1 and ASCII both ways are one, for
texts and for bytes that are none.  In the other character sets they are not: a line feed may be a
part of a character, and a line may start like a mark.

## What is here

* `Charset.IsNamed` — the encodings that name a character set.
* `Handle.GivesBytes` — the handles that give raw bytes.
* `decodeChunk_of_isNamed`, `Handle.readAsStream_eq` — what is read of them, by the decoder of the
  character set.
* `stream_reads_as_whole` — **a stream in UTF-8, Latin-1 or ASCII is read as if it were decoded in
  one go**, and where it is not read it stops at the same byte.
* `written_text_is_read_back` — **what was written in any character set is read back as a file**,
  and as a stream exactly if the text is read line by line.
* `Utf16Stream.not_read_back` — a text that is written in UTF-16 and not read back as a stream.
-/

set_option autoImplicit false

namespace RubySource

/-! ## Encodings by name -/

namespace Charset

/-- An encoding that names a character set. -/
def IsNamed (charset : Charset) (encoding : ConfigValue) : Prop :=
  ∃ name : String, encoding = .text name ∧ '\x00' ∉ name.toList ∧ ofName? name = some charset

/-- The usual name of a character set. -/
def usualName : Charset → String
  | .utf8 => "utf-8"
  | .utf8Marked => "utf-8-sig"
  | .latin1 => "latin-1"
  | .ascii => "ascii"
  | .utf16 => "utf-16"
  | .utf16le => "utf-16-le"
  | .utf16be => "utf-16-be"

theorem isNamed_usualName (charset : Charset) : charset.IsNamed (.text charset.usualName) := by
  refine ⟨charset.usualName, rfl, ?_, ?_⟩
  · cases charset <;> decide
  · cases charset <;> decide

theorem decode_nil (charset : Charset) : charset.decode [] = .ok [] := by
  cases charset <;> rfl

end Charset

/-! ## Handles that give raw bytes -/

/-- A handle gives raw bytes, all at once and line by line. -/
structure Handle.GivesBytes (h : Handle) (bytes : Bytes) : Prop where
  read : h.read = some (.ok (.bytes bytes))
  readLines : h.readLines = some (.ok ((Text.splitAfterNewline bytes).map .bytes))

theorem Handle.givesBytes_ofBytes (bytes : Bytes) : (Handle.ofBytes bytes).GivesBytes bytes :=
  ⟨rfl, rfl⟩

/-- A file that is opened for raw bytes gives its contents. -/
theorem Handle.givesBytes_open {fs : FileSystem} {name : String} {bytes : Bytes} (opener : Opener)
    (h : fs.read name = .ok bytes) :
    ∃ handle, Handle.open fs name true opener 0 = .ok handle ∧ handle.GivesBytes bytes
      ∧ handle.name = some (opener.told name) := by
  rw [Handle.open, h]
  exact ⟨_, rfl, ⟨rfl, rfl⟩, rfl⟩

/-! ## Decoding -/

section Decoding

variable {charset : Charset} {encoding : ConfigValue} (hname : charset.IsNamed encoding)
include hname

/-- Raw bytes are decoded in the character set that is named. -/
theorem decodeChunk_of_isNamed (bytes : Bytes) :
    decodeChunk encoding (.bytes bytes)
      = match charset.decode bytes with
        | .ok cs => .ok (.ofText cs)
        | .error e => .error (.text (.undecodable e)) := by
  obtain ⟨name, rfl, hnul, hset⟩ := hname
  by_cases hempty : bytes = []
  · rw [hempty, Charset.decode_nil]
    simp [decodeChunk, encodingName, LooseText.strayHalves?_coe, hnul, bind, Except.bind]
  · have hcontains : name.toList.contains '\x00' = false := by simpa using hnul
    have hsome : bytes.isEmpty = false := by simpa using hempty
    cases hdecode : charset.decode bytes <;>
      simp only [decodeChunk, encodingName, LooseText.strayHalves?_coe, hcontains, hsome,
        RubySource.charset, hset, hdecode, bind, Except.bind, Bool.false_eq_true, if_false]

/-- Each line is decoded alone. -/
theorem mapM_decodeChunk_of_isNamed (lines : List Bytes) :
    (lines.map Chunk.bytes).mapM (decodeChunk encoding)
      = match lines.mapM charset.decode with
        | .ok texts => .ok (texts.map Chunk.ofText)
        | .error e => .error (.text (.undecodable e)) := by
  induction lines with
  | nil => rfl
  | cons line lines ih =>
    rw [List.map_cons, List.mapM_cons, List.mapM_cons, decodeChunk_of_isNamed hname, ih]
    cases charset.decode line with
    | error e => rfl
    | ok text => cases lines.mapM charset.decode <;> rfl

/-- What is read of a stream of raw bytes. -/
theorem Handle.readAsStream_eq {h : Handle} {bytes : Bytes} (hgives : h.GivesBytes bytes) :
    h.readAsStream encoding
      = match (Text.splitAfterNewline bytes).mapM charset.decode with
        | .ok texts => .ok ⟨.chunk (.ofText texts.flatten), originOf "STDIN"⟩
        | .error e => .error (.text (.undecodable e)) := by
  rw [Handle.readAsStream, hgives.readLines]
  simp only [mapM_decodeChunk_of_isNamed hname]
  cases (Text.splitAfterNewline bytes).mapM charset.decode with
  | error e => rfl
  | ok texts =>
    show (joinChunks 0 (texts.map Chunk.ofText)).bind _ = _
    rw [joinChunks_ofText]
    rfl

theorem Handle.readAsStream_eq_ok_iff {h : Handle} {bytes : Bytes} (hgives : h.GivesBytes bytes)
    {cs : List Char} :
    h.readAsStream encoding = .ok ⟨.chunk (.ofText cs), originOf "STDIN"⟩ ↔
      ∃ texts, (Text.splitAfterNewline bytes).mapM charset.decode = .ok texts
        ∧ texts.flatten = cs := by
  rw [Handle.readAsStream_eq hname hgives]
  cases (Text.splitAfterNewline bytes).mapM charset.decode with
  | error e => simp
  | ok texts => simp [Chunk.ofText, String.ofList_inj]

theorem Handle.readAsStream_eq_error_iff {h : Handle} {bytes : Bytes}
    (hgives : h.GivesBytes bytes) {e : DecodeError} :
    h.readAsStream encoding = .error (.text (.undecodable e)) ↔
      (Text.splitAfterNewline bytes).mapM charset.decode = .error e := by
  rw [Handle.readAsStream_eq hname hgives]
  cases (Text.splitAfterNewline bytes).mapM charset.decode with
  | error e => simp
  | ok texts => simp

end Decoding

/-! ## Streams -/

/-- **A stream in UTF-8, Latin-1 or ASCII is read as if its bytes were decoded in one go**, whatever
they are.  Where they are no text, the error is that of the first line that is none, and the place
that it tells is counted from the start of that line. -/
theorem stream_reads_as_whole {charset : Charset} (hset : charset ∈ [.utf8, .latin1, .ascii])
    {encoding : ConfigValue} (hname : charset.IsNamed encoding) (fs : FileSystem) (bytes : Bytes) :
    (∀ cs, Route.stream.read fs encoding (.handle (.ofBytes bytes))
        = .ok ⟨.chunk (.ofText cs), originOf "STDIN"⟩ ↔ charset.decode bytes = .ok cs)
    ∧ ((∃ e, Route.stream.read fs encoding (.handle (.ofBytes bytes))
        = .error (.text (.undecodable e))) ↔ ∃ e, charset.decode bytes = .error e)
    ∧ (∀ e, Route.stream.read fs encoding (.handle (.ofBytes bytes))
        = .error (.text (.undecodable e)) →
      ∃ before line after, Text.splitAfterNewline bytes = before ++ line :: after
        ∧ charset.decode line = .error e
        ∧ charset.decode bytes = .error (e.behind before.flatten)) := by
  have hgives := Handle.givesBytes_ofBytes bytes
  have hroute : Route.stream.read fs encoding (.handle (.ofBytes bytes))
      = (Handle.ofBytes bytes).readAsStream encoding := rfl
  have hok (cs : List Char) : (Handle.ofBytes bytes).readAsStream encoding
      = .ok ⟨.chunk (.ofText cs), originOf "STDIN"⟩ ↔ charset.decode bytes = .ok cs :=
    (Handle.readAsStream_eq_ok_iff hname hgives).trans (Charset.decode_eq_ok_iff_lines hset).symm
  have hfault (e : DecodeError) (he : (Handle.ofBytes bytes).readAsStream encoding
      = .error (.text (.undecodable e))) :
      ∃ before line after, Text.splitAfterNewline bytes = before ++ line :: after
        ∧ charset.decode line = .error e
        ∧ charset.decode bytes = .error (e.behind before.flatten) := by
    rw [Handle.readAsStream_eq_error_iff hname hgives] at he
    obtain ⟨before, line, after, texts, hlines, hbefore, hline⟩ := exists_of_mapM_eq_error he
    exact ⟨before, line, after, hlines, hline,
      Charset.decode_of_line hset hlines hbefore hline⟩
  rw [hroute]
  refine ⟨hok, ⟨?_, ?_⟩, hfault⟩
  · rintro ⟨e, he⟩
    obtain ⟨before, -, -, -, -, hwhole⟩ := hfault e he
    exact ⟨_, hwhole⟩
  · rintro ⟨e, he⟩
    cases hlines : (Text.splitAfterNewline bytes).mapM charset.decode with
    | error e' => exact ⟨e', (Handle.readAsStream_eq_error_iff hname hgives).2 hlines⟩
    | ok texts =>
      rw [Charset.decode_eq_ok_iff_lines hset |>.2 ⟨texts, hlines, rfl⟩] at he
      cases he

/-- A flaw in the second line. -/
theorem stream_sample :
    Charset.utf8 ∈ [Charset.utf8, .latin1, .ascii] ∧ Charset.utf8.IsNamed (.text "utf-8") ∧
      ∃ e before line after,
        Route.stream.read .empty (.text "utf-8") (.handle (.ofBytes [0x61, 10, 0x62, 0xE9, 10]))
          = .error (.text (.undecodable e))
        ∧ Text.splitAfterNewline [0x61, 10, 0x62, 0xE9, 10] = before ++ line :: after
        ∧ Charset.utf8.decode [0x61, 10, 0x62, 0xE9, 10] = .error (e.behind before.flatten) := by
  have hset : Charset.utf8 ∈ [Charset.utf8, .latin1, .ascii] := by decide
  have hname : Charset.utf8.IsNamed (.text "utf-8") := Charset.isNamed_usualName .utf8
  obtain ⟨-, herror, hplace⟩ :=
    stream_reads_as_whole hset hname .empty [0x61, 10, 0x62, 0xE9, 10]
  obtain ⟨e, he⟩ := herror.2 ⟨⟨"utf-8", 3, 1, 0xE9, "invalid continuation byte"⟩, rfl⟩
  obtain ⟨before, line, after, hlines, -, hwhole⟩ := hplace e he
  exact ⟨hset, hname, e, before, line, after, he, hlines, hwhole⟩

/-! ## Written texts -/

/-- What is read of a file whose bytes are a text. -/
theorem Handle.readAsFile_eq {charset : Charset} {encoding : ConfigValue} {h : Handle}
    {bytes : Bytes} {cs : List Char} {name : String} (hname : charset.IsNamed encoding)
    (hgives : h.GivesBytes bytes) (hdecode : charset.decode bytes = .ok cs)
    (hfile : h.name.bind HandleName.fileName? = some name) :
    h.readAsFile encoding = .ok ⟨.chunk (.ofText cs), originOf name⟩ := by
  obtain ⟨told, htold, hplain⟩ := Option.bind_eq_some_iff.1 hfile
  rw [Handle.readAsFile, hgives.read, htold]
  simp only [decodeChunk_of_isNamed hname, hdecode]
  rw [HandleName.fileName?.eq_def] at hplain
  split at hplain
  · obtain rfl := Option.some.inj hplain
    rfl
  · cases hplain
  · obtain rfl := Option.some.inj hplain
    rfl

/-- **What was written in a character set is read back as a file.**  As a stream it is read back
exactly if its lines are read as what they are, as they always are in UTF-8, Latin-1 and ASCII. -/
theorem written_text_is_read_back {charset : Charset} {encoding : ConfigValue} {cs : List Char}
    {bytes : Bytes} {h : Handle} (hname : charset.IsNamed encoding)
    (hwritten : charset.encode? cs = some bytes) (hgives : h.GivesBytes bytes) (fs : FileSystem) :
    (∀ name, h.name.bind HandleName.fileName? = some name →
      Route.file.read fs encoding (.handle h) = .ok ⟨.chunk (.ofText cs), originOf name⟩)
    ∧ (Route.stream.read fs encoding (.handle h) = .ok ⟨.chunk (.ofText cs), originOf "STDIN"⟩ ↔
      charset.ReadsInLines cs)
    ∧ (charset ∈ [.utf8, .latin1, .ascii] → charset.ReadsInLines cs) := by
  obtain ⟨hhas, rfl⟩ := Charset.encode?_eq_some_iff.1 hwritten
  refine ⟨?_, ?_, fun hset => Charset.readsInLines_of_mem hset cs⟩
  · intro name hfile
    exact Handle.readAsFile_eq hname hgives (Charset.decode_mark_iff.2 ⟨hhas, rfl⟩) hfile
  · exact (Handle.readAsStream_eq_ok_iff hname hgives).trans (Charset.exists_decoded_lines_iff hhas)

namespace Utf16Stream

/-- A file in UTF-16, with a character of two units. -/
def files : FileSystem :=
  FileSystem.empty.put ⟨["work", "a.rb"]⟩ [0xFF, 0xFE, 0xE9, 0x00, 0x3D, 0xD8, 0x00, 0xDE]

theorem written_sample :
    Charset.utf16.encode? "é😀".toList = some [0xFF, 0xFE, 0xE9, 0x00, 0x3D, 0xD8, 0x00, 0xDE] ∧
      ∃ handle, Handle.open files "a.rb" true .name 0 = .ok handle ∧
        Route.file.read files (.text "utf-16") (.handle handle)
          = .ok ⟨.chunk (.ofText "é😀".toList), originOf "a.rb"⟩ ∧
        Route.stream.read files (.text "utf-16") (.handle handle)
          = .ok ⟨.chunk (.ofText "é😀".toList), originOf "STDIN"⟩ := by
  have hwritten : Charset.utf16.encode? "é😀".toList
      = some [0xFF, 0xFE, 0xE9, 0x00, 0x3D, 0xD8, 0x00, 0xDE] := by decide
  have hread : files.read "a.rb" = .ok [0xFF, 0xFE, 0xE9, 0x00, 0x3D, 0xD8, 0x00, 0xDE] := by rfl
  obtain ⟨handle, hopen, hgives, htold⟩ := Handle.givesBytes_open .name hread
  obtain ⟨hfile, hstream, -⟩ :=
    written_text_is_read_back (Charset.isNamed_usualName .utf16) hwritten hgives files
  refine ⟨hwritten, handle, hopen, hfile "a.rb" (by rw [htold]; rfl), hstream.2 ⟨?_, ?_⟩⟩
  · exact List.forall_mem_cons.2 ⟨by decide, List.forall_mem_singleton.2 (by decide)⟩
  · decide

/-- A line feed in UTF-16 is a byte that looks like one and another byte behind it, so that the
first line is no text.  In UTF-8 with a mark a character that is written like the mark is lost at
the start of a line. -/
theorem not_read_back :
    (Charset.utf16le.encode? ['a', '\n'] = some [0x61, 0x00, 0x0A, 0x00] ∧
      Route.stream.read .empty (.text "utf-16-le") (.handle (.ofBytes [0x61, 0x00, 0x0A, 0x00]))
        = .error (.text (.undecodable ⟨"utf-16-le", 2, 1, 0x0A, "truncated data"⟩))) ∧
    (Charset.utf8Marked.encode? ['\n', '\uFEFF', 'b']
        = some [0xEF, 0xBB, 0xBF, 0x0A, 0xEF, 0xBB, 0xBF, 0x62] ∧
      Route.stream.read .empty (.text "utf-8-sig")
          (.handle (.ofBytes [0xEF, 0xBB, 0xBF, 0x0A, 0xEF, 0xBB, 0xBF, 0x62]))
        = .ok ⟨.chunk (.ofText ['\n', 'b']), originOf "STDIN"⟩) :=
  ⟨⟨by decide, rfl⟩, ⟨by decide, rfl⟩⟩

end Utf16Stream

end RubySource
