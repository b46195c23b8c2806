import RubySource.Charset.Decode
import RubySource.Text.Line

/-!
# Files opened as text

A file that is opened as text is UTF-8 and is decoded as far as it is needed.  Whoever reads all the
rest of it has the rest decoded in one go.  Whoever reads line by line has it decoded in blocks of a
fixed number of bytes, and a character that a block stops in is put in front of the next one.
Whoever reads some characters has it decoded in blocks, too, but where many characters are missing,
blocks are as long as these are expected to be, going by the block before.  The places in an error
are counted from the start of what is decoded in one go.

## What is here

* `TextStream` — an opened file and how far it is decoded.
* `TextStream.skip` — read some characters.
* `TextStream.readAll`, `TextStream.readLines` — the text that is left, in one go or line by line.
-/

set_option autoImplicit false

namespace RubySource

/-- A file opened as text. -/
structure TextStream where
  /-- What is decoded, line ends as they are in the file. -/
  decoded : List Char
  /-- How many characters have been read. -/
  skipped : Nat
  /-- The start of a character that the last block stops in. -/
  tail : Bytes
  /-- The bytes that are not decoded. -/
  rest : Bytes
  /-- The bytes and the characters of the last block that had any. -/
  density : Nat × Nat

namespace TextStream

/-- The number of bytes that a block has at least. -/
def blockSize : Nat := 8192

/-- The number of bytes of the next block where some characters are missing. -/
def sizeFor (s : TextStream) (missing : Nat) : Nat :=
  max blockSize (max missing (missing * s.density.1 / s.density.2))

/-- Whether bytes are the first two of a surrogate.  A block that stops in one is not given up
before the third is seen. -/
def isSurrogateStart : Bytes → Bool
  | [0xED, b] => 0xA0 ≤ b && b ≤ 0xBF
  | _ => false

/-- Decode bytes that more may follow: their characters, and the start of one that they stop in. -/
def decodeBlock (bytes : Bytes) : Except DecodeError (List Char × Bytes) :=
  let found := Utf8.run none bytes
  let openBytes := (found.2.map (·.read)).getD 0
  match Utf8.collect 0 found.1 with
  | .ok cs => .ok (cs, bytes.drop (bytes.length - openBytes))
  | .error f =>
    if isSurrogateStart (bytes.drop f.start) then
      .ok (Utf8.decodeLossy (bytes.take f.start), bytes.drop f.start)
    else .error ⟨"utf-8", f.start, f.length, bytes.getD f.start 0, f.flaw.reason⟩

/-- A file that nothing has been read of. -/
def ofBytes (bytes : Bytes) : TextStream := ⟨[], 0, [], bytes, (1, 1)⟩

/-- How many characters can be read at once.  A carriage return at the very end has to wait for what
follows it, as long as something may follow. -/
def ready (s : TextStream) (atEnd : Bool) : Nat :=
  (Text.unifyNewlines
    (if atEnd || s.decoded.getLast? ≠ some '\r' then s.decoded else s.decoded.dropLast)).length

/-- A stream with the density of the block that was fetched last. -/
def measured (before : TextStream) (after : TextStream) : TextStream :=
  let characters := after.ready false - before.ready false
  if characters = 0 then after
  else { after with density := (before.rest.length - after.rest.length, characters) }

/-- Decode the next block of some size; at the end of the file, what the last one stops in. -/
def fetch (s : TextStream) (size : Nat) : Except DecodeError TextStream :=
  if s.rest.isEmpty then
    match decodeUtf8 s.tail with
    | .ok cs => .ok { s with decoded := s.decoded ++ cs, tail := [] }
    | .error e => .error e
  else
    match decodeBlock (s.tail ++ s.rest.take size) with
    | .ok (cs, tail) =>
      .ok (s.measured { s with decoded := s.decoded ++ cs, tail := tail, rest := s.rest.drop size })
    | .error e => .error e

/-- Fetch blocks until some number of characters can be read or the file ends. -/
def fetchUntil : (fuel : Nat) → Nat → TextStream → Except DecodeError TextStream
  | 0, _, s => .ok s
  | fuel + 1, n, s =>
    if n ≤ s.ready false then .ok s
    else
      match s.fetch (s.sizeFor (n - s.ready false)) with
      | .ok next => if s.rest.isEmpty then .ok next else fetchUntil fuel n next
      | .error e => .error e

/-- Read some characters. -/
def skip (s : TextStream) (n : Nat) : Except DecodeError TextStream :=
  match fetchUntil (s.rest.length + 2) n s with
  | .ok next => .ok { next with skipped := min n (next.ready true) }
  | .error e => .error e

/-- The characters that are left when all is decoded. -/
def remaining (s : TextStream) : List Char :=
  (Text.unifyNewlines s.decoded).drop s.skipped

/-- Read all that is left. -/
def readAll (s : TextStream) : Except DecodeError (List Char) :=
  match decodeUtf8 (s.tail ++ s.rest) with
  | .ok cs => .ok { s with decoded := s.decoded ++ cs }.remaining
  | .error e => .error e

/-- Fetch all blocks. -/
def fetchAll : (fuel : Nat) → TextStream → Except DecodeError TextStream
  | 0, s => .ok s
  | fuel + 1, s =>
    match s.fetch blockSize with
    | .ok next => if s.rest.isEmpty then .ok next else fetchAll fuel next
    | .error e => .error e

/-- Read all lines that are left, as one text. -/
def readLines (s : TextStream) : Except DecodeError (List Char) :=
  match fetchAll (s.rest.length + 2) s with
  | .ok done => .ok done.remaining
  | .error e => .error e

end TextStream
end RubySource
