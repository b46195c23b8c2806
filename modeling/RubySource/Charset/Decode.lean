import RubySource.Charset.Basic
import RubySource.Text.Hex
import RubySource.Text.Utf8

/-!
# Reading bytes in a character set

A run of bytes either is a text of the character set or has a first place at which it is not.

## What is here

* `DecodeError` — the place, and its wording (`DecodeError.message`).
* `decodeUtf16` — UTF-16 in a given byte order: a pair of surrogates is one character.
* `Charset.decode` — a run of bytes read as a whole.
* `Charset.decodeFile` — a file read as text.  It differs in two points: UTF-16 without a byte order
  mark is refused, and a file that ends inside the mark of UTF-8 is empty.
-/

set_option autoImplicit false

namespace RubySource

/-- A place at which bytes are no text: its start, its length (at least one) and its first byte. -/
structure DecodeError where
  /-- The name under which the character set reports. -/
  codec : String
  start : Nat
  length : Nat
  firstByte : UInt8
  reason : String
  deriving DecidableEq, Repr

/-- The wording names a single byte by its value and several by their range. -/
def DecodeError.message (e : DecodeError) : String :=
  if e.length = 1 then
    "'" ++ e.codec ++ "' codec can't decode byte 0x"
      ++ String.ofList (Text.hexDigits 2 e.firstByte.toNat)
      ++ " in position " ++ toString e.start ++ ": " ++ e.reason
  else
    "'" ++ e.codec ++ "' codec can't decode bytes in position " ++ toString e.start ++ "-"
      ++ toString (e.start + e.length - 1) ++ ": " ++ e.reason

/-- The wording of a flaw. -/
def Utf8.Flaw.reason : Utf8.Flaw → String
  | .noStart => "invalid start byte"
  | .noContinuation => "invalid continuation byte"
  | .cutShort => "unexpected end of data"

/-- The text of UTF-8 bytes. -/
def decodeUtf8 (bytes : Bytes) : Except DecodeError (List Char) :=
  match Utf8.decode bytes with
  | .ok cs => .ok cs
  | .error f => .error ⟨"utf-8", f.start, f.length, bytes.getD f.start 0, f.flaw.reason⟩

/-- The text of ASCII bytes; `start` is the place of the first one. -/
def decodeAscii (start : Nat) : Bytes → Except DecodeError (List Char)
  | [] => .ok []
  | b :: bs =>
    if b < 0x80 then
      match decodeAscii (start + 1) bs with
      | .ok cs => .ok (Char.ofNat b.toNat :: cs)
      | .error e => .error e
    else .error ⟨"ascii", start, 1, b, "ordinal not in range(128)"⟩

/-- The text of Latin-1 bytes: each byte is the character of its number. -/
def decodeLatin1 (bytes : Bytes) : List Char :=
  bytes.map fun b => Char.ofNat b.toNat

/-- The order of the two bytes of a unit. -/
inductive ByteOrder
  | little
  | big
  deriving DecidableEq, Repr

/-- The name under which UTF-16 of an order reports. -/
def ByteOrder.codec : ByteOrder → String
  | .little => "utf-16-le"
  | .big => "utf-16-be"

/-- The unit of two bytes. -/
def ByteOrder.unit : ByteOrder → UInt8 → UInt8 → Nat
  | .little, a, b => b.toNat * 256 + a.toNat
  | .big, a, b => a.toNat * 256 + b.toNat

/-- Whether a unit is the first of a pair. -/
def isLeading (unit : Nat) : Bool := 0xD800 ≤ unit && unit < 0xDC00

/-- Whether a unit is the second of a pair. -/
def isTrailing (unit : Nat) : Bool := 0xDC00 ≤ unit && unit < 0xE000

/-- The character of a pair of units. -/
def joinPair (leading trailing : Nat) : Char :=
  Char.ofNat (0x10000 + (leading - 0xD800) * 0x400 + (trailing - 0xDC00))

/-- The text of UTF-16 bytes; `start` is the place of the first one. -/
def decodeUtf16 (order : ByteOrder) (start : Nat) : Bytes → Except DecodeError (List Char)
  | [] => .ok []
  | [a] => .error ⟨order.codec, start, 1, a, "truncated data"⟩
  | a :: b :: rest =>
    let unit := order.unit a b
    if isLeading unit then
      match rest with
      | c :: d :: rest' =>
        if isTrailing (order.unit c d) then
          match decodeUtf16 order (start + 4) rest' with
          | .ok cs => .ok (joinPair unit (order.unit c d) :: cs)
          | .error e => .error e
        else .error ⟨order.codec, start, 2, a, "illegal UTF-16 surrogate"⟩
      | _ => .error ⟨order.codec, start, 2 + rest.length, a, "unexpected end of data"⟩
    else if isTrailing unit then .error ⟨order.codec, start, 2, a, "illegal encoding"⟩
    else
      match decodeUtf16 order (start + 2) rest with
      | .ok cs => .ok (Char.ofNat unit :: cs)
      | .error e => .error e

/-- The byte order that a mark at the start announces, if there is one. -/
def markedOrder? : Bytes → Option ByteOrder
  | 0xFF :: 0xFE :: _ => some .little
  | 0xFE :: 0xFF :: _ => some .big
  | _ => none

/-- The text of UTF-16 bytes that may start with a mark; places are counted from the mark on. -/
def decodeMarkedUtf16 (bytes : Bytes) : Except DecodeError (List Char) :=
  match markedOrder? bytes with
  | some order => decodeUtf16 order 2 (bytes.drop 2)
  | none => decodeUtf16 .little 0 bytes

/-- The byte order mark of UTF-8. -/
def utf8Mark : Bytes := [0xEF, 0xBB, 0xBF]

/-- The text of UTF-8 bytes that may start with a mark; places are counted after it. -/
def decodeMarkedUtf8 (bytes : Bytes) : Except DecodeError (List Char) :=
  if utf8Mark.isPrefixOf bytes then decodeUtf8 (bytes.drop 3) else decodeUtf8 bytes

/-- The text of a run of bytes. -/
def Charset.decode : Charset → Bytes → Except DecodeError (List Char)
  | .utf8, bytes => decodeUtf8 bytes
  | .utf8Marked, bytes => decodeMarkedUtf8 bytes
  | .latin1, bytes => .ok (decodeLatin1 bytes)
  | .ascii, bytes => decodeAscii 0 bytes
  | .utf16, bytes => decodeMarkedUtf16 bytes
  | .utf16le, bytes => decodeUtf16 .little 0 bytes
  | .utf16be, bytes => decodeUtf16 .big 0 bytes

/-- Why a file is not read as text. -/
inductive FileTextError
  | undecodable (error : DecodeError)
  /-- UTF-16 that does not announce its byte order. -/
  | unmarked
  deriving DecidableEq, Repr

/-- The text of a file's bytes, line ends left as they are. -/
def Charset.decodeFile (charset : Charset) (bytes : Bytes) : Except FileTextError (List Char) :=
  if charset = .utf8Marked ∧ bytes.length < 3 ∧ bytes.isPrefixOf utf8Mark then .ok []
  else
    match charset.decode bytes with
    | .error e => .error (.undecodable e)
    | .ok cs =>
      if charset = .utf16 ∧ bytes ≠ [] ∧ markedOrder? bytes = none then .error .unmarked
      else .ok cs

end RubySource
