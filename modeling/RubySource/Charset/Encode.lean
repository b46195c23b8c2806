import RubySource.Charset.Decode

/-!
# Writing a text in a character set

The way back from a text to bytes, for the characters a character set has.  The sets with a byte
order mark write it first, UTF-16 in little-endian order.

## What is here

* `encodeUtf16` — UTF-16 in a given byte order.
* `Charset.encode?` — the bytes of a text, or nothing if it has a character outside the set.
-/

set_option autoImplicit false

namespace RubySource

/-- The two bytes of a unit. -/
def ByteOrder.bytes (unit : Nat) : ByteOrder → Bytes
  | .little => [UInt8.ofNat (unit % 256), UInt8.ofNat (unit / 256)]
  | .big => [UInt8.ofNat (unit / 256), UInt8.ofNat (unit % 256)]

/-- The UTF-16 bytes of a character. -/
def encodeUtf16Char (order : ByteOrder) (c : Char) : Bytes :=
  if c.toNat < 0x10000 then order.bytes c.toNat
  else
    order.bytes (0xD800 + (c.toNat - 0x10000) / 0x400)
      ++ order.bytes (0xDC00 + (c.toNat - 0x10000) % 0x400)

/-- The UTF-16 bytes of a text. -/
def encodeUtf16 (order : ByteOrder) (cs : List Char) : Bytes :=
  cs.flatMap (encodeUtf16Char order)

/-- The bytes of a text, one for each character, if all characters are below the limit. -/
def encodeBelow? (limit : Nat) (cs : List Char) : Option Bytes :=
  if cs.all (·.toNat < limit) then some (cs.map fun c => UInt8.ofNat c.toNat) else none

/-- The bytes of a text in a character set that has all its characters. -/
def Charset.encode? : Charset → List Char → Option Bytes
  | .utf8, cs => some (Utf8.encode cs)
  | .utf8Marked, cs => some (utf8Mark ++ Utf8.encode cs)
  | .latin1, cs => encodeBelow? 0x100 cs
  | .ascii, cs => encodeBelow? 0x80 cs
  | .utf16, cs => some ([0xFF, 0xFE] ++ encodeUtf16 .little cs)
  | .utf16le, cs => some (encodeUtf16 .little cs)
  | .utf16be, cs => some (encodeUtf16 .big cs)

end RubySource
