/-!
# Character sets and their names

The encodings a source may be read in, and their names.  There are seven of them; the many others
that a runtime may know are left out, so that their names are unknown here.

A name is compared after folding: ASCII letters are put in lower case, every run of characters other
than letters, digits and dots counts as one underscore, and such a run at either end counts for
nothing.  A dot may stand for an underscore in a name that has synonyms.

## What is here

* `Charset` — the character sets.
* `foldName` — the folding of names.
* `Charset.primaryNames`, `Charset.synonyms` — the folded names that are known.
* `Charset.ofName?` — the character set of a name.
-/

set_option autoImplicit false

namespace RubySource

/-- A character set that source bytes can be read in. -/
inductive Charset
  | utf8
  /-- UTF-8 that may start with a byte order mark, which is not a part of the text. -/
  | utf8Marked
  | latin1
  | ascii
  /-- UTF-16 in the byte order of its mark, or little-endian without one. -/
  | utf16
  | utf16le
  | utf16be
  deriving DecidableEq, Repr

namespace Charset

/-- Whether a character of a name stands for itself. -/
def keptInName (c : Char) : Bool :=
  c.isAlphanum || c == '.'

/-- Fold a name; `gap` tells that characters were passed over since the last kept one, and `started`
that a kept one has been seen. -/
def foldFrom (started gap : Bool) : List Char → List Char
  | [] => []
  | c :: cs =>
    if keptInName c then
      (if started && gap then ['_', c.toLower] else [c.toLower]) ++ foldFrom true false cs
    else foldFrom started true cs

/-- The form in which names are compared. -/
def foldName (name : String) : String :=
  String.ofList (foldFrom false false name.toList)

/-- The folded proper names. -/
def primaryNames : List (String × Charset) :=
  [("utf_8", utf8), ("utf_8_sig", utf8Marked), ("latin_1", latin1), ("ascii", ascii),
   ("utf_16", utf16), ("utf_16_le", utf16le), ("utf_16_be", utf16be)]

/-- The folded synonyms. -/
def synonyms : List (String × Charset) :=
  [("u8", utf8), ("utf", utf8), ("utf8", utf8), ("utf8_ucs2", utf8), ("utf8_ucs4", utf8),
   ("cp65001", utf8),
   ("8859", latin1), ("cp819", latin1), ("csisolatin1", latin1), ("ibm819", latin1),
   ("iso8859", latin1), ("iso8859_1", latin1), ("iso_8859_1", latin1),
   ("iso_8859_1_1987", latin1), ("iso_ir_100", latin1), ("l1", latin1), ("latin", latin1),
   ("latin1", latin1),
   ("646", ascii), ("ansi_x3.4_1968", ascii), ("ansi_x3_4_1968", ascii),
   ("ansi_x3.4_1986", ascii), ("cp367", ascii), ("csascii", ascii), ("ibm367", ascii),
   ("iso646_us", ascii), ("iso_646.irv_1991", ascii), ("iso_ir_6", ascii), ("us", ascii),
   ("us_ascii", ascii),
   ("u16", utf16), ("utf16", utf16),
   ("unicodelittleunmarked", utf16le), ("utf_16le", utf16le),
   ("unicodebigunmarked", utf16be), ("utf_16be", utf16be)]

/-- A folded name with its dots read as underscores. -/
def undotted (folded : String) : String :=
  String.ofList (folded.toList.map fun c => if c = '.' then '_' else c)

/-- The character set of a name, in any of its spellings. -/
def ofName? (name : String) : Option Charset :=
  let folded := foldName name
  synonyms.lookup folded <|> synonyms.lookup (undotted folded) <|> primaryNames.lookup folded

end Charset
end RubySource
