import RubySource.Text.Quoted
import RubySource.Text.Upper
import RubySource.Text.Utf8

/-!
# Loose texts

Some characters are written by a pair of 16-bit units.  A text that is put together from units may
hold *halves*, which have found no partner and stand alone.  Such a text is no sequence of
characters, and no UTF-8 encodes it.  A *loose* text is a text that may hold halves.  Every string
is one, and halves are never taken for characters.

Names of files are loose texts for another reason.  The system knows a name by its bytes, which may
be anything.  A byte that is a part of no character is told as a half, and there is one half for
each byte beyond ASCII.

## What is here

* `Half`, `LooseText` — halves, and texts that may hold them; a string is taken for a loose text
  where one is asked for.
* `LooseText.Point`, `LooseText.points`, `LooseText.ofPoints` — characters and halves one by one; a
  text is what its points are put together to (`LooseText.ofPoints_points`).
* `LooseText.isEmpty`, `LooseText.upper`, `LooseText.quoted`, `LooseText.shown` — what is done with
  any text; on strings, quoting is what it always was (`LooseText.quoted_coe`).
* `EncodeError`, `LooseText.strayHalves?` — the first halves that cannot be encoded.
* `LooseText.size`, `LooseText.fileName` — a name as the system knows it.
-/

set_option autoImplicit false

namespace RubySource

/-- A unit that is one half of a pair, by its place among them. -/
structure Half where
  index : Fin 0x800
  deriving DecidableEq, Repr

namespace Half

/-- The number of the unit. -/
def unit (h : Half) : Nat := 0xD800 + h.index

/-- The half that a byte of the name of a file is told as. -/
def ofByte (b : UInt8) : Half := ⟨⟨0x400 + b.toNat, by have := b.toNat_lt; omega⟩⟩

/-- The byte that a half in the name of a file stands for; only bytes beyond ASCII have halves. -/
def byte? (h : Half) : Option UInt8 :=
  if 0x480 ≤ h.index.val ∧ h.index.val < 0x500 then some (UInt8.ofNat (h.index.val - 0x400))
  else none

/-- A half as it is written into messages, by its number. -/
def escaped (h : Half) : List Char := '\\' :: 'u' :: Text.hexDigits 4 h.unit

end Half

/-- A text that may hold halves: a string, and more strings with a half in front of each. -/
structure LooseText where
  front : String
  rest : List (Half × String)
  deriving DecidableEq, Repr, Inhabited

/-- A string is a loose text without halves. -/
instance : Coe String LooseText := ⟨fun s => ⟨s, []⟩⟩

namespace LooseText

/-! ## Point by point -/

/-- A character or a half. -/
inductive Point
  | char (c : Char)
  | half (h : Half)
  deriving DecidableEq, Repr

namespace Point

/-- The number of a character or a half. -/
def code : Point → Nat
  | char c => c.toNat
  | half h => h.unit

/-- Whether a point is a half. -/
def isHalf : Point → Bool
  | char _ => false
  | half _ => true

/-- The character that a point is. -/
def char? : Point → Option Char
  | char c => some c
  | half _ => none

end Point

/-- The characters and halves of a text. -/
def points (t : LooseText) : List Point :=
  t.front.toList.map .char ++ t.rest.flatMap fun p => .half p.1 :: p.2.toList.map .char

/-- Put points together: the characters up to the first half, and what follows each half. -/
def gather : List Point → List Char × List (Half × String)
  | [] => ([], [])
  | .char c :: ps => (c :: (gather ps).1, (gather ps).2)
  | .half h :: ps => ([], (h, String.ofList (gather ps).1) :: (gather ps).2)

/-- The text of some points. -/
def ofPoints (ps : List Point) : LooseText := ⟨String.ofList (gather ps).1, (gather ps).2⟩

theorem points_coe (s : String) : points s = s.toList.map .char := List.append_nil _

theorem gather_chars_append (cs : List Char) (ps : List Point) :
    gather (cs.map .char ++ ps) = (cs ++ (gather ps).1, (gather ps).2) := by
  induction cs with
  | nil => rfl
  | cons c cs ih => rw [List.map_cons, List.cons_append, gather, ih, List.cons_append]

theorem ofPoints_chars (cs : List Char) : ofPoints (cs.map .char) = String.ofList cs := by
  rw [ofPoints, ← List.append_nil (cs.map Point.char), gather_chars_append]
  simp [gather]

/-- The points of a text are put together again, so that texts with the same points are the same. -/
theorem ofPoints_points (t : LooseText) : ofPoints t.points = t := by
  have hrest (rest : List (Half × String)) :
      gather (rest.flatMap fun p => .half p.1 :: p.2.toList.map .char) = ([], rest) := by
    induction rest with
    | nil => rfl
    | cons p rest ih =>
      rw [List.flatMap_cons, List.cons_append, gather, gather_chars_append, ih, List.append_nil,
        String.ofList_toList]
  rw [ofPoints, points, gather_chars_append, hrest, List.append_nil, String.ofList_toList]

/-! ## What is done with any text -/

/-- Whether there is nothing in a text. -/
def isEmpty (t : LooseText) : Bool := t.front.isEmpty && t.rest.isEmpty

theorem isEmpty_iff {t : LooseText} : t.isEmpty = true ↔ t = "" := by
  obtain ⟨front, rest⟩ := t
  simp [isEmpty]

/-- The upper case of a text; a half has none. -/
def upper (t : LooseText) : LooseText :=
  ⟨Text.upper t.front, t.rest.map fun p => (p.1, Text.upper p.2)⟩

/-- How a point is written between the given quotes. -/
def escape (mark : Char) : Point → List Char
  | .char c => Text.escape mark c
  | .half h => h.escaped

/-- A text between quotes. -/
def quoted (t : LooseText) : String :=
  let mark := Text.quoteMark (t.points.filterMap Point.char?)
  String.ofList (mark :: t.points.flatMap (escape mark) ++ [mark])

/-- A text as the console shows it, with each half by its number. -/
def shown (t : LooseText) : String :=
  t.front ++ String.join (t.rest.map fun p => String.ofList p.1.escaped ++ p.2)

/-- A string is quoted as ever. -/
theorem quoted_coe (s : String) : quoted s = RubySource.quoted s := by
  have hchars : (s.toList.map Point.char).filterMap Point.char? = s.toList := by
    rw [List.filterMap_map]
    exact List.filterMap_some
  rw [quoted, points_coe, hchars, List.flatMap_map]
  rfl

/-! ## Encoding -/

end LooseText

/-- A place at which a loose text cannot be encoded: nothing but halves from `start` up to
`stop`. -/
structure EncodeError where
  start : Nat
  stop : Nat
  first : Half
  deriving DecidableEq, Repr

/-- The wording names a single half by its number and several by their range. -/
def EncodeError.message (e : EncodeError) : String :=
  "'utf-8' codec can't encode character"
    ++ (if e.stop = e.start + 1 then
        " '" ++ String.ofList e.first.escaped ++ "' in position " ++ toString e.start
      else "s in position " ++ toString e.start ++ "-" ++ toString (e.stop - 1))
    ++ ": surrogates not allowed"

namespace LooseText

/-- The first halves that cannot be encoded, from one that is stray up to the next character; the
first point has the place `start`. -/
def strayHalvesFrom? (isStray : Half → Bool) (start : Nat) : List Point → Option EncodeError
  | [] => none
  | .char _ :: ps => strayHalvesFrom? isStray (start + 1) ps
  | .half h :: ps =>
    if isStray h then some ⟨start, start + 1 + (ps.takeWhile Point.isHalf).length, h⟩
    else strayHalvesFrom? isStray (start + 1) ps

theorem strayHalvesFrom?_eq_none_iff {isStray : Half → Bool} {start : Nat} {ps : List Point} :
    strayHalvesFrom? isStray start ps = none ↔ ∀ h, .half h ∈ ps → isStray h = false := by
  induction ps generalizing start with
  | nil => simp [strayHalvesFrom?]
  | cons p ps ih =>
    cases p with
    | char c => simp [strayHalvesFrom?, ih]
    | half h =>
      cases hstray : isStray h <;> simp [strayHalvesFrom?, ih, hstray]

/-- The first halves of a text that cannot be encoded. -/
def strayHalves? (isStray : Half → Bool) (t : LooseText) : Option EncodeError :=
  strayHalvesFrom? isStray 0 t.points

/-- A string can always be encoded. -/
theorem strayHalves?_coe (isStray : Half → Bool) (s : String) : strayHalves? isStray s = none := by
  rw [strayHalves?, strayHalvesFrom?_eq_none_iff, points_coe]
  simp

/-! ## Names of files -/

/-- The number of bytes of a name, with one for each half. -/
def size (t : LooseText) : Nat :=
  t.rest.foldl (fun size p => size + 1 + p.2.utf8ByteSize) t.front.utf8ByteSize

/-- The bytes of a name; a half that stands for no byte has none. -/
def nameBytes (t : LooseText) : Bytes :=
  t.points.flatMap fun p =>
    match p with
    | .char c => String.utf8EncodeChar c
    | .half h => h.byte?.toList

/-- The points of the pieces that bytes are read in, with a half for each byte that is a part of no
character. -/
def pointsOfPieces : Bytes → List Utf8.Piece → List Point
  | _, [] => []
  | bytes, .char c :: rest => .char c :: pointsOfPieces (bytes.drop c.utf8Size) rest
  | bytes, .flawed length _ :: rest =>
    (bytes.take length).map (fun b => .half (.ofByte b))
      ++ pointsOfPieces (bytes.drop length) rest

/-- A name as the system knows it.  Halves whose bytes make a character are that character. -/
def fileName : LooseText → LooseText
  | ⟨s, []⟩ => s
  | t => ofPoints (pointsOfPieces t.nameBytes (Utf8.pieces t.nameBytes))

end LooseText
end RubySource
