import RubySource.Text.Bytes

/-!
# UTF-8

Bytes are read by a machine that looks at one byte at a time.  Between characters it holds nothing;
inside a character it holds what is read so far and the range its next byte must lie in.  That range
is what keeps out overlong forms, surrogates and code points beyond U+10FFFF, so that a run of bytes
is given up at the first byte that cannot go on with it, and that byte is looked at again as the
start of something new.

## What is here

* `Piece` — what the machine hands over: a character, or a run of bytes that is none, with the flaw.
* `step`, `pieces` — the machine, and the pieces of a whole run of bytes.
* `pieces_append` — reading may stop anywhere and go on with what the machine holds.
* `encode` — the bytes of a text.
* `decodeLossy` — reading with one replacement character for each flawed run.
* `decode` — reading that stops at the first flawed run and says where it is.
-/

set_option autoImplicit false

namespace RubySource
namespace Utf8

/-- Why a run of bytes is not a character. -/
inductive Flaw
  /-- The byte starts no character. -/
  | noStart
  /-- The next byte does not go on with the character. -/
  | noContinuation
  /-- The data ends inside the character. -/
  | cutShort
  deriving DecidableEq, Repr

/-- What is read in one go: a character, or a run of bytes that is none. -/
inductive Piece
  | char (c : Char)
  | flawed (length : Nat) (flaw : Flaw)
  deriving DecidableEq, Repr

/-- A character that is not read to its end: its value and number of bytes so far, the number of
bytes missing, and the range of the next one. -/
structure Begun where
  value : Nat
  read : Nat
  missing : Nat
  low : UInt8
  high : UInt8
  deriving DecidableEq, Repr

/-- The character that a byte beyond ASCII begins. -/
def begin? (b : UInt8) : Option Begun :=
  if b < 0xC2 then none
  else if b < 0xE0 then some ⟨b.toNat - 0xC0, 1, 1, 0x80, 0xBF⟩
  else if b = 0xE0 then some ⟨0x0, 1, 2, 0xA0, 0xBF⟩
  else if b = 0xED then some ⟨0xD, 1, 2, 0x80, 0x9F⟩
  else if b < 0xF0 then some ⟨b.toNat - 0xE0, 1, 2, 0x80, 0xBF⟩
  else if b = 0xF0 then some ⟨0, 1, 3, 0x90, 0xBF⟩
  else if b < 0xF4 then some ⟨b.toNat - 0xF0, 1, 3, 0x80, 0xBF⟩
  else if b = 0xF4 then some ⟨4, 1, 3, 0x80, 0x8F⟩
  else none

/-- Look at a byte between characters. -/
def fresh (b : UInt8) : List Piece × Option Begun :=
  if b < 0x80 then ([.char (Char.ofNat b.toNat)], none)
  else
    match begin? b with
    | some begun => ([], some begun)
    | none => ([.flawed 1 .noStart], none)

/-- Look at a byte. -/
def step : Option Begun → UInt8 → List Piece × Option Begun
  | none, b => fresh b
  | some p, b =>
    if p.low ≤ b ∧ b ≤ p.high then
      let value := p.value * 64 + (b.toNat - 0x80)
      if p.missing ≤ 1 then ([.char (Char.ofNat value)], none)
      else ([], some ⟨value, p.read + 1, p.missing - 1, 0x80, 0xBF⟩)
    else (.flawed p.read .noContinuation :: (fresh b).1, (fresh b).2)

/-- The pieces read completely, and the character the data stops in. -/
def run : Option Begun → Bytes → List Piece × Option Begun
  | st, [] => ([], st)
  | st, b :: bs =>
    let here := step st b
    let later := run here.2 bs
    (here.1 ++ later.1, later.2)

/-- What the end of the data makes of a character that is not read to its end. -/
def finish : Option Begun → List Piece
  | none => []
  | some p => [.flawed p.read .cutShort]

/-- The pieces of a run of bytes. -/
def pieces (bytes : Bytes) : List Piece :=
  (run none bytes).1 ++ finish (run none bytes).2

/-- Reading may stop anywhere and go on with what the machine holds. -/
theorem run_append (st : Option Begun) (xs ys : Bytes) :
    run st (xs ++ ys)
      = ((run st xs).1 ++ (run (run st xs).2 ys).1, (run (run st xs).2 ys).2) := by
  induction xs generalizing st with
  | nil => rfl
  | cons x xs ih => simp [run, ih]

/-- The pieces of two runs put together, by what the first leaves open. -/
theorem pieces_append (xs ys : Bytes) :
    pieces (xs ++ ys)
      = (run none xs).1 ++ ((run (run none xs).2 ys).1 ++ finish (run (run none xs).2 ys).2) := by
  simp [pieces, run_append]

/-- The bytes of a text. -/
def encode (cs : List Char) : Bytes :=
  cs.flatMap String.utf8EncodeChar

/-- The bytes of a string. -/
def ofString (s : String) : Bytes :=
  encode s.toList

/-- The character a piece stands for when flaws are to be read over. -/
def Piece.orReplacement : Piece → Char
  | .char c => c
  | .flawed .. => '\uFFFD'

/-- The text of a run of bytes, with one U+FFFD for each flawed run. -/
def decodeLossy (bytes : Bytes) : List Char :=
  (pieces bytes).map Piece.orReplacement

/-- A flawed run and where it starts. -/
structure Fault where
  start : Nat
  length : Nat
  flaw : Flaw
  deriving DecidableEq, Repr

/-- The text of the pieces up to the first flaw; `start` is the place of the first piece. -/
def collect (start : Nat) : List Piece → Except Fault (List Char)
  | [] => .ok []
  | .flawed length flaw :: _ => .error ⟨start, length, flaw⟩
  | .char c :: rest =>
    match collect (start + c.utf8Size) rest with
    | .ok cs => .ok (c :: cs)
    | .error e => .error e

/-- The text of a run of bytes, or its first flaw. -/
def decode (bytes : Bytes) : Except Fault (List Char) :=
  collect 0 (pieces bytes)

end Utf8
end RubySource
