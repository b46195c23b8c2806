import RubySource.Text.Hex
import RubySource.Value.Basic

/-!
# Reading JSON

A JSON document is one value between blanks.  The reader follows the JSON grammar and goes beyond it
in one point: the words `NaN`, `Infinity` and `-Infinity` are numbers.  Blanks are the four of the
grammar, control characters may not stand in a text, and of equal keys in a table the last one
decides.

A number with neither a fraction nor an exponent is whole.  An escape for one half of a pair is
joined with the other half behind it; without that half it stands alone, so that texts and keys are
loose ones.

The reader has two limits.  Whole numbers have a greatest length, and values a greatest depth, which
is what the caller has left of a stack and differs from call to call.  What goes beyond a limit is
an error of its own, told apart from a text that is no JSON, and it is found at the place where the
reader gets to it: what stands behind that place does not matter.

## What is here

* `JsonError` — why a text is not read, with `JsonError.message` for the limits.
* `Json.skipBlanks`, `Json.literal?` — the tokens.
* `Json.number`, `Json.textBody?` — numbers and texts.
* `Json.value` — a value at the start of a text, with what follows it.
* `Json.document` — a document of at most some depth.
-/

set_option autoImplicit false

namespace RubySource

/-- Why a text is not read as JSON. -/
inductive JsonError
  | malformed
  /-- A whole number is too long. -/
  | longNumber (digits : Nat)
  /-- A list is too deep. -/
  | deepList
  /-- A table is too deep. -/
  | deepTable
  deriving DecidableEq, Repr

namespace Json

/-- The greatest number of digits of a whole number. -/
def digitLimit : Nat := 4300

end Json

/-- The wording of an error. -/
def JsonError.message : JsonError → String
  | .malformed => "no JSON"
  | .longNumber digits =>
    "Exceeds the limit (" ++ toString Json.digitLimit
      ++ " digits) for integer string conversion: value has " ++ toString digits
      ++ " digits; use sys.set_int_max_str_digits() to increase the limit"
  | .deepList =>
    "maximum recursion depth exceeded while decoding a JSON array from a unicode string"
  | .deepTable =>
    "maximum recursion depth exceeded while decoding a JSON object from a unicode string"

namespace Json

/-- Something at the start of a text, and what follows it. -/
abbrev Read (α : Type) := Except JsonError (α × List Char)

/-- Something that is there, or else a text that is no JSON. -/
def orMalformed {α : Type} : Option α → Except JsonError α
  | some found => .ok found
  | none => .error .malformed

/-- The characters after the blanks of the grammar. -/
def skipBlanks (cs : List Char) : List Char :=
  cs.dropWhile fun c => c == ' ' || c == '\t' || c == '\n' || c == '\r'

/-- What follows a fixed word, if the text starts with it. -/
def literal? (word cs : List Char) : Option (List Char) :=
  if word.isPrefixOf cs then some (cs.drop word.length) else none

/-! ## Numbers -/

/-- The digits at the start of a text, and what follows them. -/
def digits (cs : List Char) : List Char × List Char :=
  (cs.takeWhile Char.isDigit, cs.dropWhile Char.isDigit)

/-- The number that decimal digits stand for. -/
def natOfDigits (ds : List Char) : Nat :=
  ds.foldl (fun n d => n * 10 + (d.toNat - 48)) 0

/-- The digits of a whole part: a zero alone, or digits that do not start with zero. -/
def wholePart? : List Char → Option (List Char × List Char)
  | '0' :: cs => some (['0'], cs)
  | cs => if (digits cs).1.isEmpty then none else some (digits cs)

/-- The digits after a point, if a point and at least one digit follow. -/
def fraction? : List Char → Option (List Char × List Char)
  | '.' :: cs => if (digits cs).1.isEmpty then none else some (digits cs)
  | _ => none

/-- A sign, as whether it is a minus, and what follows. -/
def sign : List Char → Bool × List Char
  | '-' :: cs => (true, cs)
  | '+' :: cs => (false, cs)
  | cs => (false, cs)

/-- The exponent, if its letter and at least one digit follow. -/
def exponent? : List Char → Option (Int × List Char)
  | c :: cs =>
    if c = 'e' ∨ c = 'E' then
      let signed := sign cs
      let ds := digits signed.2
      if ds.1.isEmpty then none
      else some (if signed.1 then -(natOfDigits ds.1 : Int) else natOfDigits ds.1, ds.2)
    else none
  | [] => none

/-- The number nearest to `mantissa · 10 ^ exponent`. -/
def realOf (negative : Bool) (mantissa : Nat) (exponent : Int) : Float :=
  let size : Float :=
    let top := (toString mantissa).length + exponent
    if mantissa = 0 ∨ top < -330 then 0
    else if top > 310 then 1 / 0
    else Float.ofScientific mantissa (exponent < 0) exponent.natAbs
  if negative then -size else size

/-- A number without its sign. -/
def unsigned (negative : Bool) (cs : List Char) : Read ConfigValue :=
  match wholePart? cs with
  | none => .error .malformed
  | some (whole, afterWhole) =>
    let fraction := fraction? afterWhole
    let afterFraction := (fraction.map (·.2)).getD afterWhole
    let power := exponent? afterFraction
    let rest := (power.map (·.2)).getD afterFraction
    if fraction.isNone && power.isNone then
      if whole.length > digitLimit then .error (.longNumber whole.length)
      else
        let n : Int := natOfDigits whole
        .ok (.int (if negative then -n else n), rest)
    else
      let places := (fraction.map (·.1)).getD []
      let exponent := (power.map (·.1)).getD 0 - places.length
      .ok (.real (realOf negative (natOfDigits (whole ++ places)) exponent), rest)

/-- A number at the start of a text. -/
def number : List Char → Read ConfigValue
  | '-' :: cs =>
    match literal? "Infinity".toList cs with
    | some rest => .ok (.real (-1 / 0), rest)
    | none => unsigned true cs
  | cs => unsigned false cs

/-! ## Texts -/

/-- The four hexadecimal digits of an escape, and what follows them. -/
def escapedUnit? (cs : List Char) : Option (Nat × List Char) :=
  if (cs.take 4).length = 4 then (Text.hexNumber? (cs.take 4)).map (·, cs.drop 4) else none

/-- An escaped unit on its own: a half of a pair, or a character. -/
def unitPoint (unit : Nat) : LooseText.Point :=
  if h : 0xD800 ≤ unit ∧ unit < 0xE000 then .half ⟨⟨unit - 0xD800, by omega⟩⟩
  else .char (Char.ofNat unit)

/-- The character of two escaped units, if they are a pair. -/
def pairChar? (unit next : Nat) : Option Char :=
  if 0xD800 ≤ unit ∧ unit < 0xDC00 ∧ 0xDC00 ≤ next ∧ next < 0xE000 then
    some (Char.ofNat (0x10000 + (unit - 0xD800) * 0x400 + (next - 0xDC00)))
  else none

/-- The character or half of an escape by number, read behind its letter. -/
def escapedPoint? (cs : List Char) : Option (LooseText.Point × List Char) :=
  match escapedUnit? cs with
  | none => none
  | some (unit, rest) =>
    match rest with
    | '\\' :: 'u' :: rest' =>
      match escapedUnit? rest' with
      | some (next, rest'') =>
        match pairChar? unit next with
        | some c => some (.char c, rest'')
        | none => some (unitPoint unit, rest)
      | none => some (unitPoint unit, rest)
    | _ => some (unitPoint unit, rest)

/-- The character of an escape by letter. -/
def letterEscape? : Char → Option Char
  | '"' => some '"'
  | '\\' => some '\\'
  | '/' => some '/'
  | 'b' => some '\x08'
  | 'f' => some '\x0c'
  | 'n' => some '\n'
  | 'r' => some '\r'
  | 't' => some '\t'
  | _ => none

/-- A text up to its closing quote, and what follows that; `fuel` bounds the characters read. -/
def textBody? : (fuel : Nat) → List Char → Option (List LooseText.Point × List Char)
  | 0, _ => none
  | _ + 1, [] => none
  | _ + 1, '"' :: cs => some ([], cs)
  | fuel + 1, '\\' :: 'u' :: cs =>
    match escapedPoint? cs with
    | none => none
    | some (p, rest) => (textBody? fuel rest).map fun found => (p :: found.1, found.2)
  | fuel + 1, '\\' :: c :: cs =>
    match letterEscape? c with
    | none => none
    | some c => (textBody? fuel cs).map fun found => (.char c :: found.1, found.2)
  | fuel + 1, c :: cs =>
    if c.toNat < 0x20 ∨ c = '\\' then none
    else (textBody? fuel cs).map fun found => (.char c :: found.1, found.2)

/-! ## Values -/

/-- A fixed word at the start of a text, read as a value. -/
def word (text : String) (v : ConfigValue) (cs : List Char) : Read ConfigValue :=
  (orMalformed (literal? text.toList cs)).map (v, ·)

/-- A text behind its opening quote. -/
def quotedText (cs : List Char) : Read LooseText :=
  (orMalformed (textBody? (cs.length + 1) cs)).map fun found => (.ofPoints found.1, found.2)

/-- A key and the colon behind it, behind the opening quote of the key. -/
def key (cs : List Char) : Read LooseText :=
  match quotedText cs with
  | .error e => .error e
  | .ok (name, rest) =>
    match skipBlanks rest with
    | ':' :: rest' => .ok (name, skipBlanks rest')
    | _ => .error .malformed

mutual

/-- A value at the start of a text, and what follows it; `fuel` bounds the tokens read, and `depth`
the lists and tables that may be in one another. -/
def value : (fuel depth : Nat) → List Char → Read ConfigValue
  | 0, _, _ => .error .malformed
  | fuel + 1, depth, cs =>
    match cs with
    | '"' :: rest => (quotedText rest).map fun found => (.text found.1, found.2)
    | '\x7b' :: rest =>
      match depth with
      | 0 => .error .deepTable
      | depth + 1 =>
        match skipBlanks rest with
        | '\x7d' :: rest' => .ok (.table [], rest')
        | rest' => entries fuel depth [] rest'
    | '[' :: rest =>
      match depth with
      | 0 => .error .deepList
      | depth + 1 =>
        match skipBlanks rest with
        | ']' :: rest' => .ok (.list [], rest')
        | rest' => (items fuel depth rest').map fun found => (.list found.1, found.2)
    | 'n' :: _ => word "null" .null cs
    | 't' :: _ => word "true" (.bool true) cs
    | 'f' :: _ => word "false" (.bool false) cs
    | 'N' :: _ => word "NaN" (.real (0 / 0)) cs
    | 'I' :: _ => word "Infinity" (.real (1 / 0)) cs
    | cs => number cs

/-- The items of a list up to its closing bracket. -/
def items : (fuel depth : Nat) → List Char → Read (List ConfigValue)
  | 0, _, _ => .error .malformed
  | fuel + 1, depth, cs =>
    match value fuel depth cs with
    | .error e => .error e
    | .ok (v, rest) =>
      match skipBlanks rest with
      | ']' :: rest' => .ok ([v], rest')
      | ',' :: rest' =>
        (items fuel depth (skipBlanks rest')).map fun found => (v :: found.1, found.2)
      | _ => .error .malformed

/-- The entries of a table up to its closing brace; `found` are those already read. -/
def entries : (fuel depth : Nat) → Entries → List Char → Read ConfigValue
  | 0, _, _, _ => .error .malformed
  | fuel + 1, depth, found, '"' :: cs =>
    match key cs with
    | .error e => .error e
    | .ok (name, rest) =>
      match value fuel depth rest with
      | .error e => .error e
      | .ok (v, rest') =>
        match skipBlanks rest' with
        | '\x7d' :: rest'' => .ok (.table (found.put name v), rest'')
        | ',' :: rest'' => entries fuel depth (found.put name v) (skipBlanks rest'')
        | _ => .error .malformed
  | _ + 1, _, _, _ => .error .malformed

end

/-- The value of a document of at most some depth.  Two steps for each character are enough: a list
takes one for its bracket and one for each item in it. -/
def document (depth : Nat) (text : List Char) : Except JsonError ConfigValue :=
  match value (2 * text.length + 2) depth (skipBlanks text) with
  | .ok (v, rest) => if (skipBlanks rest).isEmpty then .ok v else .error .malformed
  | .error e => .error e

end Json
end RubySource
