import RubySource.Failure.Basic
import RubySource.Text.Hex

/-!
# Failures to encode or decode

Such a failure tells the character set, the text, the first place that cannot be coded and the place
behind the last one, and a reason.  It names a single character by its number.

## What is here

* `Failure.Detail`, `Failure.checkDetails` — the form that the details must have.
* `Failure.codingText` — the wording.
* `Failure.ofCoding?` — the failure of a name, if it is one of these.
-/

set_option autoImplicit false

namespace RubySource
namespace Failure

/-- What a detail must be. -/
inductive Detail
  | text
  | number
  | anything
  deriving DecidableEq, Repr

/-- Why a detail is not what it must be; `index` is its place, counted from one. -/
def detailError (index : Nat) (v : Value String) : Detail → Option Failure
  | .anything => none
  | .text =>
    match v with
    | .text _ => none
    | .null => some (wrongType ("argument " ++ toString index ++ " must be str, not None"))
    | v =>
      some (wrongType ("argument " ++ toString index ++ " must be str, not " ++ v.fixedTypeName))
  | .number =>
    match v with
    | .int _ | .bool _ => none
    | v =>
      some (wrongType ("'" ++ v.fixedTypeName ++ "' object cannot be interpreted as an integer"))

/-- Why the first detail that is not what it must be is not. -/
def checkDetails (index : Nat) : List Detail → List (Value String) → Option Failure
  | d :: ds, v :: vs => (detailError index v d).orElse fun _ => checkDetails (index + 1) ds vs
  | _, _ => none

/-- The number that a detail is. -/
def numberOf : Value String → Int
  | .int n => n
  | .bool true => 1
  | _ => 0

/-- The text that a detail is. -/
def textOf : Value String → String
  | .text s => s
  | _ => ""

/-- A character by its number. -/
def characterText (c : Char) : String :=
  let n := c.toNat
  String.ofList (if n < 0x100 then '\\' :: 'x' :: Text.hexDigits 2 n
    else if n < 0x10000 then '\\' :: 'u' :: Text.hexDigits 4 n
    else '\\' :: 'U' :: Text.hexDigits 8 n)

/-- The wording: what cannot be done with which characters, and why. -/
def codingText (deed text : String) (start stop : Int) (reason : String) : String :=
  match if 0 ≤ start ∧ stop = start + 1 then text.toList[start.toNat]? else none with
  | some c =>
    deed ++ " character '" ++ characterText c ++ "' in position " ++ toString start ++ ": "
      ++ reason
  | none =>
    deed ++ " characters in position " ++ toString start ++ "-" ++ toString (stop - 1) ++ ": "
      ++ reason

/-- A failure that asks for details of some form. -/
def ofForm (form : List Detail) (details : List (Value String)) (make : Failure) :
    Except Failure Failure :=
  if details.length ≠ form.length then
    .error (wrongType ("function takes exactly " ++ toString form.length ++ " arguments ("
      ++ toString details.length ++ " given)"))
  else
    match checkDetails 1 form details with
    | some e => .error e
    | none => .ok make

/-- The failure of a name, if it is one to encode, to translate or to decode.  One to decode would
need raw bytes, which no plain value is. -/
def ofCoding? (name : String) (details : List (Value String)) : Option (Except Failure Failure) :=
  match name with
  | "UnicodeEncodeError" => some <|
    let text := match details with
      | [charset, text, start, stop, reason] =>
        codingText ("'" ++ textOf charset ++ "' codec can't encode") (textOf text) (numberOf start)
          (numberOf stop) (textOf reason)
      | _ => ""
    ofForm [.text, .text, .number, .number, .text] details ⟨name, text⟩
  | "UnicodeTranslateError" => some <|
    let text := match details with
      | [text, start, stop, reason] =>
        codingText "can't translate" (textOf text) (numberOf start) (numberOf stop) (textOf reason)
      | _ => ""
    ofForm [.text, .number, .number, .text] details ⟨name, text⟩
  | "UnicodeDecodeError" => some <|
    match ofForm [.text, .anything, .number, .number, .text] details ⟨name, ""⟩ with
    | .error e => .error e
    | .ok _ =>
      let given := (details[1]?.map Value.fixedTypeName).getD ""
      .error (wrongType ("a bytes-like object is required, not '" ++ given ++ "'"))
  | _ => none

end Failure
end RubySource
