import RubySource.Text.Loose

/-!
# Plain values

Nothing, truth values, whole numbers, numbers with a fraction, texts, lists, and tables from keys to
values.  A table keeps its entries in the order in which their keys were first put in, and has each
key once.

There are values with two kinds of texts.  What a caller or a grammar hands over has strings.  What
a configuration holds has loose texts, because a file of settings may escape half a character.

## What is here

* `Wording` — a kind of texts; strings and loose texts are two.
* `Value` — the values; `ConfigValue`, `Entries` — those of a configuration, and the entries of its
  tables.
* `Value.typeName` — the word for a value's type in messages.
* `Value.isTruthy` — whether a value counts as given: nothing, false, zero and empty do not;
  `Value.isTruthy_text_iff`.
* `Entries.find?`, `Entries.put` — looking up and setting a key, with `find?_put`.
-/

set_option autoImplicit false

namespace RubySource

/-- A kind of texts: which of them is empty, and how they are quoted. -/
class Wording (τ : Type) where
  isEmpty : τ → Bool
  quoted : τ → String

instance : Wording String := ⟨String.isEmpty, RubySource.quoted⟩

instance : Wording LooseText := ⟨LooseText.isEmpty, LooseText.quoted⟩

/-- A plain value with texts of some kind. -/
inductive Value (τ : Type)
  | null
  | bool (b : Bool)
  | int (n : Int)
  | real (x : Float)
  | text (s : τ)
  | list (items : List (Value τ))
  | table (entries : List (τ × Value τ))
  deriving Inhabited

/-- A value that a configuration holds. -/
abbrev ConfigValue := Value LooseText

/-- The entries of a table of a configuration. -/
abbrev Entries := List (LooseText × ConfigValue)

namespace Entries

/-- The value of a key. -/
def find? : Entries → LooseText → Option ConfigValue
  | [], _ => none
  | (k, v) :: rest, key => if k = key then some v else find? rest key

/-- Set the value of a key, at its place if it has one and at the end otherwise. -/
def put (key : LooseText) (value : ConfigValue) : Entries → Entries
  | [] => [(key, value)]
  | (k, v) :: rest => if k = key then (k, value) :: rest else (k, v) :: put key value rest

/-- After a key is set it has that value, and every other key has the value it had. -/
theorem find?_put (entries : Entries) (key other : LooseText) (value : ConfigValue) :
    (put key value entries).find? other =
      if key = other then some value else entries.find? other := by
  induction entries with
  | nil => simp [put, find?]
  | cons e rest ih =>
    obtain ⟨k, v⟩ := e
    by_cases hk : k = key
    · subst hk
      by_cases ho : k = other <;> simp [put, find?, ho]
    · by_cases ho : k = other
      · subst ho; simp [put, find?, hk, Ne.symm hk]
      · simp [put, find?, hk, ho, ih]

end Entries

namespace Value

variable {τ : Type}

/-- The word for the type of a value. -/
def typeName : Value τ → String
  | .null => "NoneType"
  | .bool _ => "bool"
  | .int _ => "int"
  | .real _ => "float"
  | .text _ => "str"
  | .list _ => "list"
  | .table _ => "dict"

/-- The word for the type of a value whose lists are sequences of fixed length. -/
def fixedTypeName : Value τ → String
  | .list _ => "tuple"
  | v => v.typeName

/-- Whether a value counts as given. -/
def isTruthy [Wording τ] : Value τ → Bool
  | .null => false
  | .bool b => b
  | .int n => n != 0
  | .real x => x != 0
  | .text s => !Wording.isEmpty s
  | .list items => !items.isEmpty
  | .table entries => !entries.isEmpty

/-- A text counts as given unless it is empty. -/
theorem isTruthy_text_iff {t : LooseText} : (text t).isTruthy = true ↔ t ≠ "" := by
  rw [isTruthy, Bool.not_eq_true', Ne, ← LooseText.isEmpty_iff, Bool.not_eq_true]
  rfl

/-- A value that counts as given, or else another one. -/
def orElse [Wording τ] (v fallback : Value τ) : Value τ :=
  if v.isTruthy then v else fallback

/-- The value of a key of a table; nothing where there is none. -/
def getKey (entries : Entries) (key : LooseText) : ConfigValue :=
  (entries.find? key).getD .null

end Value
end RubySource
