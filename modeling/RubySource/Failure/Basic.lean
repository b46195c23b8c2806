import RubySource.Value.Text

/-!
# Failures

A grammar may fail for a reason that says nothing about the text.  What can be told of such a
failure is its name and its text.  A failure is made from its name and any details, but some names
ask for details of a certain form, and making the failure then fails itself if they are of another.

## What is here

* `Failure` — a failure.
* `Failure.plain` — the failure of a name that asks for nothing.
* `Failure.wrongType` — the failure to make another one.
-/

set_option autoImplicit false

namespace RubySource

/-- A failure that says nothing about the text. -/
structure Failure where
  name : String
  text : String
  deriving DecidableEq, Repr, Inhabited

namespace Failure

/-- The text of details: nothing, the one detail, or all of them in parentheses. -/
def plainText : List (Value String) → String
  | [] => ""
  | [detail] => detail.shown
  | details => tupleText (details.map Value.writtenFixed)

/-- A failure with any details. -/
def plain (name : String) (details : List (Value String)) : Failure := ⟨name, plainText details⟩

/-- A failure because something is of the wrong type. -/
def wrongType (text : String) : Failure := ⟨"TypeError", text⟩

end Failure
end RubySource
