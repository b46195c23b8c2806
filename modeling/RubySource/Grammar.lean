import RubySource.Value.Text

/-!
# The grammars that are known

A grammar is asked for by a key.  One is known.

## What is here

* `Grammar`, `Grammar.key`, `Grammar.label` — the grammars.
* `Grammar.find?` — the grammar of a key; a list or a table cannot be a key.
* `Grammar.get` — the same, where an unknown key is an error.
-/

set_option autoImplicit false

namespace RubySource

/-- A grammar. -/
inductive Grammar
  | ruby
  deriving DecidableEq, Repr

/-- Why there is no grammar. -/
inductive GrammarError
  | unknown (key : ConfigValue)
  /-- The value cannot be a key. -/
  | noKey (typeName : String)

/-- The wording of an error. -/
def GrammarError.message : GrammarError → String
  | .unknown key => "No parser available for grammar: " ++ key.written
  | .noKey typeName => "unhashable type: '" ++ typeName ++ "'"

namespace Grammar

/-- The key of a grammar. -/
def key : Grammar → String
  | ruby => "ruby"

/-- The word for what reads a grammar. -/
def label : Grammar → String
  | ruby => "RubyParser"

/-- All grammars. -/
def all : List Grammar := [ruby]

/-- The grammar that is used when none is asked for. -/
def standard : Grammar := ruby

/-- The grammar of a key, if it is known. -/
def find? (key : ConfigValue) : Except GrammarError (Option Grammar) :=
  match key with
  | .list _ | .table _ => .error (.noKey key.typeName)
  | .text s => .ok (all.find? fun g => (g.key : LooseText) == s)
  | _ => .ok none

/-- The grammar of a key. -/
def get (key : ConfigValue) : Except GrammarError Grammar :=
  match find? key with
  | .ok (some g) => .ok g
  | .ok none => .error (.unknown key)
  | .error e => .error e

end Grammar
end RubySource
