import RubySource.CodeUnit.Session
import RubySource.Config.Basic
import RubySource.Grammar
import RubySource.Input.Read

/-!
# Units made from objects

A unit is made from an object by reading it: the object is classified, the configuration is asked
for the encoding, the source is read, and, unless a grammar is given, the configuration is asked for
the grammar as well.  The first of these steps that fails is the one that is reported.

An object that is routed as the source itself need not be a text.  A unit is made of it all the
same, but no tree can be built for it.

## What is here

* `OpenError` — why no unit is made, and the wording.
* `Opened`, `Opened.make` — what is read from an object, and the grammar for it.
* `Opened.description` — the unit as it is shown before its tree is asked for.
* `Opened.unit` — the unit, if its code is a text.
-/

set_option autoImplicit false

namespace RubySource

/-- Why no unit is made from an object. -/
inductive OpenError
  | input (error : InputError)
  | config (error : ConfigError)
  | grammar (error : GrammarError)

/-- The wording of an error. -/
def OpenError.message : OpenError → String
  | .input e => e.message
  | .config e => e.message
  | .grammar e => e.message

/-- What is read from an object, and the grammar for it. -/
structure Opened where
  reading : Reading
  grammar : Grammar

namespace Opened

/-- Read an object in the encoding that is configured. -/
def read (fs : FileSystem) (config : ConfigValue) (object : SourceObject) :
    Except OpenError Reading := do
  let (route, inner) ← (classify object).mapError .input
  let encoding ← (Config.sourceEncoding config).mapError .config
  (route.read fs encoding inner).mapError .input

/-- The grammar that is given, or else the one that is configured. -/
def grammarFor (config : ConfigValue) : Option Grammar → Except OpenError Grammar
  | some grammar => .ok grammar
  | none => do
    let key ← (Config.grammarKey config).mapError .config
    (Grammar.get key).mapError .grammar

/-- Read an object, and settle the grammar for it. -/
def make (fs : FileSystem) (config : ConfigValue) (given : Option Grammar) (object : SourceObject) :
    Except OpenError Opened := do
  let reading ← read fs config object
  let grammar ← grammarFor config given
  .ok ⟨reading, grammar⟩

/-- The unit as it is shown before its tree is asked for. -/
def description (o : Opened) : String :=
  CodeUnit.describe o.reading.origin.written .untouched

/-- The unit; code that is no text cannot be handed to a grammar. -/
def unit (o : Opened) : Except InputError CodeUnit :=
  match o.reading.text with
  | .chunk (.value (.text code)) => .ok (CodeUnit.ofText code o.reading.origin.shown)
  | object => .error (.lacks object.fullTypeName "encode")

end Opened
end RubySource
