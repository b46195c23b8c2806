import RubySource.Failure.Coding
import RubySource.Failure.System
import RubySource.SyntaxReport

/-!
# Why a grammar does not answer

A grammar that does not answer either refuses the text as malformed, with a report, or fails for a
reason of its own.  Only the first is a finding about the text.

A refusal is one by how it was made and not by its name.  The check of Ruby trees makes its own, and
every other grammar one of three sorts.  A sort that a grammar derives from one of the three counts
as that one, under its name.

## What is here

* `Failure.ofDetails` — the failure of a name with details, in the form that its name asks for.
* `Fault` — a refusal or a failure, with its `name` and its `text`.
* `Fault.detail` — the part of a fault that is worth quoting; it is never empty unless the name is
  (`Fault.detail_ne_empty`).
* `Fault.ofDetails` — the fault of a name with details.
-/

set_option autoImplicit false

namespace RubySource

/-- The failure of a name with details, in the form that its name asks for.  Between two and five
details of a refusal by the system are its number, its reason and its paths. -/
def Failure.ofDetails (given : String) (details : List (Value String)) :
    Except Failure Failure :=
  let name := properName given
  match ofCoding? name details with
  | some made => made
  | none =>
    match details with
    | [key] => .ok (if name = "KeyError" then ⟨name, key.writtenFixed⟩ else plain name details)
    | number :: reason :: more =>
      if isSystemName name && more.length ≤ 3 then ofSystem name number reason more
      else .ok (plain name details)
    | [] => .ok (plain name details)

/-- Why a grammar does not answer. -/
inductive Fault
  /-- The check of Ruby trees refuses the text. -/
  | refused (report : SyntaxReport)
  /-- A grammar of any other making refuses the text. -/
  | malformed (report : RawReport)
  | failure (failure : Failure)

namespace Fault

/-- The name of the sort of a fault. -/
def name : Fault → String
  | .refused _ => "RubySyntaxError"
  | .malformed r =>
    match r.rule with
    | .general => "SyntaxError"
    | .indentation => "IndentationError"
    | .tabs => "TabError"
  | .failure f => f.name

/-- The text of a fault. -/
def text : Fault → String
  | .refused r => r.headline
  | .malformed r => r.headline
  | .failure f => f.text

/-- The text of a fault, or its name if it has none. -/
def wording (fault : Fault) : String :=
  if fault.text.isEmpty then fault.name else fault.text

/-- The message of a report, without the place; empty where there is none. -/
def message : Fault → String
  | .refused r => r.message
  | .malformed r => if r.message.isTruthy then r.message.shown else ""
  | .failure _ => ""

/-- The message of a report that has one, and otherwise the wording. -/
def detail (fault : Fault) : String :=
  if fault.message.isEmpty then fault.wording else fault.message

theorem wording_ne_empty {fault : Fault} (h : fault.name ≠ "") : fault.wording ≠ "" := by
  unfold wording
  split
  · exact h
  · next ht => simpa using ht

/-- The detail of a fault is never empty, as long as its sort has a name. -/
theorem detail_ne_empty {fault : Fault} (h : fault.name ≠ "") : fault.detail ≠ "" := by
  unfold detail
  split
  · exact wording_ne_empty h
  · next hm => simpa using hm

/-- The rule whose breach goes by a name. -/
def ruleOfName? (name : String) : Option RawReport.Rule :=
  [("SyntaxError", RawReport.Rule.general), ("IndentationError", .indentation),
   ("TabError", .tabs)].lookup name

/-- The fault of a name with details; the failure to make it if the details are not such as its name
asks for. -/
def ofDetails (name : String) (details : List (Value String)) : Except Failure Fault :=
  match ruleOfName? name with
  | some rule =>
    match RawReport.ofDetails rule details with
    | .ok report => .ok (.malformed report)
    | .error e => .error (.wrongType e)
  | none => (Failure.ofDetails name details).map .failure

end Fault
end RubySource
