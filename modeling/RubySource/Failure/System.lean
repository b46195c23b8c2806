import RubySource.Failure.Basic

/-!
# Refusals by the system

The system refuses an operation with a number and a reason, and maybe for a path or two.  The number
tells the name of the refusal, unless a name is given.

## What is here

* `Failure.systemNames`, `Failure.nameFor` — the names.
* `Failure.ofSystem` — a refusal from its details.
-/

set_option autoImplicit false

namespace RubySource
namespace Failure

/-- The names of refusals by the system, by number. -/
def systemNames : List (Int × String) :=
  [(1, "PermissionError"), (2, "FileNotFoundError"), (3, "ProcessLookupError"),
   (4, "InterruptedError"), (10, "ChildProcessError"), (11, "BlockingIOError"),
   (13, "PermissionError"), (17, "FileExistsError"), (20, "NotADirectoryError"),
   (21, "IsADirectoryError"), (32, "BrokenPipeError"), (103, "ConnectionAbortedError"),
   (104, "ConnectionResetError"), (108, "BrokenPipeError"), (110, "TimeoutError"),
   (111, "ConnectionRefusedError"), (114, "BlockingIOError"), (115, "BlockingIOError")]

/-- The name that all refusals by the system share. -/
def systemName : String := "OSError"

/-- The name in force for a given one: the shared name has two synonyms. -/
def properName (name : String) : String :=
  if name = "IOError" ∨ name = "EnvironmentError" then systemName else name

/-- Whether a name is one of a refusal by the system. -/
def isSystemName (name : String) : Bool :=
  name == systemName || name == "ConnectionError" || systemNames.any (·.2 == name)

/-- The name of a refusal with a number, from the name it is given. -/
def nameFor (name : String) (number : Value String) : String :=
  if name = systemName then
    match number with
    | .int n => (systemNames.lookup n).getD systemName
    | .bool true => (systemNames.lookup 1).getD systemName
    | _ => systemName
  else name

/-- The paths among the details behind number and reason: the first of them, and the third. -/
def pathsOf : List (Value String) → List (Value String)
  | [] | .null :: _ => []
  | [path, _, .null] => [path]
  | [path, _, other] => [path, other]
  | path :: _ => [path]

/-- The paths of a refusal, behind a colon. -/
def pathsText : List (Value String) → String
  | [] => ""
  | [path] => ": " ++ path.writtenFixed
  | path :: other :: _ => ": " ++ path.writtenFixed ++ " -> " ++ other.writtenFixed

/-- The name of the refusal to wait. -/
def waitName : String := "BlockingIOError"

/-- Whether a number fits into 64 bits with a sign. -/
def fitsWord (n : Int) : Bool :=
  -(Int.pow 2 63) ≤ n && n < Int.pow 2 63

/-- A refusal by the system with a number, a reason and more details.  For the refusal to wait, a
number in the place of the path is a count, which is not told and must fit into 64 bits. -/
def ofSystem (name : String) (number reason : Value String) (more : List (Value String)) :
    Except Failure Failure :=
  let name := nameFor name number
  let stem := "[Errno " ++ number.shown ++ "] " ++ reason.shown
  let told : Failure := ⟨name, stem ++ pathsText (pathsOf more)⟩
  if name = waitName then
    match more with
    | .int n :: _ =>
      if fitsWord n then .ok ⟨name, stem⟩
      else .error ⟨"ValueError", "cannot fit 'int' into an index-sized integer"⟩
    | .bool _ :: _ => .ok ⟨name, stem⟩
    | .real _ :: _ => .error (wrongType "'float' object cannot be interpreted as an integer")
    | _ => .ok told
  else .ok told

end Failure
end RubySource
