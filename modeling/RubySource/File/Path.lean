import RubySource.Text.Loose

/-!
# Names of files

A name is a sequence of parts with slashes between them.  Its *plain form* drops empty parts and
single dots; the empty name becomes a dot.

A *place* is where a name leads, told by its parts from the root of the system on.  Names are
followed from the working folder or, if they start with a slash, from the root.  Two dots lead to
the folder above; the root is the folder above itself.

## What is here

* `FilePath.parts`, `FilePath.looseParts` — the parts of a name, as they stand.
* `FilePath.plain`, `FilePath.within` — the plain form, and a name below another.
* `FilePath.Place`, `FilePath.Place.next` — places, and the place that a part leads to.
* `FilePath.Place.name` — the name of a place that does not depend on the working folder.
* `FilePath.settle` — the place of a name by its parts alone, without asking what is there.
-/

set_option autoImplicit false

namespace RubySource
namespace FilePath

/-- What stands before the first slash of a name and behind each; `part` is what is read of the
present part, backwards. -/
def partsFrom {α : Type} (isSlash : α → Bool) (part : List α) : List α → List (List α)
  | [] => [part.reverse]
  | c :: cs =>
    if isSlash c then part.reverse :: partsFrom isSlash [] cs else partsFrom isSlash (c :: part) cs

/-- The parts of a name, as they stand. -/
def parts (name : String) : List String :=
  (partsFrom (· == '/') [] name.toList).map String.ofList

/-- The parts of a name that may hold halves, as they stand. -/
def looseParts (name : LooseText) : List LooseText :=
  (partsFrom (· == .char '/') [] name.points).map LooseText.ofPoints

/-- Whether a part says something about the place. -/
def isSolid (part : LooseText) : Bool := part != "" && part != "."

/-- The slashes that a name starts with, if it is absolute: two stay two, any other number is
one. -/
def root (name : String) : String :=
  match name.toList with
  | '/' :: '/' :: '/' :: _ => "/"
  | '/' :: '/' :: _ => "//"
  | '/' :: _ => "/"
  | _ => ""

/-- Whether a name does not depend on the working folder. -/
def isAbsolute (name : String) : Bool := root name != ""

/-- Parts with slashes between them. -/
def joinParts (parts : List String) : String := "/".intercalate parts

/-- The parts of a name that say something about the place. -/
def solidParts (name : String) : List String :=
  (parts name).filter fun part : String => isSolid part

/-- The plain form of a name. -/
def plain (name : String) : String :=
  let written := root name ++ joinParts (solidParts name)
  if written.isEmpty then "." else written

/-- The plain form of a name below another one; `below` does not start with a slash. -/
def within (name below : String) : String :=
  plain (root name ++ joinParts (solidParts name ++ solidParts below))

/-! ## Places -/

/-- Where a name leads, by the parts from the root of the system on. -/
structure Place where
  parts : List LooseText
  deriving DecidableEq, Repr

namespace Place

/-- The root of the system. -/
def root : Place := ⟨[]⟩

/-- The folder above a place. -/
def parent (p : Place) : Place := ⟨p.parts.dropLast⟩

/-- The place that a part leads to. -/
def next (p : Place) (part : LooseText) : Place :=
  if part = ".." then p.parent
  else if isSolid part then ⟨p.parts ++ [part]⟩
  else p

/-- The place that several parts lead to. -/
def follow (p : Place) (parts : List LooseText) : Place := parts.foldl next p

/-- The characters and halves of the name of a place. -/
def points (p : Place) : List LooseText.Point :=
  if p.parts.isEmpty then [.char '/']
  else p.parts.flatMap fun part => .char '/' :: part.points

/-- The name of a place that does not depend on the working folder. -/
def name (p : Place) : LooseText := .ofPoints p.points

end Place

/-- The place of a name by its parts alone; `working` is the place of the working folder. -/
def settle (working : Place) (name : LooseText) : Place :=
  Place.root.follow
    (if isAbsolute name.front then looseParts name else working.parts ++ looseParts name)

end FilePath
end RubySource
