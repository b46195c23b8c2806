import RubySource.ParseTree.Basic

/-!
# Comments

A comment is a token of the source: its text, without the carriage return that a two-character line
end leaves on it, and its place.

## What is here

* `Comment`, `Comment.line` — comments, and the line they start on.
* `Comment.ofNode` — the comment that a node of a parse tree stands for.
* `comments` — the comments below a node, in preorder.  A comment is not looked into.
-/

set_option autoImplicit false

namespace RubySource

/-- A comment and its place in the source. -/
structure Comment where
  text : String
  span : Span
  deriving DecidableEq, Repr, Inhabited

namespace Comment

def startByte (c : Comment) : Nat := c.span.startByte

def stopByte (c : Comment) : Nat := c.span.stopByte

/-- The line a comment starts on, counted from one. -/
def line (c : Comment) : Nat := c.span.start.row + 1

/-- A text without the one carriage return at its end. -/
def dropReturn (cs : List Char) : List Char :=
  if cs.getLast? = some '\r' then cs.dropLast else cs

/-- The comment that a node stands for. -/
def ofNode (source : Bytes) (t : ParseTree) : Comment :=
  ⟨String.ofList (dropReturn (Utf8.decodeLossy (t.text source))), t.span⟩

end Comment

namespace ParseTree

mutual

/-- The comments below a node, in preorder, among anonymous nodes too. -/
def comments (source : Bytes) : ParseTree → List Comment
  | .node _ children => commentsIn source children

/-- The comments among several trees and below those that are none. -/
def commentsIn (source : Bytes) : List ParseTree → List Comment
  | [] => []
  | t :: ts =>
    (if t.isComment then [Comment.ofNode source t] else comments source t) ++ commentsIn source ts

end

end ParseTree
end RubySource
