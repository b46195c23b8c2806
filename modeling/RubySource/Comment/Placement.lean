import RubySource.Comment.Directive

/-!
# Placing comments on nodes

Every comment is placed on the node it documents.  The comments wait in a queue, in the order of the
source, and the code nodes of the tree are visited depth first.  Each visit makes three offers:

* on entering a node, to every comment that ends before the node starts — wrappers make no such
  offer, their first statement does;
* after the children, to every comment that ends inside the node;
* after that, to every comment on the node's last line with only blanks in between.  The outermost
  node that ends there makes this offer, and a node in the header of a definition makes it on behalf
  of the definition.

An offer takes comments from the front of the queue for as long as it accepts them; the first one it
does not accept waits for a later offer, and all those behind it wait too.

## What is here

* `Excerpt` — the bytes of the visited tree and where they start.
* `Offer`, `Offer.target`, `Offer.accepts` — the offers; `ParseTree.offers` lists them in the order
  in which they are made.
* `Placement`, `serve`, `serveAll` — comments taken from the queue; `serveAll_comments` says that
  what is placed and what is left are the queue.
* `CommentMap` — the placements, read node by node.
* `associate` — the placing of all comments of a tree but its directives.
-/

set_option autoImplicit false

namespace RubySource

/-- A part of a source: its bytes, and the place of the first one in the whole source. -/
structure Excerpt where
  bytes : Bytes
  offset : Nat

/-- The bytes between two places of the whole source. -/
def Excerpt.between (e : Excerpt) (start stop : Nat) : Bytes :=
  Bytes.sliceAround e.bytes ((start : Int) - e.offset) ((stop : Int) - e.offset)

namespace ParseTree

/-- The node that a comment beside a node documents: the definition whose header holds the node, or
else the node itself. -/
def owner (parent : Option ParseTree) (t : ParseTree) : ParseTree :=
  match parent with
  | none => t
  | some p =>
    if p.isDefinition then
      match p.childInField? "body" with
      | some body => if body.id = t.id then t else p
      | none => p
    else t

/-- Whether a node is the outermost one that ends where it ends, wrappers left out. -/
def endsOutermost (parent : Option ParseTree) (t : ParseTree) : Bool :=
  match parent with
  | none => true
  | some p => p.isWrapper || p.stopByte != t.stopByte

/-- Whether a comment stands on the last line of a node with only blanks in between. -/
def isBeside (excerpt : Excerpt) (t : ParseTree) (c : Comment) : Bool :=
  c.span.start.row == t.span.stop.row
    && Text.allBlank (excerpt.between t.stopByte c.startByte)

end ParseTree

/-- An offer to waiting comments. -/
inductive Offer
  /-- Made on entering a node, to comments above it. -/
  | above (t : ParseTree)
  /-- Made after the children of a node, to comments in it. -/
  | inside (t : ParseTree)
  /-- Made after that, to comments beside the end of the node. -/
  | beside (parent : Option ParseTree) (t : ParseTree)

namespace Offer

/-- The node that an offer places comments on. -/
def target : Offer → Nat
  | above t => t.id
  | inside t => t.id
  | beside parent t => (t.owner parent).id

/-- Whether an offer is to a comment. -/
def accepts (excerpt : Excerpt) : Offer → Comment → Bool
  | above t, c => !t.isWrapper && c.stopByte ≤ t.startByte
  | inside t, c => c.stopByte ≤ t.stopByte
  | beside parent t, c => t.endsOutermost parent && t.isBeside excerpt c

end Offer

namespace ParseTree

mutual

/-- The offers that the visit of a node makes. -/
def offers (parent : Option ParseTree) : ParseTree → List Offer
  | .node label children =>
    let t := ParseTree.node label children
    .above t :: offersIn t children ++ [.inside t, .beside parent t]

/-- The offers that the visits of the code nodes among several children make. -/
def offersIn (parent : ParseTree) : List ParseTree → List Offer
  | [] => []
  | t :: ts => (if t.isCode then offers (some parent) t else []) ++ offersIn parent ts

end

end ParseTree

/-- A comment and the node it is placed on. -/
structure Placement where
  node : Nat
  comment : Comment
  deriving DecidableEq, Repr

namespace Placement

/-- Let an offer take comments from the front of the queue. -/
def serve (excerpt : Excerpt) (offer : Offer) (queue : List Comment) :
    List Placement × List Comment :=
  ((queue.takeWhile (offer.accepts excerpt)).map (⟨offer.target, ·⟩),
    queue.dropWhile (offer.accepts excerpt))

/-- Let offers take comments one after the other. -/
def serveAll (excerpt : Excerpt) : List Offer → List Comment → List Placement × List Comment
  | [], queue => ([], queue)
  | offer :: offers, queue =>
    let now := serve excerpt offer queue
    let later := serveAll excerpt offers now.2
    (now.1 ++ later.1, later.2)

theorem serve_comments (excerpt : Excerpt) (offer : Offer) (queue : List Comment) :
    (serve excerpt offer queue).1.map comment ++ (serve excerpt offer queue).2 = queue := by
  simp [serve, Function.comp_def, List.takeWhile_append_dropWhile]

/-- **Nothing is lost, doubled or moved.**  The comments that are placed, in the order of placing,
and those that are left are the queue. -/
theorem serveAll_comments (excerpt : Excerpt) (offers : List Offer) (queue : List Comment) :
    (serveAll excerpt offers queue).1.map comment ++ (serveAll excerpt offers queue).2 = queue := by
  induction offers generalizing queue with
  | nil => rfl
  | cons offer offers ih =>
    simp only [serveAll, List.map_append, List.append_assoc, ih]
    exact serve_comments excerpt offer queue

/-- Offers may be made in two goes. -/
theorem serveAll_append (excerpt : Excerpt) (xs ys : List Offer) (queue : List Comment) :
    serveAll excerpt (xs ++ ys) queue
      = ((serveAll excerpt xs queue).1 ++ (serveAll excerpt ys (serveAll excerpt xs queue).2).1,
          (serveAll excerpt ys (serveAll excerpt xs queue).2).2) := by
  induction xs generalizing queue with
  | nil => rfl
  | cons x xs ih => simp [serveAll, ih]

end Placement

/-- The comments of each node, as placements in the order in which they are made. -/
structure CommentMap where
  placements : List Placement
  deriving DecidableEq, Repr

namespace CommentMap

/-- The map that places nothing. -/
def empty : CommentMap := ⟨[]⟩

/-- The map from nodes to comments, given node by node. -/
def ofLists (entries : List (Nat × List Comment)) : CommentMap :=
  ⟨entries.flatMap fun e => e.2.map fun c => ⟨e.1, c⟩⟩

/-- The comments of a node. -/
def get (m : CommentMap) (node : Nat) : List Comment :=
  (m.placements.filter (·.node == node)).map (·.comment)

/-- The nodes that have comments, each once. -/
def keys (m : CommentMap) : List Nat :=
  (m.placements.map (·.node)).eraseDups

end CommentMap

/-- The comments in the order of the source; comments that start together stay in their order. -/
def inSourceOrder (comments : List Comment) : List Comment :=
  comments.mergeSort fun a b => a.startByte ≤ b.startByte

/-- Place comments on the code nodes of a tree, which may lie below a parent. -/
def associate (source : Bytes) (parent : Option ParseTree) (t : ParseTree)
    (comments : List Comment) : CommentMap :=
  let excerpt : Excerpt := ⟨t.text source, t.startByte⟩
  let queue := Directive.dropDirectives (inSourceOrder comments)
  ⟨(Placement.serveAll excerpt (t.offers parent) queue).1⟩

end RubySource
