import RubySource.Ast.Basic

/-!
# Searching a commented tree

A search goes through a tree in preorder and reports the nodes of some types.  It does not go below
a node of an ignored type, but reports the node itself if it is of a type searched for; the node
that the search starts from is always gone into.

The search keeps the nodes that are still to be visited on a stack.  Each visit takes one off and
puts its children in its place, so that the sizes of the trees on the stack add up to one less.

## What is here

* `Ast.Found` — a node and its address.
* `Ast.visits` — the work of a search; `Ast.eachNode` — its result.
* `Ast.containsNested` — whether a node of a type lies below.
* `Ast.commented` — the nodes that hold comments.
-/

set_option autoImplicit false

namespace RubySource
namespace Ast

/-- A node, and its address from where the search started. -/
structure Found where
  address : Address
  node : Ast

/-- The children of a node, found from it. -/
def Found.children (f : Found) : List Found :=
  f.node.children.mapIdx fun i a => ⟨f.address ++ [.child i], a⟩

/-- The number of nodes on a stack and below. -/
def pending (stack : List Found) : Nat :=
  sizeIn (stack.map (·.node))

theorem sizeIn_append (xs ys : List Ast) : sizeIn (xs ++ ys) = sizeIn xs + sizeIn ys := by
  induction xs with
  | nil => simp [sizeIn]
  | cons x xs ih => simp [sizeIn, ih, Nat.add_assoc]

theorem pending_children (f : Found) (rest : List Found) :
    pending (f.children ++ rest) + 1 = f.node.size + pending rest := by
  have h : (f.children.map (·.node)) = f.node.children := by
    apply List.ext_getElem <;> simp [Found.children]
  obtain ⟨address, ⟨info, children, annexed⟩⟩ := f
  rw [pending, List.map_append, sizeIn_append, h]
  simp only [Ast.children, size, pending]
  omega

theorem size_pos (a : Ast) : 0 < a.size := by
  cases a; simp only [size]; omega

/-- The nodes found from a stack of nodes to visit.  A node at the empty address is the one that the
search started from. -/
def visits (targets ignored : String → Bool) : List Found → List Found
  | [] => []
  | f :: rest =>
    let here := if targets f.node.type then [f] else []
    if f.address ≠ [] ∧ ignored f.node.type then here ++ visits targets ignored rest
    else here ++ visits targets ignored (f.children ++ rest)
termination_by stack => pending stack
decreasing_by
  · have := size_pos f.node
    simp only [pending, List.map_cons, sizeIn]; omega
  · have := pending_children f rest
    simp only [pending, List.map_cons, sizeIn] at this ⊢; omega

/-- The nodes of the target types, in preorder, without those below a node of an ignored type. -/
def eachNode (a : Ast) (targets ignored : String → Bool) : List Found :=
  visits targets ignored [⟨[], a⟩]

/-- Whether a node of a type lies below. -/
def containsNested (a : Ast) (type : String) : Bool :=
  (a.eachNode (· == type) fun _ => false).any (·.address ≠ [])

/-- The nodes that hold comments, in preorder. -/
def commented (a : Ast) : List Ast :=
  ((a.eachNode (fun _ => true) fun _ => false).map (·.node)).filter fun n => !n.comments.isEmpty

end Ast
end RubySource
