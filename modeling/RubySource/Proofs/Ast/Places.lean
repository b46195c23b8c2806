import Mathlib.Data.List.Flatten
import RubySource.Ast.Search
import RubySource.Proofs.Ast.OfParseTree

/-!
# Nodes and where they are found

Two nodes of a commented tree may look alike in every respect, so that statements about *which*
nodes a search reports are statements about addresses.  Here the nodes of a tree are listed with
their addresses, in preorder, by plain recursion.  Preorder itself is an order on addresses: the
dictionary order, in which a node comes before all nodes below it.

## What is here

* `Ast.Contains` — a node is found at an address by going from child to child.
* `Ast.Precedes` — preorder on addresses; no address precedes itself (`not_precedes_self`).
* `Found.subtree`, `Ast.places` — the nodes of a tree with their addresses, in preorder;
  `Found.subtree_eq` opens the list and `down_induction` goes along it.
* `mem_places_iff`, `pairwise_places` — **the places of a tree** are what it contains, in preorder;
  `map_node_places` and `length_places` forget the addresses.
-/

set_option autoImplicit false

namespace RubySource
namespace Ast

/-! ## Addresses -/

/-- Whether a step leads to a child. -/
def Step.isChild : Step → Bool
  | .child _ => true
  | .annexed _ => false

/-- Steps to children lead from a tree to a node at its address. -/
def Contains (a : Ast) (f : Found) : Prop :=
  a.at? f.address = some f.node ∧ ∀ s ∈ f.address, s.isChild = true

/-- The one step leads to an earlier child than the other. -/
def Step.IsLeftOf : Step → Step → Prop
  | .child i, .child j => i < j
  | _, _ => False

/-- The one address comes before the other in preorder: a node before those below it, and what is
below a child before what is below later children. -/
def Precedes (p q : Address) : Prop :=
  List.Lex Step.IsLeftOf p q

theorem Step.not_isLeftOf_self (s : Step) : ¬ s.IsLeftOf s := by
  cases s with
  | child i => exact Nat.lt_irrefl i
  | annexed i => exact id

theorem not_precedes_self (p : Address) : ¬ Precedes p p :=
  List.lex_irrefl Step.not_isLeftOf_self p

/-- A node comes before those below it. -/
theorem precedes_append (p : Address) {q : Address} (h : q ≠ []) : Precedes p (p ++ q) := by
  induction p with
  | nil =>
    obtain ⟨s, rest, rfl⟩ := List.exists_cons_of_ne_nil h
    exact .nil
  | cons s p ih => exact .cons ih

/-- What is below a child comes before what is below later children. -/
theorem precedes_fork (p : Address) {i j : Nat} (h : i < j) (q r : Address) :
    Precedes (p ++ .child i :: q) (p ++ .child j :: r) := by
  induction p with
  | nil => exact .rel h
  | cons s p ih => exact .cons ih

/-! ## Listing the nodes -/

mutual

/-- The nodes of a tree that is found at an address, in preorder. -/
def placesFrom (address : Address) : Ast → List Found
  | .node info children annexed =>
    ⟨address, .node info children annexed⟩ :: placesAmong address 0 children

/-- The nodes of the children from the `i`-th on, their parent being found at an address. -/
def placesAmong (address : Address) (i : Nat) : List Ast → List Found
  | [] => []
  | a :: rest => placesFrom (address ++ [.child i]) a ++ placesAmong address (i + 1) rest

end

/-- The nodes of the tree under a node that has been found, itself first, in preorder. -/
def Found.subtree (f : Found) : List Found := f.node.placesFrom f.address

/-- The nodes of a tree with their addresses, in preorder. -/
def places (a : Ast) : List Found := Found.subtree ⟨[], a⟩

theorem placesAmong_eq (address : Address) (i : Nat) (as : List Ast) :
    placesAmong address i as
      = (as.mapIdx fun j a =>
          (⟨address ++ [.child (i + j)], a⟩ : Found)).flatMap Found.subtree := by
  induction as generalizing i with
  | nil => rfl
  | cons a as ih =>
    rw [placesAmong, ih, List.mapIdx_cons, List.flatMap_cons]
    simp only [Nat.add_zero, Nat.add_right_comm i 1, Nat.add_assoc i _ 1]
    rfl

/-- The nodes of a subtree are its root and those of the subtrees of the children. -/
theorem Found.subtree_eq (f : Found) : f.subtree = f :: f.children.flatMap Found.subtree := by
  obtain ⟨address, ⟨info, children, annexed⟩⟩ := f
  rw [Found.subtree, placesFrom, placesAmong_eq]
  simp only [Nat.zero_add]
  rfl

theorem Found.mem_children_iff {f g : Found} :
    g ∈ f.children
      ↔ ∃ i a, f.node.children[i]? = some a ∧ g = ⟨f.address ++ [.child i], a⟩ := by
  rw [Found.children, List.mem_mapIdx]
  constructor
  · rintro ⟨i, hi, rfl⟩
    exact ⟨i, f.node.children[i], List.getElem?_eq_getElem hi, rfl⟩
  · rintro ⟨i, a, ha, rfl⟩
    obtain ⟨hi, rfl⟩ := List.getElem?_eq_some_iff.1 ha
    exact ⟨i, hi, rfl⟩

theorem Found.map_node_children (f : Found) : f.children.map Found.node = f.node.children := by
  apply List.ext_getElem <;> simp [Found.children]

/-- What holds of a node as soon as it holds of its children holds of every node, wherever it is
found. -/
@[elab_as_elim]
theorem Found.down_induction {motive : Found → Prop}
    (visit : ∀ f : Found, (∀ g ∈ f.children, motive g) → motive f) (f : Found) : motive f :=
  visit f fun g _ => Found.down_induction visit g
termination_by sizeOf f.node
decreasing_by
  obtain ⟨i, a, ha, rfl⟩ := Found.mem_children_iff.1 ‹_›
  obtain ⟨address, ⟨info, children, annexed⟩⟩ := f
  have hlt := List.sizeOf_lt_of_mem (List.mem_of_getElem? ha)
  simp only [node.sizeOf_spec, Ast.children] at hlt ⊢
  omega

/-! ## What is listed -/

/-- A subtree lists what its root contains. -/
theorem Found.mem_subtree_iff {f g : Found} :
    g ∈ f.subtree ↔ ∃ p, g.address = f.address ++ p ∧ f.node.Contains ⟨p, g.node⟩ := by
  induction f using Found.down_induction generalizing g with
  | visit f ih =>
    rw [Found.subtree_eq, List.mem_cons, List.mem_flatMap]
    constructor
    · rintro (rfl | ⟨h, hh, hg⟩)
      · exact ⟨[], by simp, rfl, by simp⟩
      · obtain ⟨p, haddress, hat, hdown⟩ := (ih h hh).1 hg
        obtain ⟨i, a, ha, rfl⟩ := Found.mem_children_iff.1 hh
        refine ⟨.child i :: p, by simpa using haddress, ?_, ?_⟩
        · simpa [at?, step?, ha] using hat
        · simpa [Step.isChild] using hdown
    · rintro ⟨p, haddress, hat, hdown⟩
      cases p with
      | nil =>
        refine Or.inl ?_
        obtain ⟨address, node⟩ := g
        simp only [at?, Option.some_inj] at hat
        simp only [List.append_nil] at haddress
        rw [haddress, ← hat]
      | cons s p =>
        cases s with
        | annexed i =>
          have hs := hdown (.annexed i) (List.mem_cons_self ..)
          cases hs
        | child i =>
          obtain ⟨a, ha, hat⟩ := Option.bind_eq_some_iff.1 hat
          have hh : (⟨f.address ++ [.child i], a⟩ : Found) ∈ f.children :=
            Found.mem_children_iff.2 ⟨i, a, ha, rfl⟩
          refine Or.inr ⟨_, hh, (ih _ hh).2 ⟨p, by simpa using haddress, hat, fun s hs => ?_⟩⟩
          exact hdown s (List.mem_cons_of_mem _ hs)

/-- **The places of a tree** are those of the nodes that it contains. -/
theorem mem_places_iff {a : Ast} {f : Found} : f ∈ a.places ↔ a.Contains f := by
  rw [places, Found.mem_subtree_iff]
  constructor
  · rintro ⟨p, haddress, h⟩
    obtain ⟨address, node⟩ := f
    obtain rfl : address = p := by simpa using haddress
    exact h
  · exact fun h => ⟨f.address, by simp, h⟩

/-- The nodes of a subtree stand in preorder. -/
theorem Found.pairwise_subtree (f : Found) :
    f.subtree.Pairwise fun g h => Precedes g.address h.address := by
  induction f using Found.down_induction with
  | visit f ih =>
    rw [Found.subtree_eq, List.pairwise_cons, List.pairwise_flatMap]
    refine ⟨fun g hg => ?_, ih, ?_⟩
    · obtain ⟨h, hh, hg⟩ := List.mem_flatMap.1 hg
      obtain ⟨p, haddress, -⟩ := Found.mem_subtree_iff.1 hg
      obtain ⟨i, a, -, rfl⟩ := Found.mem_children_iff.1 hh
      rw [haddress, List.append_assoc]
      exact precedes_append _ (by simp)
    · rw [List.pairwise_iff_getElem]
      intro i j hi hj hij g hg h hh
      obtain ⟨p, hp, -⟩ := Found.mem_subtree_iff.1 hg
      obtain ⟨q, hq, -⟩ := Found.mem_subtree_iff.1 hh
      rw [hp, hq]
      simpa [Found.children] using precedes_fork f.address hij p q

/-- The places of a tree stand in preorder. -/
theorem pairwise_places (a : Ast) :
    a.places.Pairwise fun f g => Precedes f.address g.address :=
  Found.pairwise_subtree _

/-- What stands in preorder has addresses of its own. -/
theorem nodup_of_precedes {fs : List Found}
    (h : fs.Pairwise fun f g => Precedes f.address g.address) : (fs.map Found.address).Nodup := by
  rw [List.Nodup, List.pairwise_map]
  refine h.imp fun {f g} hfg (he : f.address = g.address) => not_precedes_self g.address ?_
  rwa [he] at hfg

/-! ## Without the addresses -/

theorem nodes_eq (a : Ast) : a.nodes = a :: a.children.flatMap nodes := by
  obtain ⟨info, children, annexed⟩ := a
  rw [nodes, nodesIn_eq]
  rfl

/-- The nodes of a subtree, wherever it is found, are those of its root. -/
theorem Found.map_node_subtree (f : Found) : f.subtree.map Found.node = f.node.nodes := by
  induction f using Found.down_induction with
  | visit f ih =>
    rw [Found.subtree_eq, nodes_eq, List.map_cons, List.map_flatMap, ← Found.map_node_children,
      List.flatMap_map]
    congr 1
    exact List.flatMap_congr ih

theorem map_node_places (a : Ast) : a.places.map Found.node = a.nodes :=
  Found.map_node_subtree _

/-- What is pending are the nodes of the subtrees, as long as these have the right size. -/
theorem length_flatMap_subtree {fs : List Found}
    (h : ∀ f ∈ fs, f.subtree.length = f.node.size) :
    (fs.flatMap Found.subtree).length = pending fs := by
  induction fs with
  | nil => rfl
  | cons f fs ih =>
    obtain ⟨hf, hfs⟩ := List.forall_mem_cons.1 h
    rw [List.flatMap_cons, List.length_append, hf, ih hfs]
    rfl

/-- A subtree has as many nodes as its size says. -/
theorem Found.length_subtree (f : Found) : f.subtree.length = f.node.size := by
  induction f using Found.down_induction with
  | visit f ih =>
    have hpending := pending_children f []
    rw [List.append_nil] at hpending
    rw [Found.subtree_eq, List.length_cons, length_flatMap_subtree ih, hpending]
    rfl

theorem length_places (a : Ast) : a.places.length = a.size :=
  Found.length_subtree _

end Ast
end RubySource
