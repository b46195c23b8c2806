import Mathlib.Data.List.Flatten
import Mathlib.Data.List.Nodup
import RubySource.ParseTree.Basic

/-!
# The walk over the code nodes

Whatever reads a parse tree for its meaning goes from a code node to the code nodes among its
children.  The definitions of such walks recurse over all children and pass over those that are no
code nodes; here the walk is put on its own footing, so that no proof has to do this again.

## What is here

* `code_induction` — induction along the walk, the only one that the proofs about walks need.
* `codeNodes_eq`, `mem_codeNodes_iff` — the code nodes of a tree are its root and the code nodes of
  its code children; `mem_codeNodes_trans` composes walks.
* `codeNodes_sublist_nodes` — the walk keeps the order of all nodes, so that nodes with identities
  of their own keep them (`nodup_codeNodes_ids`, `eq_of_id_eq`); `index_eq_of_id_eq` says that an
  identity then leads to one child only.
* `IsVisit` — the nodes of a walk, each with the parent from which it is reached.
-/

set_option autoImplicit false

namespace RubySource
namespace ParseTree

/-! ## Induction along the walk -/

theorem sizeOf_lt_of_mem_codeChildren {t c : ParseTree} (h : c ∈ t.codeChildren) :
    sizeOf c < sizeOf t := by
  obtain ⟨label, children⟩ := t
  have hc : c ∈ children := List.mem_of_mem_filter h
  have hlt := List.sizeOf_lt_of_mem hc
  simp only [node.sizeOf_spec]
  omega

/-- What holds of a node as soon as it holds of its code children holds of every node. -/
@[elab_as_elim]
theorem code_induction {motive : ParseTree → Prop}
    (visit : ∀ t : ParseTree, (∀ c ∈ t.codeChildren, motive c) → motive t) (t : ParseTree) :
    motive t :=
  visit t fun c _ => code_induction visit c
termination_by sizeOf t
decreasing_by exact sizeOf_lt_of_mem_codeChildren ‹_›

/-! ## The nodes of the walk -/

theorem codeNodesIn_eq (ts : List ParseTree) :
    codeNodesIn ts = (ts.filter isCode).flatMap codeNodes := by
  induction ts with
  | nil => rfl
  | cons t ts ih =>
    rw [codeNodesIn, ih, List.filter_cons]
    split <;> simp

/-- The code nodes are the root and the code nodes of its code children. -/
theorem codeNodes_eq (t : ParseTree) : t.codeNodes = t :: t.codeChildren.flatMap codeNodes := by
  obtain ⟨label, children⟩ := t
  rw [codeNodes, codeNodesIn_eq]
  rfl

theorem mem_codeNodes_iff {n t : ParseTree} :
    n ∈ t.codeNodes ↔ n = t ∨ ∃ c ∈ t.codeChildren, n ∈ c.codeNodes := by
  rw [codeNodes_eq, List.mem_cons, List.mem_flatMap]

@[simp] theorem self_mem_codeNodes (t : ParseTree) : t ∈ t.codeNodes :=
  mem_codeNodes_iff.2 (Or.inl rfl)

theorem mem_codeNodes_of_child {n c t : ParseTree} (hc : c ∈ t.codeChildren)
    (hn : n ∈ c.codeNodes) : n ∈ t.codeNodes :=
  mem_codeNodes_iff.2 (Or.inr ⟨c, hc, hn⟩)

/-- A walk may be continued by another one. -/
theorem mem_codeNodes_trans {m n t : ParseTree} (hn : n ∈ t.codeNodes) (hm : m ∈ n.codeNodes) :
    m ∈ t.codeNodes := by
  induction t using code_induction with
  | visit t ih =>
    rcases mem_codeNodes_iff.1 hn with rfl | ⟨c, hc, hn⟩
    · exact hm
    · exact mem_codeNodes_of_child hc (ih c hc hn)

/-- The walk goes on from every node it reaches. -/
theorem codeChild_mem_codeNodes {m n t : ParseTree} (hn : n ∈ t.codeNodes)
    (hm : m ∈ n.codeChildren) : m ∈ t.codeNodes :=
  mem_codeNodes_trans hn (mem_codeNodes_of_child hm (self_mem_codeNodes m))

/-! ## Identities -/

theorem nodesIn_eq (ts : List ParseTree) : nodesIn ts = ts.flatMap nodes := by
  induction ts with
  | nil => rfl
  | cons t ts ih => rw [nodesIn, ih, List.flatMap_cons]

theorem nodes_eq (t : ParseTree) : t.nodes = t :: t.children.flatMap nodes := by
  obtain ⟨label, children⟩ := t
  rw [nodes, nodesIn_eq]
  rfl

/-- The walk meets the nodes in the order in which they stand in the tree. -/
theorem codeNodes_sublist_nodes (t : ParseTree) : t.codeNodes.Sublist t.nodes := by
  induction t using code_induction with
  | visit t ih =>
    rw [codeNodes_eq, nodes_eq]
    refine List.Sublist.cons_cons t ?_
    have hcode : (t.codeChildren.flatMap codeNodes).Sublist (t.codeChildren.flatMap nodes) :=
      List.Sublist.flatMap_right _ ih
    exact hcode.trans (List.Sublist.flatMap List.filter_sublist _)

/-- Where no two nodes share an identity, no two code nodes do. -/
theorem nodup_codeNodes_ids {t : ParseTree} (h : (t.nodes.map id).Nodup) :
    (t.codeNodes.map id).Nodup :=
  h.sublist ((codeNodes_sublist_nodes t).map id)

/-- A code node is known by its identity. -/
theorem eq_of_id_eq {t m n : ParseTree} (h : (t.codeNodes.map id).Nodup) (hm : m ∈ t.codeNodes)
    (hn : n ∈ t.codeNodes) (he : m.id = n.id) : m = n :=
  List.inj_on_of_nodup_map h hm hn he

section Below

variable {t m n : ParseTree} (hids : (t.codeNodes.map id).Nodup)
include hids

/-- Nothing below a node repeats its identity. -/
theorem id_ne_of_mem_child {c : ParseTree} (hc : c ∈ t.codeChildren) (hn : n ∈ c.codeNodes) :
    n.id ≠ t.id := by
  rw [codeNodes_eq, List.map_cons, List.nodup_cons] at hids
  intro he
  exact hids.1 (he ▸ List.mem_map_of_mem (List.mem_flatMap.2 ⟨c, hc, hn⟩))

theorem nodup_ids_below :
    (∀ c ∈ t.codeChildren, (c.codeNodes.map id).Nodup) ∧
      t.codeChildren.Pairwise fun c d =>
        List.Disjoint (c.codeNodes.map id) (d.codeNodes.map id) := by
  rw [codeNodes_eq, List.map_cons, List.nodup_cons, List.map_flatMap] at hids
  exact List.nodup_flatMap.1 hids.2

theorem nodup_ids_of_child {c : ParseTree} (hc : c ∈ t.codeChildren) :
    (c.codeNodes.map id).Nodup :=
  (nodup_ids_below hids).1 c hc

theorem nodup_ids_of_mem (h : n ∈ t.codeNodes) : (n.codeNodes.map id).Nodup := by
  induction t using code_induction with
  | visit t ih =>
    rcases mem_codeNodes_iff.1 h with rfl | ⟨c, hc, hn⟩
    · exact hids
    · exact ih c hc (nodup_ids_of_child hids hc) hn

/-- An identity below a node is found below one of its children only. -/
theorem index_eq_of_id_eq {i j : Nat} {c d : ParseTree} (hc : t.codeChildren[i]? = some c)
    (hd : t.codeChildren[j]? = some d) (hm : m ∈ c.codeNodes) (hn : n ∈ d.codeNodes)
    (he : m.id = n.id) : i = j := by
  have hdisjoint := List.pairwise_iff_getElem.1 (nodup_ids_below hids).2
  obtain ⟨hi, rfl⟩ := List.getElem?_eq_some_iff.1 hc
  obtain ⟨hj, rfl⟩ := List.getElem?_eq_some_iff.1 hd
  have hmc := List.mem_map_of_mem (f := id) hm
  have hnd := List.mem_map_of_mem (f := id) hn
  rcases Nat.lt_trichotomy i j with hlt | rfl | hgt
  · exact absurd (he ▸ hnd) (hdisjoint i j hi hj hlt hmc)
  · rfl
  · exact absurd (he ▸ hmc) (hdisjoint j i hj hi hgt hnd)

end Below

/-! ## Visits -/

/-- The walk from a node below a parent visits `n` as a child of `p`.  Only the node that the walk
starts from is visited as a child of the outer parent. -/
def IsVisit (parent : Option ParseTree) (t : ParseTree) (p : Option ParseTree) (n : ParseTree) :
    Prop :=
  (p = parent ∧ n = t) ∨ ∃ q ∈ t.codeNodes, p = some q ∧ n ∈ q.codeChildren

theorem IsVisit.start (parent : Option ParseTree) (t : ParseTree) : IsVisit parent t parent t :=
  Or.inl ⟨rfl, rfl⟩

/-- The visits of a walk from a code child are visits of the whole walk. -/
theorem IsVisit.below {parent p : Option ParseTree} {t c n : ParseTree} (hc : c ∈ t.codeChildren)
    (h : IsVisit (some t) c p n) : IsVisit parent t p n := by
  rcases h with ⟨rfl, rfl⟩ | ⟨q, hq, rfl, hn⟩
  · exact Or.inr ⟨t, self_mem_codeNodes t, rfl, hc⟩
  · exact Or.inr ⟨q, mem_codeNodes_of_child hc hq, rfl, hn⟩

theorem IsVisit.mem_codeNodes {parent p : Option ParseTree} {t n : ParseTree}
    (h : IsVisit parent t p n) : n ∈ t.codeNodes := by
  rcases h with ⟨-, rfl⟩ | ⟨q, hq, -, hn⟩
  · exact self_mem_codeNodes n
  · exact codeChild_mem_codeNodes hq hn

end ParseTree
end RubySource
