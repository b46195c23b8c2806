import RubySource.Proofs.ParseTree.CodeNodes

/-!
# All nodes of a tree, and what is above them

The check of a tree looks at every node, anonymous ones too, and what it makes of a node depends on
the nodes above it.  Here every node is listed together with these.  The list is in preorder, so
that "the first node such that" is the first hit in it.

## What is here

* `child_induction` — induction along all children.
* `lineages` — the nodes of a tree, each with the nodes above it; `lineages_eq` opens the list and
  `map_snd_lineages` says that nothing is left out.
* `NestedThroughout` — all nodes lie properly in one another; then whatever lies in a child stops
  before anything in a later one starts (`NestedThroughout.pairwise_children`), and nodes are listed
  in the order in which they start (`NestedThroughout.pairwise_startByte`), so that the first node
  of a sort starts in front of the others (`NestedThroughout.startByte_le_of_find?`).
-/

set_option autoImplicit false

namespace RubySource
namespace ParseTree

/-! ## Induction along all children -/

theorem sizeOf_lt_of_mem_children {t c : ParseTree} (h : c ∈ t.children) :
    sizeOf c < sizeOf t := by
  obtain ⟨label, children⟩ := t
  have hlt := List.sizeOf_lt_of_mem (show c ∈ children from h)
  simp only [node.sizeOf_spec]
  omega

/-- What holds of a node as soon as it holds of its children holds of every node. -/
@[elab_as_elim]
theorem child_induction {motive : ParseTree → Prop}
    (visit : ∀ t : ParseTree, (∀ c ∈ t.children, motive c) → motive t) (t : ParseTree) :
    motive t :=
  visit t fun c _ => child_induction visit c
termination_by sizeOf t
decreasing_by exact sizeOf_lt_of_mem_children ‹_›

theorem mem_nodes_iff {n t : ParseTree} :
    n ∈ t.nodes ↔ n = t ∨ ∃ c ∈ t.children, n ∈ c.nodes := by
  rw [nodes_eq, List.mem_cons, List.mem_flatMap]

@[simp] theorem self_mem_nodes (t : ParseTree) : t ∈ t.nodes :=
  mem_nodes_iff.2 (Or.inl rfl)

theorem mem_nodes_of_child {n c t : ParseTree} (hc : c ∈ t.children) (hn : n ∈ c.nodes) :
    n ∈ t.nodes :=
  mem_nodes_iff.2 (Or.inr ⟨c, hc, hn⟩)

/-! ## Lineages -/

mutual

/-- The nodes of a tree in preorder, each with the nodes above it from the nearest on; `above` are
those above the tree. -/
def lineages (above : List ParseTree) : ParseTree → List (List ParseTree × ParseTree)
  | .node label children =>
    (above, .node label children) :: lineagesIn (.node label children :: above) children

/-- The nodes of several trees, each with the nodes above it. -/
def lineagesIn (above : List ParseTree) : List ParseTree → List (List ParseTree × ParseTree)
  | [] => []
  | t :: ts => lineages above t ++ lineagesIn above ts

end

theorem lineagesIn_eq (above ts : List ParseTree) :
    lineagesIn above ts = ts.flatMap (lineages above) := by
  induction ts with
  | nil => rfl
  | cons t ts ih => rw [lineagesIn, ih, List.flatMap_cons]

theorem lineages_eq (above : List ParseTree) (t : ParseTree) :
    t.lineages above = (above, t) :: t.children.flatMap (lineages (t :: above)) := by
  obtain ⟨label, children⟩ := t
  rw [lineages, lineagesIn_eq]
  rfl

theorem mem_lineages_iff {v : List ParseTree × ParseTree} {above : List ParseTree}
    {t : ParseTree} :
    v ∈ t.lineages above ↔ v = (above, t) ∨ ∃ c ∈ t.children, v ∈ c.lineages (t :: above) := by
  rw [lineages_eq, List.mem_cons, List.mem_flatMap]

/-- The nodes with lineages are all nodes, in the same order. -/
theorem map_snd_lineages (t : ParseTree) (above : List ParseTree) :
    (t.lineages above).map Prod.snd = t.nodes := by
  induction t using child_induction generalizing above with
  | visit t ih =>
    rw [lineages_eq, nodes_eq, List.map_cons, List.map_flatMap]
    congr 1
    exact List.flatMap_congr fun c hc => ih c hc (t :: above)

/-! ## Nodes that lie in one another -/

/-- All nodes, whether or not they are code, lie properly in one another. -/
structure NestedThroughout (t : ParseTree) : Prop where
  /-- No node ends before it starts. -/
  forward : ∀ n ∈ t.nodes, n.startByte ≤ n.stopByte
  /-- A child lies in its parent. -/
  nested : ∀ n ∈ t.nodes, ∀ c ∈ n.children, n.startByte ≤ c.startByte ∧ c.stopByte ≤ n.stopByte
  /-- Siblings follow one another. -/
  ordered : ∀ n ∈ t.nodes, n.children.Pairwise fun a b => a.stopByte ≤ b.startByte

namespace NestedThroughout

variable {t : ParseTree}

theorem of_child (h : t.NestedThroughout) {c : ParseTree} (hc : c ∈ t.children) :
    c.NestedThroughout where
  forward n hn := h.forward n (mem_nodes_of_child hc hn)
  nested n hn := h.nested n (mem_nodes_of_child hc hn)
  ordered n hn := h.ordered n (mem_nodes_of_child hc hn)

/-- All nodes lie in the tree. -/
theorem within (h : t.NestedThroughout) {n : ParseTree} (hn : n ∈ t.nodes) :
    t.startByte ≤ n.startByte ∧ n.stopByte ≤ t.stopByte := by
  induction t using child_induction with
  | visit t ih =>
    rcases mem_nodes_iff.1 hn with rfl | ⟨c, hc, hn⟩
    · exact ⟨Nat.le_refl _, Nat.le_refl _⟩
    · have hin := h.nested t (self_mem_nodes t) c hc
      have hbelow := ih c hc (h.of_child hc) hn
      exact ⟨Nat.le_trans hin.1 hbelow.1, Nat.le_trans hbelow.2 hin.2⟩

/-- What lies in a child stops before anything in a later child starts. -/
theorem pairwise_children (h : t.NestedThroughout) :
    t.children.Pairwise fun a b => ∀ m ∈ a.nodes, ∀ n ∈ b.nodes, m.stopByte ≤ n.startByte := by
  refine (h.ordered t (self_mem_nodes t)).imp_of_mem fun {a b} ha hb hab m hm n hn => ?_
  have hma := ((h.of_child ha).within hm).2
  have hbn := ((h.of_child hb).within hn).1
  exact Nat.le_trans hma (Nat.le_trans hab hbn)

/-- Nodes are listed in the order in which they start. -/
theorem pairwise_startByte (h : t.NestedThroughout) :
    t.nodes.Pairwise fun m n => m.startByte ≤ n.startByte := by
  induction t using child_induction with
  | visit t ih =>
    have hchildren : (t.children.flatMap nodes).Pairwise fun m n => m.startByte ≤ n.startByte := by
      rw [List.pairwise_flatMap]
      refine ⟨fun c hc => ih c hc (h.of_child hc), ?_⟩
      refine h.pairwise_children.imp_of_mem fun {a b} ha _ hab m hm n hn => ?_
      exact Nat.le_trans ((h.of_child ha).forward m hm) (hab m hm n hn)
    have hnodes := nodes_eq t
    rw [hnodes, List.pairwise_cons]
    refine ⟨fun n hn => ?_, hchildren⟩
    exact (h.within (hnodes ▸ List.mem_cons_of_mem t hn)).1

/-- The first node of a sort starts in front of all others of that sort. -/
theorem startByte_le_of_find? (h : t.NestedThroughout) {p : ParseTree → Bool} {m n : ParseTree}
    (hn : t.nodes.find? p = some n) (hm : m ∈ t.nodes) (hp : p m = true) :
    n.startByte ≤ m.startByte := by
  obtain ⟨-, before, after, hnodes, hbefore⟩ := List.find?_eq_some_iff_append.1 hn
  have hsorted := h.pairwise_startByte
  rw [hnodes] at hm hsorted
  rcases List.mem_append.1 hm with hm | hm
  · have hnot := hbefore m hm
    rw [hp] at hnot
    cases hnot
  · rcases List.mem_cons.1 hm with rfl | hm
    · exact Nat.le_refl _
    · exact (List.pairwise_cons.1 (List.pairwise_append.1 hsorted).2.1).1 m hm

end NestedThroughout

end ParseTree
end RubySource
