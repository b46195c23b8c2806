import RubySource.Ast.OfParseTree
import RubySource.Proofs.ParseTree.CodeNodes

/-!
# The nodes of a commented tree

The commented tree of a parse tree has one node for each code node.  In preorder the two
correspond; a walk to an address in one of them is a walk in the other, and as code nodes have
identities of their own, each identity is found at one address only.

## What is here

* `Ast.nodes` — the nodes of a commented tree, in preorder, without the annexed ones.
* `toAst_eq`, `nodes_toAst` — the commented tree node by node.
* `ParseTree.codeAt?` — the code node at an address; `at?_toAst` says that it is what the commented
  tree has there.
* `exists_codeAt?`, `codeAt?_inj` — every code node is at an address, and at no second one.
-/

set_option autoImplicit false

namespace RubySource

namespace Ast

mutual

/-- The nodes of a tree, in preorder. -/
def nodes : Ast → List Ast
  | .node info children annexed => .node info children annexed :: nodesIn children

/-- The nodes of several trees, in preorder. -/
def nodesIn : List Ast → List Ast
  | [] => []
  | a :: rest => nodes a ++ nodesIn rest

end

theorem nodesIn_eq (as : List Ast) : nodesIn as = as.flatMap nodes := by
  induction as with
  | nil => rfl
  | cons a as ih => rw [nodesIn, ih, List.flatMap_cons]

end Ast

namespace ParseTree

variable (source : Bytes) (comments : CommentMap)

/-! ## Node by node -/

theorem toAstIn_eq (ts : List ParseTree) :
    toAstIn source comments ts = (ts.filter isCode).map (toAst source comments) := by
  induction ts with
  | nil => rfl
  | cons t ts ih =>
    rw [toAstIn, ih, List.filter_cons]
    split <;> simp

/-- A node of the commented tree holds those of its code children. -/
theorem toAst_eq (t : ParseTree) :
    t.toAst source comments
      = .node (t.toInfo source comments) (t.codeChildren.map (toAst source comments)) [] := by
  obtain ⟨label, children⟩ := t
  rw [toAst, toAstIn_eq]
  rfl

@[simp] theorem comments_toAst (t : ParseTree) :
    (t.toAst source comments).comments = comments.get t.id := by
  rw [toAst_eq]
  rfl

/-- In preorder the nodes of the commented tree are those of the code nodes. -/
theorem nodes_toAst (t : ParseTree) :
    (t.toAst source comments).nodes = t.codeNodes.map (toAst source comments) := by
  induction t using code_induction with
  | visit t ih =>
    have hbelow : (t.codeChildren.map (toAst source comments)).flatMap Ast.nodes
        = (t.codeChildren.flatMap codeNodes).map (toAst source comments) := by
      rw [List.flatMap_map, List.map_flatMap]
      exact List.flatMap_congr ih
    rw [codeNodes_eq, List.map_cons, ← hbelow, toAst_eq, Ast.nodes, Ast.nodesIn_eq]

/-! ## Addresses -/

/-- The code node at an address, counted among code nodes. -/
def codeAt? (t : ParseTree) : Ast.Address → Option ParseTree
  | [] => some t
  | .child i :: rest => (t.codeChildren[i]?).bind fun c => c.codeAt? rest
  | .annexed _ :: _ => none

/-- What the commented tree has at an address is the code node there. -/
theorem at?_toAst (t : ParseTree) (a : Ast.Address) :
    (t.toAst source comments).at? a = (t.codeAt? a).map (toAst source comments) := by
  induction a generalizing t with
  | nil => rfl
  | cons step rest ih =>
    rw [toAst_eq]
    cases step with
    | child i =>
      cases hc : t.codeChildren[i]? with
      | none => simp [Ast.at?, Ast.step?, Ast.children, codeAt?, hc]
      | some c => simp [Ast.at?, Ast.step?, Ast.children, codeAt?, hc, ih c]
    | annexed i => simp [Ast.at?, Ast.step?, Ast.annexed, codeAt?]

variable {t n m : ParseTree}

variable {source comments} in
/-- A node of the commented tree is the commented tree of a node. -/
theorem exists_of_at? {p : Ast.Address} {a : Ast} (h : (t.toAst source comments).at? p = some a) :
    ∃ n, t.codeAt? p = some n ∧ n.toAst source comments = a := by
  rw [at?_toAst] at h
  exact Option.map_eq_some_iff.1 h

theorem codeAt?_cons_eq_some_iff {step : Ast.Step} {rest : Ast.Address} :
    t.codeAt? (step :: rest) = some n
      ↔ ∃ i c, step = .child i ∧ t.codeChildren[i]? = some c ∧ c.codeAt? rest = some n := by
  cases step with
  | child i => simp [codeAt?, Option.bind_eq_some_iff]
  | annexed i => simp [codeAt?]

theorem mem_codeNodes_of_codeAt? {a : Ast.Address} (h : t.codeAt? a = some n) :
    n ∈ t.codeNodes := by
  induction a generalizing t with
  | nil =>
    cases h
    exact self_mem_codeNodes n
  | cons step rest ih =>
    obtain ⟨i, c, -, hc, h⟩ := codeAt?_cons_eq_some_iff.1 h
    exact mem_codeNodes_of_child (List.mem_of_getElem? hc) (ih h)

/-- Every code node is at an address. -/
theorem exists_codeAt? (h : n ∈ t.codeNodes) : ∃ a, t.codeAt? a = some n := by
  induction t using code_induction with
  | visit t ih =>
    rcases mem_codeNodes_iff.1 h with rfl | ⟨c, hc, hn⟩
    · exact ⟨[], rfl⟩
    · obtain ⟨rest, hrest⟩ := ih c hc hn
      obtain ⟨i, hi⟩ := List.getElem?_of_mem hc
      exact ⟨.child i :: rest, codeAt?_cons_eq_some_iff.2 ⟨i, c, rfl, hi, hrest⟩⟩

/-- No code node is at a second address. -/
theorem codeAt?_inj {a b : Ast.Address} (hids : (t.codeNodes.map id).Nodup)
    (ha : t.codeAt? a = some m) (hb : t.codeAt? b = some n) (he : m.id = n.id) : a = b := by
  induction a generalizing t b with
  | nil =>
    cases ha
    cases b with
    | nil => rfl
    | cons step rest =>
      obtain ⟨i, c, -, hc, hb⟩ := codeAt?_cons_eq_some_iff.1 hb
      exact absurd he.symm
        (id_ne_of_mem_child hids (List.mem_of_getElem? hc) (mem_codeNodes_of_codeAt? hb))
  | cons step rest ih =>
    obtain ⟨i, c, rfl, hc, ha⟩ := codeAt?_cons_eq_some_iff.1 ha
    have hm := mem_codeNodes_of_codeAt? ha
    cases b with
    | nil =>
      cases hb
      exact absurd he (id_ne_of_mem_child hids (List.mem_of_getElem? hc) hm)
    | cons step' rest' =>
      obtain ⟨j, d, rfl, hd, hb⟩ := codeAt?_cons_eq_some_iff.1 hb
      obtain rfl := index_eq_of_id_eq hids hc hd hm (mem_codeNodes_of_codeAt? hb) he
      obtain rfl : c = d := Option.some_inj.1 (hc.symm.trans hd)
      rw [ih (nodup_ids_of_child hids (List.mem_of_getElem? hc)) ha hb]

end ParseTree
end RubySource
