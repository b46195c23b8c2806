import Mathlib.Data.List.Forall2
import RubySource.Proofs.Ast.Places
import RubySource.Proofs.Comment.Layout
import RubySource.Proofs.ParseTree.Lineage

/-!
# The commented tree as an image of the parse tree

A commented tree drops tokens and comments from a parse tree and keeps everything else.  Dropping
moves the children that are kept to other positions, and fields have to follow: a field is looked
for among all children, but its value is a child that is kept.  Identities make the connection.

## What is here

* `nodup_ids_of_mem_nodes` — nodes keep identities of their own from any node down.
* `lookup_filterMap`, `fieldStep?_toAst` — what is looked up among the fields of a node.
* `fieldStep?_eq_some_iff` — the value of a field is found at its rank among the kept children.
* `Ast.IsImage` — what a node of a commented tree shares with a node of a parse tree;
  `isImage_toAst` says so of a node and its own commented tree.
* `map_codeAt?_subtree` — the addresses of the commented tree, in preorder, lead to the code nodes,
  in preorder.
* `toAst_exact` — **the commented tree is an exact image** of what the parse tree holds of code.
-/

set_option autoImplicit false

namespace RubySource
namespace ParseTree

/-! ## Identities below a node -/

theorem nodes_sublist_of_mem {t n : ParseTree} (h : n ∈ t.nodes) : n.nodes.Sublist t.nodes := by
  induction t using child_induction with
  | visit t ih =>
    rcases mem_nodes_iff.1 h with rfl | ⟨c, hc, hn⟩
    · exact List.Sublist.refl _
    · have hchild : c.nodes.Sublist (t.children.flatMap nodes) := by
        rw [List.flatMap_def]
        exact List.sublist_flatten_of_mem (List.mem_map_of_mem hc)
      rw [nodes_eq t]
      exact ((ih c hc hn).trans hchild).cons t

/-- Nodes keep identities of their own from any node down. -/
theorem nodup_ids_of_mem_nodes {t n : ParseTree} (hids : (t.nodes.map id).Nodup)
    (h : n ∈ t.nodes) : (n.nodes.map id).Nodup :=
  hids.sublist ((nodes_sublist_of_mem h).map id)

/-- Children are told apart by their identities. -/
theorem child_eq_of_id_eq {t c d : ParseTree} (hids : (t.nodes.map id).Nodup)
    (hc : c ∈ t.children) (hd : d ∈ t.children) (he : c.id = d.id) : c = d :=
  List.inj_on_of_nodup_map hids (mem_nodes_of_child hc (self_mem_nodes c))
    (mem_nodes_of_child hd (self_mem_nodes d)) he

/-- A kept child has one rank among the kept children. -/
theorem getElem?_codeChildren_iff {t c : ParseTree} {i : Nat} (hids : (t.nodes.map id).Nodup)
    (hi : t.codeChildren[i]? = some c) (j : Nat) : t.codeChildren[j]? = some c ↔ j = i := by
  constructor
  · intro hj
    exact index_eq_of_id_eq (nodup_codeNodes_ids hids) hj hi (self_mem_codeNodes c)
      (self_mem_codeNodes c) rfl
  · rintro rfl
    exact hi

/-! ## Fields -/

/-- What is looked up among values that stand under their names: the value of the name, if the name
is there and has one. -/
theorem lookup_filterMap {β : Type} (names : List String) (value? : String → Option β)
    (name : String) :
    (names.filterMap fun n => (value? n).map fun v => (n, v)).lookup name
      = if name ∈ names then value? name else none := by
  induction names with
  | nil => rfl
  | cons first rest ih =>
    by_cases he : name = first
    · subst he
      cases hv : value? name with
      | none => simp [hv, ih]
      | some v => simp [hv]
    · have hne : (name == first) = false := by simpa using he
      cases hv : value? first with
      | none => simp [hv, ih, he]
      | some v => simp [hv, ih, he, hne, List.lookup_cons]

/-- The value of a field is found at the rank among the kept children of the first child in it. -/
theorem fieldStep?_eq_some_iff {t : ParseTree} (hids : (t.nodes.map id).Nodup) {field : String}
    {step : Ast.Step} :
    t.fieldStep? field = some step
      ↔ ∃ value i, t.childInField? field = some value ∧ t.codeChildren[i]? = some value ∧
          step = .child i := by
  rw [fieldStep?, Option.bind_eq_some_iff]
  constructor
  · rintro ⟨value, hvalue, h⟩
    obtain ⟨i, hi, rfl⟩ := Option.map_eq_some_iff.1 h
    obtain ⟨hlt, hid, -⟩ := List.findIdx?_eq_some_iff_getElem.1 hi
    have hkept : t.codeChildren[i] ∈ t.children :=
      List.mem_of_mem_filter (List.getElem_mem hlt)
    have he := child_eq_of_id_eq hids hkept (List.mem_of_find?_eq_some hvalue) (by simpa using hid)
    exact ⟨value, i, hvalue, List.getElem?_eq_some_iff.2 ⟨hlt, he⟩, rfl⟩
  · rintro ⟨value, i, hvalue, hi, rfl⟩
    refine ⟨value, hvalue, Option.map_eq_some_iff.2 ⟨i, ?_, rfl⟩⟩
    obtain ⟨hlt, rfl⟩ := List.getElem?_eq_some_iff.1 hi
    refine List.findIdx?_eq_some_iff_getElem.2 ⟨hlt, by simp, fun j hji hid => ?_⟩
    have hj := List.getElem?_eq_getElem (Nat.lt_trans hji hlt)
    have hij := index_eq_of_id_eq (nodup_codeNodes_ids hids) hj hi (self_mem_codeNodes _)
      (self_mem_codeNodes _) (by simpa using hid)
    omega

theorem exists_rank {t value : ParseTree} {field : String}
    (hvalue : t.childInField? field = some value) (hcode : value.isCode = true) :
    ∃ i : Nat, t.codeChildren[i]? = some value :=
  List.getElem?_of_mem (List.mem_filter.2 ⟨List.mem_of_find?_eq_some hvalue, hcode⟩)

/-- Only a child that is kept is the value of a field. -/
theorem fieldStep?_isSome_iff {t : ParseTree} (hids : (t.nodes.map id).Nodup) {field : String} :
    (t.fieldStep? field).isSome = true
      ↔ ∃ value, t.childInField? field = some value ∧ value.isCode = true := by
  rw [Option.isSome_iff_exists]
  constructor
  · rintro ⟨step, hstep⟩
    obtain ⟨value, i, hvalue, hi, -⟩ := (fieldStep?_eq_some_iff hids).1 hstep
    exact ⟨value, hvalue, (List.mem_filter.1 (List.mem_of_getElem? hi)).2⟩
  · rintro ⟨value, hvalue, hcode⟩
    obtain ⟨i, hi⟩ := exists_rank hvalue hcode
    exact ⟨_, (fieldStep?_eq_some_iff hids).2 ⟨value, i, hvalue, hi, rfl⟩⟩

end ParseTree

/-! ## Images -/

/-- A node of a commented tree is the image of a node of a parse tree. -/
structure Ast.IsImage (source : Bytes) (comments : CommentMap) (n : ParseTree) (a : Ast) :
    Prop where
  type : a.type = n.type
  /-- Its kind is the one that belongs to the type. -/
  kind : a.kind = Kind.ofType n.type
  text : a.source = n.sourceText source
  start : a.info.start = n.span.start
  stop : a.info.stop = n.span.stop
  /-- It has the comments that stand under the identity of the node. -/
  comments : a.comments = comments.get n.id
  /-- It has a child for each code child, and nothing else below it. -/
  children : a.children.length = n.codeChildren.length ∧ a.annexed = []
  /-- If the first child in a field is a code child, the value of the field is the child at its
  rank. -/
  field : ∀ name ∈ a.kind.fieldNames, ∀ value, n.childInField? name = some value →
    value.isCode = true → ∃ i child, (∀ j, n.codeChildren[j]? = some value ↔ j = i) ∧
      a.fieldStep? name = some (.child i) ∧ a.children[i]? = some child ∧
      a.field? name = some child
  /-- Otherwise the field has no value. -/
  noField : ∀ name, ¬ (name ∈ a.kind.fieldNames ∧
    ∃ value, n.childInField? name = some value ∧ value.isCode = true) →
      a.fieldStep? name = none ∧ a.field? name = none
  /-- So the value of a field is one of the node's own children. -/
  own : ∀ name child, a.field? name = some child →
    ∃ i, a.fieldStep? name = some (.child i) ∧ a.children[i]? = some child

namespace ParseTree

variable (source : Bytes) (comments : CommentMap) (t : ParseTree)

@[simp] theorem type_toAst : (t.toAst source comments).type = t.type := by
  rw [toAst_eq]
  rfl

theorem kind_toAst : (t.toAst source comments).kind = Ast.Kind.ofType t.type := by
  rw [toAst_eq]
  rfl

theorem children_toAst :
    (t.toAst source comments).children = t.codeChildren.map (toAst source comments) := by
  rw [toAst_eq]
  rfl

/-- A node of the commented tree has the fields of its kind, with the steps that its parse tree
gives. -/
theorem fieldStep?_toAst (name : String) :
    (t.toAst source comments).fieldStep? name
      = if name ∈ (Ast.Kind.ofType t.type).fieldNames then t.fieldStep? name else none := by
  rw [toAst_eq]
  exact lookup_filterMap _ t.fieldStep? name

variable {source comments t} {name : String}

/-- The value of a field is one of the node's own children. -/
theorem exists_child_of_field? {child : Ast}
    (h : (t.toAst source comments).field? name = some child) :
    ∃ i, (t.toAst source comments).fieldStep? name = some (.child i) ∧
      (t.toAst source comments).children[i]? = some child := by
  obtain ⟨step, hstep, hchild⟩ := Option.bind_eq_some_iff.1 h
  have hkept := hstep
  rw [fieldStep?_toAst] at hkept
  split at hkept
  next =>
    obtain ⟨value, -, hi⟩ := Option.bind_eq_some_iff.1 hkept
    obtain ⟨i, -, rfl⟩ := Option.map_eq_some_iff.1 hi
    exact ⟨i, hstep, hchild⟩
  next => cases hkept

/-- A field of the kind whose first child is kept has that child as its value. -/
theorem field?_toAst_of_isCode (hids : (t.nodes.map id).Nodup)
    (hname : name ∈ (Ast.Kind.ofType t.type).fieldNames) {value : ParseTree}
    (hvalue : t.childInField? name = some value) (hcode : value.isCode = true) :
    ∃ i, t.codeChildren[i]? = some value ∧
      (t.toAst source comments).fieldStep? name = some (.child i) ∧
      (t.toAst source comments).children[i]? = some (value.toAst source comments) ∧
      (t.toAst source comments).field? name = some (value.toAst source comments) := by
  obtain ⟨i, hi⟩ := exists_rank hvalue hcode
  have hstep : (t.toAst source comments).fieldStep? name = some (.child i) := by
    rw [fieldStep?_toAst, if_pos hname]
    exact (fieldStep?_eq_some_iff hids).2 ⟨value, i, hvalue, hi, rfl⟩
  have hchild : (t.toAst source comments).children[i]? = some (value.toAst source comments) := by
    rw [children_toAst, List.getElem?_map, hi, Option.map_some]
  refine ⟨i, hi, hstep, hchild, ?_⟩
  rw [Ast.field?, hstep]
  exact hchild

/-- Any other field has no value. -/
theorem fieldStep?_toAst_eq_none (hids : (t.nodes.map id).Nodup)
    (hnot : ¬ (name ∈ (Ast.Kind.ofType t.type).fieldNames ∧
      ∃ value, t.childInField? name = some value ∧ value.isCode = true)) :
    (t.toAst source comments).fieldStep? name = none := by
  rw [fieldStep?_toAst]
  split
  next hname =>
    rw [← Option.not_isSome_iff_eq_none, fieldStep?_isSome_iff hids]
    exact fun hvalue => hnot ⟨hname, hvalue⟩
  next => rfl

/-- The commented tree of a node is its image. -/
theorem isImage_toAst (hids : (t.nodes.map id).Nodup) :
    (t.toAst source comments).IsImage source comments t := by
  have htree := toAst_eq source comments t
  refine ⟨type_toAst source comments t, kind_toAst source comments t, ?_, ?_, ?_,
    comments_toAst source comments t, ⟨?_, ?_⟩, ?_, ?_, ?_⟩
  · rw [htree]; rfl
  · rw [htree]; rfl
  · rw [htree]; rfl
  · rw [children_toAst, List.length_map]
  · rw [htree]; rfl
  · intro name hname value hvalue hcode
    rw [kind_toAst] at hname
    obtain ⟨i, hi, hstep, hchild, hfield⟩ := field?_toAst_of_isCode hids hname hvalue hcode
    exact ⟨i, _, getElem?_codeChildren_iff hids hi, hstep, hchild, hfield⟩
  · intro name hnot
    rw [kind_toAst] at hnot
    have hnone : (t.toAst source comments).fieldStep? name = none :=
      fieldStep?_toAst_eq_none hids hnot
    rw [Ast.field?, hnone]
    exact ⟨rfl, rfl⟩
  · exact fun name child hchild => exists_child_of_field? hchild

/-! ## Addresses -/

/-- A code node is found at the address of its parent and its rank. -/
theorem codeAt?_concat {n : ParseTree} {p : Ast.Address} (hn : t.codeAt? p = some n) (i : Nat) :
    t.codeAt? (p ++ [.child i]) = n.codeChildren[i]? := by
  induction p generalizing t with
  | nil =>
    cases hn
    simp [codeAt?]
  | cons step rest ih =>
    obtain ⟨j, c, rfl, hc, hn⟩ := codeAt?_cons_eq_some_iff.1 hn
    rw [List.cons_append, codeAt?, hc, Option.bind_some, ih hn]

/-- In preorder, the addresses of the commented tree lead to the code nodes. -/
theorem map_codeAt?_subtree {n : ParseTree} {p : Ast.Address} (hn : t.codeAt? p = some n) :
    (Ast.Found.subtree ⟨p, n.toAst source comments⟩).map (fun f => t.codeAt? f.address)
      = n.codeNodes.map some := by
  induction n using code_induction generalizing p with
  | visit n ih =>
    have hbelow : (Ast.Found.children ⟨p, n.toAst source comments⟩).map
          (fun f => f.subtree.map fun g => t.codeAt? g.address)
        = n.codeChildren.map fun c => c.codeNodes.map some := by
      apply List.ext_getElem
      · simp [Ast.Found.children, children_toAst]
      · intro i hi hi'
        have hlt : i < n.codeChildren.length := by simpa using hi'
        have hc := (codeAt?_concat hn i).trans (List.getElem?_eq_getElem hlt)
        simpa [Ast.Found.children, children_toAst] using ih _ (List.getElem_mem hlt) hc
    rw [Ast.Found.subtree_eq, codeNodes_eq, List.map_cons, List.map_cons, hn, List.map_flatMap,
      List.map_flatMap, List.flatMap_def, hbelow, ← List.flatMap_def]

/-- In preorder, what corresponds is at the same address. -/
theorem forall₂_codeAt? (source : Bytes) (comments : CommentMap) (t : ParseTree) :
    List.Forall₂ (fun (f : Ast.Found) n => t.codeAt? f.address = some n)
      (t.toAst source comments).places t.codeNodes := by
  have hmap : (t.toAst source comments).places.map (fun f => t.codeAt? f.address)
      = t.codeNodes.map some := map_codeAt?_subtree rfl
  rwa [← List.forall₂_eq_eq_eq, List.forall₂_map_left_iff, List.forall₂_map_right_iff] at hmap

/-- **The commented tree is an exact image.**  Take a parse tree whose nodes have identities of
their own, any node of it, and any comment map.  In preorder the nodes of its commented tree and its
code nodes correspond: two that correspond are at the same address, and the one is the image of the
other.  Nothing but code nodes leaves a trace. -/
theorem toAst_exact {root : ParseTree} (source : Bytes) (comments : CommentMap)
    (hids : (root.nodes.map ParseTree.id).Nodup)
    (ht : t ∈ root.nodes) :
    List.Forall₂ (fun f n => t.codeAt? f.address = some n ∧ f.node.IsImage source comments n)
        (t.toAst source comments).places t.codeNodes ∧
      ∀ p, ((t.toAst source comments).at? p).isSome = (t.codeAt? p).isSome := by
  constructor
  · have hsame := forall₂_codeAt? source comments t
    have himage : ∀ f ∈ (t.toAst source comments).places,
        ∀ n, t.codeAt? f.address = some n → f.node.IsImage source comments n := by
      intro f hf n hn
      have hat := (Ast.mem_places_iff.1 hf).1
      rw [at?_toAst, hn, Option.map_some, Option.some_inj] at hat
      have hmem := (codeNodes_sublist_nodes t).subset (mem_codeNodes_of_codeAt? hn)
      rw [← hat]
      exact isImage_toAst
        (nodup_ids_of_mem_nodes (nodup_ids_of_mem_nodes hids ht) hmem)
    exact ((List.forall₂_and_left _ _).2 ⟨himage, hsame⟩).imp fun f n h => ⟨h.2, h.1 n h.2⟩
  · intro p
    rw [at?_toAst, Option.isSome_map]

/-- In the small source the body of the class is its fifth child, and the second one that is kept;
the class has no superclass. -/
theorem toAst_exact_sample :
    (Sample.tree.nodes.map ParseTree.id).Nodup ∧ Sample.tree ∈ Sample.tree.nodes ∧
      ∃ f ∈ (Sample.tree.toAst Sample.source (.ofLists [(2, [Sample.header])])).places,
        f.address = [.child 0] ∧ f.node.kind = .classDef ∧ f.node.comments = [Sample.header] ∧
          f.node.fieldStep? "body" = some (.child 1) ∧ f.node.fieldStep? "superclass" = none := by
  have hids : (Sample.tree.nodes.map ParseTree.id).Nodup := by decide
  have hmem := self_mem_nodes Sample.tree
  have hexact := toAst_exact Sample.source (.ofLists [(2, [Sample.header])]) hids hmem
  obtain ⟨hlength, hall⟩ := List.forall₂_iff_get.1 hexact.1
  have himage := (hall 1 (by rw [hlength]; decide) (by decide)).2
  refine ⟨hids, hmem, _, List.get_mem _ _, rfl, himage.kind, himage.comments, ?_, ?_⟩
  · obtain ⟨i, _, hrank, hstep, -⟩ := himage.field "body" (by rw [himage.kind]; decide) _ rfl rfl
    obtain rfl : 1 = i := (hrank 1).1 rfl
    exact hstep
  · refine (himage.noField "superclass" ?_).1
    rintro ⟨-, value, hvalue, -⟩
    cases hvalue

end ParseTree
end RubySource
