import Mathlib.Data.List.Lex
import RubySource.Ast.Definition
import RubySource.Proofs.Ast.Image
import RubySource.Proofs.Ast.Search

/-!
# Who owns a method

A class or module lists its methods by a search of its body that stops at classes and modules.  The
lists of different classes are made by different searches, which start at different places; that no
method is in two of them has to be seen from outside.  From the root of the tree, a class lists the
methods in its body for which it is the nearest class above, and there is only one nearest one.

## What is here

* `opensScope`, `definesMethod` — the types of scopes and of methods; `isMethod_ofType` says that
  the kind of a node knows the latter.
* `IsNearestScope` — a node is the nearest scope above a place; `IsNearestScope.unique`.
* `mem_definedMethods_iff` — the methods of a scope, found from the scope.
* `isNearestScope_iff` — what is above a place, seen from the root and from a body.
* `mem_methods_under_iff_nearest` — the methods of a scope, found from the root.
* `owned_by_nearest_scope` — **every method has at most one owner**.
* `Nested` — a module with a method and with a class that has another one.
-/

set_option autoImplicit false

namespace RubySource

namespace Ast

/-! ## Scopes and methods -/

/-- Whether nodes of a type are scopes: classes and modules. -/
def opensScope (type : String) : Bool := type == "class" || type == "module"

/-- Whether nodes of a type define methods. -/
def definesMethod (type : String) : Bool := type == "method" || type == "singleton_method"

/-- The kind of a node knows whether its type defines a method. -/
theorem isMethod_ofType (type : String) : (Kind.ofType type).isMethod = definesMethod type := by
  by_cases hmethod : type = "method"
  · subst hmethod
    decide
  by_cases hsingleton : type = "singleton_method"
  · subst hsingleton
    decide
  have hneither : definesMethod type = false := by simp [definesMethod, hmethod, hsingleton]
  rw [hneither, Kind.ofType]
  simp only [List.lookup_cons, beq_eq_false_iff_ne.2 hmethod, beq_eq_false_iff_ne.2 hsingleton]
  repeat' split
  all_goals rfl

/-- The node at `p` is the nearest scope properly above the place `q`. -/
structure IsNearestScope (tree : Ast) (p q : Address) : Prop where
  above : p <+: q ∧ p ≠ q
  scope : ∃ n ∈ tree.at? p, opensScope n.type = true
  /-- Nothing in between is a scope. -/
  nearest : ∀ r, r <+: q → r ≠ q → p <+: r → p ≠ r →
    ∀ m ∈ tree.at? r, opensScope m.type = false

variable {tree n body : Ast} {p q : Address}

theorem isNearestScope_iff_inits :
    tree.IsNearestScope p q ↔
      (p <+: q ∧ p ≠ q) ∧ (∃ n ∈ tree.at? p, opensScope n.type = true) ∧
        ∀ r ∈ q.inits, r ≠ q → p <+: r → p ≠ r →
          ∀ m ∈ tree.at? r, opensScope m.type = false := by
  simp only [List.mem_inits]
  exact ⟨fun h => ⟨h.above, h.scope, h.nearest⟩, fun h => ⟨h.1, h.2.1, h.2.2⟩⟩

instance : Decidable (tree.IsNearestScope p q) :=
  decidable_of_iff _ isNearestScope_iff_inits.symm

/-- Of two nearest scopes, the one is not above the other. -/
theorem IsNearestScope.eq_of_prefix {p' : Address} (h : tree.IsNearestScope p q)
    (h' : tree.IsNearestScope p' q) (hp : p <+: p') : p = p' := by
  by_contra hne
  obtain ⟨n, hn, hscope⟩ := h'.scope
  rw [h.nearest p' h'.above.1 h'.above.2 hp hne n hn] at hscope
  cases hscope

/-- **There is one nearest scope at most.** -/
theorem IsNearestScope.unique {p' : Address} (h : tree.IsNearestScope p q)
    (h' : tree.IsNearestScope p' q) : p = p' := by
  rcases List.prefix_or_prefix_of_prefix h.above.1 h'.above.1 with hp | hp
  · exact h.eq_of_prefix h' hp
  · exact (h'.eq_of_prefix h hp).symm

/-! ## From the scope -/

/-- What has been found from a node at an address, found from the root. -/
def Found.under (p : Address) (f : Found) : Found := ⟨p ++ f.address, f.node⟩

/-- The methods of a scope are those that a search of its body finds. -/
theorem definedMethods_eq {step : Step} (hstep : n.fieldStep? "body" = some step)
    (hbody : n.step? step = some body) :
    n.definedMethods
      = ((body.eachNode definesMethod opensScope).filter (·.node.kind.isMethod)).map
          (Found.under [step]) := by
  have hfield : n.field? "body" = some body := by rw [field?, hstep, Option.bind_some, hbody]
  rw [definedMethods, hstep, hfield]
  rfl

theorem mem_definedMethods_iff {f : Found} :
    f ∈ n.definedMethods ↔
      ∃ step body w, n.fieldStep? "body" = some step ∧ n.step? step = some body ∧
        f.address = step :: w ∧ f.node.kind.isMethod = true ∧
        ⟨w, f.node⟩ ∈ body.eachNode definesMethod opensScope := by
  constructor
  · intro hf
    cases hstep : n.fieldStep? "body" with
    | none => simp [definedMethods, hstep] at hf
    | some step =>
      cases hbody : n.step? step with
      | none => simp [definedMethods, field?, hstep, hbody] at hf
      | some body =>
        rw [definedMethods_eq hstep hbody] at hf
        obtain ⟨g, hg, rfl⟩ := List.mem_map.1 hf
        obtain ⟨hg, hkind⟩ := List.mem_filter.1 hg
        exact ⟨step, body, g.address, rfl, hbody, rfl, hkind, hg⟩
  · rintro ⟨step, body, w, hstep, hbody, haddress, hkind, hg⟩
    rw [definedMethods_eq hstep hbody]
    refine List.mem_map.2 ⟨_, List.mem_filter.2 ⟨hg, hkind⟩, ?_⟩
    rw [Found.under, List.singleton_append, ← haddress]

/-- What is in preorder below a node is in preorder below the root. -/
theorem precedes_under {f g : Found} (p : Address) (h : Precedes f.address g.address) :
    Precedes (f.under p).address (g.under p).address :=
  List.Lex.append_left Step.IsLeftOf h p

theorem pairwise_definedMethods (n : Ast) :
    n.definedMethods.Pairwise fun f g => Precedes f.address g.address := by
  cases hstep : n.fieldStep? "body" with
  | none => simp [definedMethods, hstep]
  | some step =>
    cases hbody : n.step? step with
    | none => simp [definedMethods, field?, hstep, hbody]
    | some body =>
      rw [definedMethods_eq hstep hbody]
      refine List.Pairwise.map _ (fun f g => precedes_under [step]) ?_
      exact (pairwise_eachNode body definesMethod opensScope).filter _

/-! ## From the root -/

theorem at?_below {step : Step} (hn : tree.at? p = some n) (hbody : n.step? step = some body)
    (w : Address) : tree.at? (p ++ step :: w) = body.at? w := by
  rw [at?_append, hn, Option.bind_some, at?, hbody, Option.bind_some]

/-- **Seen from the root and from a body.**  A scope is the nearest one above a place in its body if
the way from the body to the place is free of scopes.  The body itself must not be one, as a search
goes into the node that it starts from. -/
theorem isNearestScope_iff {step : Step} {w : Address} (hn : tree.at? p = some n)
    (hscope : opensScope n.type = true) (hbody : n.step? step = some body)
    (hplain : opensScope body.type = false) :
    tree.IsNearestScope p (p ++ step :: w) ↔ body.IsOpenTo opensScope w := by
  constructor
  · intro h u hne hu huw m hm
    refine h.nearest (p ++ step :: u) ?_ ?_ (List.prefix_append ..) (by simp) m ?_
    · rwa [List.prefix_append_right_inj, List.prefix_cons_inj]
    · simpa using huw
    · rwa [at?_below hn hbody]
  · intro h
    refine ⟨⟨List.prefix_append .., by simp⟩, ⟨n, hn, hscope⟩, ?_⟩
    rintro _ hr hrq ⟨u, rfl⟩ hne m hm
    rw [List.prefix_append_right_inj] at hr
    cases u with
    | nil => simp at hne
    | cons s u =>
      obtain ⟨rfl, hu⟩ := List.cons_prefix_cons.1 hr
      rw [at?_below hn hbody] at hm
      cases u with
      | nil =>
        cases hm
        exact hplain
      | cons s' u => exact h _ (by simp) hu (by simpa using hrq) m hm

end Ast

/-! ## In the commented tree of a parse tree -/

namespace ParseTree

variable {source : Bytes} {comments : CommentMap} {root t : ParseTree}

/-- Only steps to children lead to a code node. -/
theorem isChild_of_codeAt? {n : ParseTree} {p : Ast.Address} (h : t.codeAt? p = some n) :
    ∀ s ∈ p, s.isChild = true := by
  induction p generalizing t with
  | nil => exact fun s hs => absurd hs List.not_mem_nil
  | cons step rest ih =>
    obtain ⟨i, c, rfl, -, hn⟩ := codeAt?_cons_eq_some_iff.1 h
    exact List.forall_mem_cons.2 ⟨rfl, ih hn⟩

/-- The commented tree of a parse tree contains what it has at any address. -/
theorem contains_toAst_iff {f : Ast.Found} :
    (t.toAst source comments).Contains f
      ↔ (t.toAst source comments).at? f.address = some f.node := by
  refine ⟨And.left, fun h => ⟨h, ?_⟩⟩
  obtain ⟨n, hn, -⟩ := exists_of_at? h
  exact isChild_of_codeAt? hn

theorem mem_nodes_of_at? {p : Ast.Address} {a : Ast}
    (h : (root.toAst source comments).at? p = some a) :
    a ∈ (root.toAst source comments).nodes := by
  rw [← Ast.map_node_places]
  exact List.mem_map_of_mem (Ast.mem_places_iff.2 (contains_toAst_iff (f := ⟨p, a⟩).2 h))

/-- The methods of a scope, found from the root. -/
theorem mem_methods_under_iff {n m : Ast} {p q : Ast.Address}
    (hn : (root.toAst source comments).at? p = some n) :
    ⟨q, m⟩ ∈ n.definedMethods.map (Ast.Found.under p) ↔
      ∃ step body w, n.fieldStep? "body" = some step ∧ n.step? step = some body ∧
        q = p ++ step :: w ∧ body.at? w = some m ∧ Ast.definesMethod m.type = true ∧
        body.IsOpenTo Ast.opensScope w := by
  constructor
  · intro h
    obtain ⟨f, hf, he⟩ := List.mem_map.1 h
    obtain ⟨step, body, w, hstep, hbody, haddress, -, hfound⟩ := Ast.mem_definedMethods_iff.1 hf
    obtain ⟨hcontains, htype, hopen⟩ := Ast.mem_eachNode_iff.1 hfound
    cases he
    exact ⟨step, body, w, hstep, hbody, by rw [haddress], hcontains.1, htype, hopen⟩
  · rintro ⟨step, body, w, hstep, hbody, rfl, hm, htype, hopen⟩
    obtain ⟨c, hc, rfl⟩ := exists_of_at? ((Ast.at?_below hn hbody w).trans hm)
    have hkind : (c.toAst source comments).kind.isMethod = true := by
      rw [kind_toAst, Ast.isMethod_ofType, ← type_toAst source comments]
      exact htype
    have hdown : ∀ s ∈ w, s.isChild = true := fun s hs =>
      isChild_of_codeAt? hc s (List.mem_append_right p (List.mem_cons_of_mem step hs))
    refine List.mem_map.2 ⟨⟨step :: w, c.toAst source comments⟩, ?_, rfl⟩
    exact Ast.mem_definedMethods_iff.2
      ⟨step, body, w, hstep, hbody, rfl, hkind, Ast.mem_eachNode_iff.2 ⟨⟨hm, hdown⟩, htype, hopen⟩⟩

/-- A scope lists the methods in its body that have no nearer scope. -/
theorem mem_methods_under_iff_nearest {n m : Ast} {p q : Ast.Address}
    (hn : (root.toAst source comments).at? p = some n) (hscope : Ast.opensScope n.type = true)
    (hplain : ∀ body ∈ n.field? "body", Ast.opensScope body.type = false) :
    ⟨q, m⟩ ∈ n.definedMethods.map (Ast.Found.under p) ↔
      (root.toAst source comments).at? q = some m ∧ Ast.definesMethod m.type = true ∧
        (root.toAst source comments).IsNearestScope p q ∧
        ∃ step, n.fieldStep? "body" = some step ∧ p ++ [step] <+: q := by
  have hvalue : ∀ {step body}, n.fieldStep? "body" = some step → n.step? step = some body →
      Ast.opensScope body.type = false := by
    intro step body hstep hbody
    refine hplain body (Option.bind_eq_some_iff.2 ⟨step, hstep, hbody⟩)
  rw [mem_methods_under_iff hn]
  constructor
  · rintro ⟨step, body, w, hstep, hbody, rfl, hm, htype, hopen⟩
    have hnearest := (Ast.isNearestScope_iff hn hscope hbody (hvalue hstep hbody)).2 hopen
    have hbelow : p ++ [step] <+: p ++ step :: w := ⟨w, (List.append_cons p step w).symm⟩
    exact ⟨(Ast.at?_below hn hbody w).trans hm, htype, hnearest, step, hstep, hbelow⟩
  · rintro ⟨hm, htype, hnearest, step, hstep, w, rfl⟩
    rw [← List.append_cons] at hm hnearest ⊢
    obtain ⟨body, hbody⟩ : ∃ body, n.step? step = some body := by
      rw [Ast.at?_append, hn, Option.bind_some] at hm
      obtain ⟨body, hbody, -⟩ := Option.bind_eq_some_iff.1 hm
      exact ⟨body, hbody⟩
    refine ⟨step, body, w, hstep, hbody, rfl, ?_, htype, ?_⟩
    · rwa [Ast.at?_below hn hbody] at hm
    · exact (Ast.isNearestScope_iff hn hscope hbody (hvalue hstep hbody)).1 hnearest

/-- **Every method has at most one owner.**  Take a commented tree in which the body of no class or
module is itself a class or module.  Found from the root, a class or module lists exactly the
methods in its body that have it as their nearest class or module above, in preorder and each once;
so no method is listed by two of them. -/
theorem owned_by_nearest_scope
    (hbody : ∀ n ∈ (root.toAst source comments).nodes, Ast.opensScope n.type = true →
      ∀ body ∈ n.field? "body", Ast.opensScope body.type = false) :
    (∀ p n, (root.toAst source comments).at? p = some n → Ast.opensScope n.type = true →
      (∀ q m, ⟨q, m⟩ ∈ n.definedMethods.map (Ast.Found.under p) ↔
        (root.toAst source comments).at? q = some m ∧ Ast.definesMethod m.type = true ∧
          (root.toAst source comments).IsNearestScope p q ∧
          ∃ step, n.fieldStep? "body" = some step ∧ p ++ [step] <+: q) ∧
      ((n.definedMethods.map (Ast.Found.under p)).Pairwise
        fun f g => Ast.Precedes f.address g.address) ∧
      ((n.definedMethods.map (Ast.Found.under p)).map Ast.Found.address).Nodup) ∧
    ∀ p p' n n', (root.toAst source comments).at? p = some n →
      (root.toAst source comments).at? p' = some n' → Ast.opensScope n.type = true →
      Ast.opensScope n'.type = true → p ≠ p' →
      ((n.definedMethods.map (Ast.Found.under p)).map Ast.Found.address).Disjoint
        ((n'.definedMethods.map (Ast.Found.under p')).map Ast.Found.address) := by
  have hmem : ∀ p n, (root.toAst source comments).at? p = some n →
      Ast.opensScope n.type = true → ∀ q m, ⟨q, m⟩ ∈ n.definedMethods.map (Ast.Found.under p) ↔
        (root.toAst source comments).at? q = some m ∧ Ast.definesMethod m.type = true ∧
          (root.toAst source comments).IsNearestScope p q ∧
          ∃ step, n.fieldStep? "body" = some step ∧ p ++ [step] <+: q :=
    fun p n hn hscope q m =>
      mem_methods_under_iff_nearest hn hscope (hbody n (mem_nodes_of_at? hn) hscope)
  constructor
  · intro p n hn hscope
    have horder : (n.definedMethods.map (Ast.Found.under p)).Pairwise
        fun f g => Ast.Precedes f.address g.address :=
      (Ast.pairwise_definedMethods n).map _ fun f g => Ast.precedes_under p
    exact ⟨hmem p n hn hscope, horder, Ast.nodup_of_precedes horder⟩
  · intro p p' n n' hn hn' hscope hscope' hne q hq hq'
    obtain ⟨⟨_, m⟩, hm, rfl⟩ := List.mem_map.1 hq
    obtain ⟨⟨_, m'⟩, hm', rfl⟩ := List.mem_map.1 hq'
    exact hne (((hmem p n hn hscope _ m).1 hm).2.2.1.unique
      ((hmem p' n' hn' hscope' _ m').1 hm').2.2.1)

end ParseTree

/-! ## A scope in a scope -/

namespace Nested

/-- A module with a method and with a class that has another method. -/
def text : String := "module A\n  def m; end\n  class B\n    def self.n; end\n  end\nend\n"

/-- The method of the module. -/
def method : ParseTree :=
  Sample.node 4 "method" true none ⟨11, 21, ⟨1, 2⟩, ⟨1, 12⟩⟩
    [Sample.node 5 "def" false none ⟨11, 14, ⟨1, 2⟩, ⟨1, 5⟩⟩ [],
      Sample.node 6 "identifier" true (some "name") ⟨15, 16, ⟨1, 6⟩, ⟨1, 7⟩⟩ [],
      Sample.node 7 ";" false none ⟨16, 17, ⟨1, 7⟩, ⟨1, 8⟩⟩ [],
      Sample.node 8 "end" false none ⟨18, 21, ⟨1, 9⟩, ⟨1, 12⟩⟩ []]

/-- The method of the class. -/
def innerMethod : ParseTree :=
  Sample.node 13 "singleton_method" true none ⟨36, 51, ⟨3, 4⟩, ⟨3, 19⟩⟩
    [Sample.node 14 "def" false none ⟨36, 39, ⟨3, 4⟩, ⟨3, 7⟩⟩ [],
      Sample.node 15 "self" true (some "object") ⟨40, 44, ⟨3, 8⟩, ⟨3, 12⟩⟩ [],
      Sample.node 16 "." false none ⟨44, 45, ⟨3, 12⟩, ⟨3, 13⟩⟩ [],
      Sample.node 17 "identifier" true (some "name") ⟨45, 46, ⟨3, 13⟩, ⟨3, 14⟩⟩ [],
      Sample.node 18 ";" false none ⟨46, 47, ⟨3, 14⟩, ⟨3, 15⟩⟩ [],
      Sample.node 19 "end" false none ⟨48, 51, ⟨3, 16⟩, ⟨3, 19⟩⟩ []]

def innerClass : ParseTree :=
  Sample.node 9 "class" true none ⟨24, 57, ⟨2, 2⟩, ⟨4, 5⟩⟩
    [Sample.node 10 "class" false none ⟨24, 29, ⟨2, 2⟩, ⟨2, 7⟩⟩ [],
      Sample.node 11 "constant" true (some "name") ⟨30, 31, ⟨2, 8⟩, ⟨2, 9⟩⟩ [],
      Sample.node 12 "body_statement" true (some "body") ⟨36, 51, ⟨3, 4⟩, ⟨3, 19⟩⟩ [innerMethod],
      Sample.node 20 "end" false none ⟨54, 57, ⟨4, 2⟩, ⟨4, 5⟩⟩ []]

def outerModule : ParseTree :=
  Sample.node 1 "module" true none ⟨0, 61, ⟨0, 0⟩, ⟨5, 3⟩⟩
    [Sample.node 2 "module" false none ⟨0, 6, ⟨0, 0⟩, ⟨0, 6⟩⟩ [],
      Sample.node 3 "constant" true (some "name") ⟨7, 8, ⟨0, 7⟩, ⟨0, 8⟩⟩ [],
      Sample.node 21 "body_statement" true (some "body") ⟨11, 57, ⟨1, 2⟩, ⟨4, 5⟩⟩
        [method, innerClass],
      Sample.node 22 "end" false none ⟨58, 61, ⟨5, 0⟩, ⟨5, 3⟩⟩ []]

/-- The parse tree of the text. -/
def tree : ParseTree :=
  Sample.node 0 "program" true none ⟨0, 62, ⟨0, 0⟩, ⟨6, 0⟩⟩ [outerModule]

/-- The commented tree of a part of the text, which has no comments. -/
def ast (t : ParseTree) : Ast := t.toAst (Utf8.ofString text) (.ofLists [])

/-- The module owns its own method, and not that of the class. -/
theorem owned_in_nested :
    (∀ n ∈ (ast tree).nodes, Ast.opensScope n.type = true →
      ∀ body ∈ n.field? "body", Ast.opensScope body.type = false) ∧
    ⟨[.child 0, .child 1, .child 0], ast method⟩
      ∈ (ast outerModule).definedMethods.map (Ast.Found.under [.child 0]) ∧
    ⟨[.child 0, .child 1, .child 1, .child 1, .child 0], ast innerMethod⟩
      ∈ (ast innerClass).definedMethods.map (Ast.Found.under [.child 0, .child 1, .child 1]) ∧
    ⟨[.child 0, .child 1, .child 1, .child 1, .child 0], ast innerMethod⟩
      ∉ (ast outerModule).definedMethods.map (Ast.Found.under [.child 0]) := by
  have hbody : ∀ n ∈ (ast tree).nodes, Ast.opensScope n.type = true →
      ∀ body ∈ n.field? "body", Ast.opensScope body.type = false := by decide
  have howned := (ParseTree.owned_by_nearest_scope hbody).1
  have hmodule := (howned [.child 0] (ast outerModule) rfl (by decide)).1
  have hclass := (howned [.child 0, .child 1, .child 1] (ast innerClass) rfl (by decide)).1
  refine ⟨hbody, (hmodule _ _).2 ?_, (hclass _ _).2 ?_, fun hm => ?_⟩
  · exact ⟨rfl, by decide, by decide, .child 1, rfl, by decide⟩
  · exact ⟨rfl, by decide, by decide, .child 1, rfl, by decide⟩
  · exact absurd ((hmodule _ _).1 hm).2.2.1 (by decide)

end Nested

end RubySource
