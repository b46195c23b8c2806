import Mathlib.Data.List.Infix
import RubySource.Proofs.Ast.Places

/-!
# What a search finds

A search works through a stack: it takes a node off, reports it, and puts its children in its place
unless the node is of an ignored type.  What it reports can be said without the stack.  A node is
reported if it is of a type searched for and no node on the way to it is ignored; the node where the
search starts and the reported node itself may be of ignored types.

The invariant is that every node on the stack may be gone to.  What is still to come is then the
subtrees on the stack, one after the other, so that taking a node off and putting its children back
leaves it as it is.

## What is here

* `IsOpenTo` — nothing on the way to an address is ignored; `isOpenTo_concat_iff` takes the last
  step apart.
* `visits_eq` — the loop reports what the subtrees on the stack show.
* `eachNode_eq_filter`, `mem_eachNode_iff`, `pairwise_eachNode` — the result of a search as a part
  of the places of the tree; `eachNode_eq_places` says when it is all of them.
* `containsNested_iff` — what is nested is properly below.
* `search_exact` — **the search finds what it should**, in preorder and once, and what this says of
  nested nodes and of the size of a tree.
-/

set_option autoImplicit false

namespace RubySource
namespace Ast

/-! ## The way to an address -/

/-- No node strictly between the root and the node at an address is of an ignored type. -/
def IsOpenTo (a : Ast) (ignored : String → Bool) (p : Address) : Prop :=
  ∀ q, q ≠ [] → q <+: p → q ≠ p → ∀ m, a.at? q = some m → ignored m.type = false

instance (a : Ast) (ignored : String → Bool) (p : Address) : Decidable (a.IsOpenTo ignored p) :=
  decidable_of_iff
    (∀ q ∈ p.inits, q ≠ [] → q ≠ p → ∀ m ∈ a.at? q, ignored m.type = false)
    ⟨fun h q hne hq hnp m hm => h q (List.mem_inits q p |>.2 hq) hne hnp m hm,
      fun h q hq hne hnp m hm => h q hne (List.mem_inits q p |>.1 hq) hnp m hm⟩

variable {a : Ast} {targets ignored : String → Bool}

theorem isOpenTo_nil : a.IsOpenTo ignored [] :=
  fun _ hne hq => absurd (List.prefix_nil.1 hq) hne

theorem isOpenTo_of_forall (h : ∀ type, ignored type = false) (p : Address) :
    a.IsOpenTo ignored p :=
  fun _ _ _ _ m _ => h m.type

/-- One may go a step further from a node that is not ignored, and from the root. -/
theorem isOpenTo_concat_iff {p : Address} {s : Step} :
    a.IsOpenTo ignored (p ++ [s]) ↔
      a.IsOpenTo ignored p ∧ (p ≠ [] → ∀ m, a.at? p = some m → ignored m.type = false) := by
  constructor
  · intro h
    have hshort : ∀ q, q <+: p → q ≠ p ++ [s] := by
      rintro q hq rfl
      have hlength := hq.length_le
      rw [List.length_append, List.length_singleton] at hlength
      omega
    exact ⟨fun q hne hq _ => h q hne (hq.trans (List.prefix_append p [s])) (hshort q hq),
      fun hne => h p hne (List.prefix_append p [s]) (hshort p List.prefix_rfl)⟩
  · rintro ⟨hopen, hlast⟩ q hne hq hnp
    have hqp := (List.prefix_concat_iff.1 hq).resolve_left hnp
    by_cases he : q = p
    · subst he
      exact hlast hne
    · exact hopen q hne hqp he

/-- One may not go past an ignored node. -/
theorem not_isOpenTo_append {p q : Address} {m : Ast} (hp : p ≠ []) (hq : q ≠ [])
    (hm : a.at? p = some m) (hignored : ignored m.type = true) : ¬ a.IsOpenTo ignored (p ++ q) := by
  intro h
  have hne : p ≠ p ++ q := fun he => hq (List.append_right_eq_self.1 he.symm)
  rw [h p hp (List.prefix_append p q) hne m hm] at hignored
  cases hignored

/-! ## The loop -/

/-- What a search reports of the nodes that it passes. -/
def reports (a : Ast) (targets ignored : String → Bool) (f : Found) : Bool :=
  targets f.node.type && decide (a.IsOpenTo ignored f.address)

/-- A node that is on the stack: it is in the tree, and one may go to it. -/
def IsPending (a : Ast) (ignored : String → Bool) (f : Found) : Prop :=
  a.at? f.address = some f.node ∧ a.IsOpenTo ignored f.address

/-- A pending node is reported if it is searched for. -/
theorem IsPending.filter_subtree {f : Found} (h : a.IsPending ignored f) :
    f.subtree.filter (a.reports targets ignored)
      = (if targets f.node.type then [f] else [])
        ++ (f.children.flatMap Found.subtree).filter (a.reports targets ignored) := by
  rw [Found.subtree_eq, List.filter_cons, reports, decide_eq_true h.2, Bool.and_true]
  split <;> rfl

/-- The children of a node that may be gone into are pending as soon as it is. -/
theorem IsPending.child {f g : Found} (h : a.IsPending ignored f)
    (hinto : f.address = [] ∨ ignored f.node.type = false) (hg : g ∈ f.children) :
    a.IsPending ignored g := by
  obtain ⟨i, c, hc, rfl⟩ := Found.mem_children_iff.1 hg
  refine ⟨?_, isOpenTo_concat_iff.2 ⟨h.2, fun hne m hm => ?_⟩⟩
  · rw [at?_append, h.1, Option.bind_some]
    simp [at?, step?, hc]
  · rw [h.1, Option.some_inj] at hm
    rw [← hm]
    exact hinto.resolve_left hne

/-- Below an ignored node nothing is reported. -/
theorem IsPending.filter_below {f : Found} (h : a.IsPending ignored f) (hne : f.address ≠ [])
    (hignored : ignored f.node.type = true) :
    (f.children.flatMap Found.subtree).filter (a.reports targets ignored) = [] := by
  rw [List.filter_eq_nil_iff]
  intro g hg hreports
  obtain ⟨c, hc, hg⟩ := List.mem_flatMap.1 hg
  obtain ⟨p, haddress, -⟩ := Found.mem_subtree_iff.1 hg
  obtain ⟨i, b, -, rfl⟩ := Found.mem_children_iff.1 hc
  rw [reports, Bool.and_eq_true, decide_eq_true_eq, haddress, List.append_assoc] at hreports
  exact not_isOpenTo_append hne (by simp) h.1 hignored hreports.2

/-- **The loop reports what the subtrees on the stack show**, one after the other. -/
theorem visits_eq {stack : List Found} (h : ∀ f ∈ stack, a.IsPending ignored f) :
    visits targets ignored stack
      = stack.flatMap fun f => f.subtree.filter (a.reports targets ignored) := by
  fun_induction visits targets ignored stack with
  | case1 => rw [List.flatMap_nil]
  | case2 f rest here hskip ih =>
    obtain ⟨hf, hrest⟩ := List.forall_mem_cons.1 h
    rw [ih hrest, List.flatMap_cons, hf.filter_subtree, hf.filter_below hskip.1 hskip.2,
      List.append_nil]
    simp only [here, dite_eq_ite]
  | case3 f rest here hinto ih =>
    obtain ⟨hf, hrest⟩ := List.forall_mem_cons.1 h
    have hfree : f.address = [] ∨ ignored f.node.type = false := by
      by_cases hne : f.address = []
      · exact Or.inl hne
      · exact Or.inr (by simpa [hne] using hinto)
    have hpending : ∀ g ∈ f.children ++ rest, a.IsPending ignored g :=
      List.forall_mem_append.2 ⟨fun g hg => hf.child hfree hg, hrest⟩
    rw [ih hpending, List.flatMap_append, List.flatMap_cons, hf.filter_subtree,
      List.filter_flatMap, List.append_assoc]
    simp only [here, dite_eq_ite]

/-! ## The result -/

/-- A search reports a part of the places of the tree. -/
theorem eachNode_eq_filter (a : Ast) (targets ignored : String → Bool) :
    a.eachNode targets ignored = a.places.filter (a.reports targets ignored) := by
  have hroot : ∀ f ∈ [(⟨[], a⟩ : Found)], a.IsPending ignored f := by
    intro f hf
    obtain rfl := List.mem_singleton.1 hf
    exact ⟨rfl, isOpenTo_nil⟩
  rw [eachNode, visits_eq hroot, List.flatMap_singleton, places]

theorem mem_eachNode_iff {f : Found} :
    f ∈ a.eachNode targets ignored
      ↔ a.Contains f ∧ targets f.node.type = true ∧ a.IsOpenTo ignored f.address := by
  rw [eachNode_eq_filter, List.mem_filter, mem_places_iff, reports, Bool.and_eq_true,
    decide_eq_true_eq]

theorem pairwise_eachNode (a : Ast) (targets ignored : String → Bool) :
    (a.eachNode targets ignored).Pairwise fun f g => Precedes f.address g.address := by
  rw [eachNode_eq_filter]
  exact (pairwise_places a).filter _

/-- A node of a type is nested exactly if there is one properly below. -/
theorem containsNested_iff {type : String} :
    a.containsNested type = true ↔ ∃ f, a.Contains f ∧ f.address ≠ [] ∧ f.node.type = type := by
  rw [containsNested, List.any_eq_true]
  constructor
  · rintro ⟨f, hf, hbelow⟩
    obtain ⟨hmem, htype, -⟩ := mem_eachNode_iff.1 hf
    exact ⟨f, hmem, by simpa using hbelow, by simpa using htype⟩
  · rintro ⟨f, hmem, hbelow, rfl⟩
    have hopen : a.IsOpenTo (fun _ => false) f.address := isOpenTo_of_forall (fun _ => rfl) _
    exact ⟨f, mem_eachNode_iff.2 ⟨hmem, by simp, hopen⟩, by simpa using hbelow⟩

/-- A search for all types of a tree that ignores none reports all of its nodes. -/
theorem eachNode_eq_places (htargets : ∀ f, a.Contains f → targets f.node.type = true)
    (hignored : ∀ type, ignored type = false) : a.eachNode targets ignored = a.places := by
  rw [eachNode_eq_filter, List.filter_eq_self]
  intro f hf
  have htype := htargets f (mem_places_iff.1 hf)
  rw [reports, htype, decide_eq_true (isOpenTo_of_forall hignored f.address), Bool.and_true]

/-- **The search finds what it should.**  The loop reports what the recursive listing of the tree
shows: in preorder and each once, the nodes of the types searched for to which one may go without
passing an ignored node, where neither the node at the start nor the reported node counts as passed.
So a node of a type is nested exactly if there is one properly below, and a search for all types
that ignores none counts the nodes of the tree. -/
theorem search_exact (a : Ast) :
    (∀ targets ignored,
      a.eachNode targets ignored = a.places.filter (a.reports targets ignored) ∧
      ((a.eachNode targets ignored).Pairwise fun f g => Precedes f.address g.address) ∧
      ((a.eachNode targets ignored).map Found.address).Nodup ∧
      ∀ f, f ∈ a.eachNode targets ignored
        ↔ a.Contains f ∧ targets f.node.type = true ∧ a.IsOpenTo ignored f.address) ∧
    (∀ type, a.containsNested type = true
      ↔ ∃ f, a.Contains f ∧ f.address ≠ [] ∧ f.node.type = type) ∧
    ∀ targets ignored, (∀ f, a.Contains f → targets f.node.type = true) →
      (∀ type, ignored type = false) → a.size = (a.eachNode targets ignored).length := by
  refine ⟨fun targets ignored => ?_, fun type => containsNested_iff,
    fun targets ignored htargets hignored => ?_⟩
  · have horder := pairwise_eachNode a targets ignored
    exact ⟨eachNode_eq_filter a targets ignored, horder, nodup_of_precedes horder,
      fun f => mem_eachNode_iff⟩
  · rw [eachNode_eq_places htargets hignored, length_places]

end Ast
end RubySource
