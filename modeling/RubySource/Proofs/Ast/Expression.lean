import RubySource.Proofs.Ast.Places
import RubySource.Proofs.Text.Quoted

/-!
# Reading a tree off its expression

A tree is written as an expression in brackets: the type of a node, and then its children, or the
quoted source of a leaf.  The source of a leaf may hold anything, brackets and quotes as well, and
may even look like an expression.  Still the expression shows all of the tree that is meant to be
shown, because it can be told where each part of it ends: a type at the first space, a quoted source
at its quote, and the children of a node at the bracket that closes it.

## What is here

* `Ast.Alike` — **the specification**: two trees have the same shape, the same types, and the same
  sources at their leaves.
* `child_induction` — induction along the children.
* `write_leaf`, `write_inner` — the expressions of the two sorts of nodes.
* `alike_of_write_append` — an expression can be told apart from what stands behind it.
* `text_eq_iff_alike` — **expressions are the same exactly where trees are alike**.
-/

set_option autoImplicit false

namespace RubySource
namespace Ast

/-! ## Trees that look alike -/

/-- Two trees have the same shape, the same type at each node, and the same source at each leaf. -/
inductive Alike : Ast → Ast → Prop
  | leaf {a b : Ast} (ha : a.children = []) (hb : b.children = []) (htype : a.type = b.type)
      (hsource : a.source = b.source) : Alike a b
  | inner {a b : Ast} (ha : a.children ≠ []) (htype : a.type = b.type)
      (hchildren : List.Forall₂ Alike a.children b.children) : Alike a b

/-- What holds of a node as soon as it holds of its children holds of every node. -/
@[elab_as_elim]
theorem child_induction {motive : Ast → Prop}
    (visit : ∀ a : Ast, (∀ c ∈ a.children, motive c) → motive a) (a : Ast) : motive a :=
  visit a fun c hc => by
    have hlt := List.sizeOf_lt_of_mem hc
    have hchildren : sizeOf a.children < sizeOf a := by
      cases a
      simp only [Ast.children, node.sizeOf_spec]
      omega
    exact child_induction visit c
termination_by sizeOf a
decreasing_by exact Nat.lt_trans hlt hchildren

/-! ## Expressions -/

theorem write_leaf {a : Ast} (h : a.children = []) :
    a.write = '(' :: (a.type.toList ++ ' ' :: (Text.quoted a.source.toList ++ [')'])) := by
  obtain ⟨info, children, annexed⟩ := a
  obtain rfl : children = [] := h
  rw [write]
  exact List.append_assoc ('(' :: info.type.toList) (' ' :: Text.quoted info.source.toList) [')']

theorem write_inner {a : Ast} (h : a.children ≠ []) :
    a.write = '(' :: (a.type.toList ++ (writeIn a.children ++ [')'])) := by
  obtain ⟨info, children, annexed⟩ := a
  cases children with
  | nil => exact absurd rfl h
  | cons c cs =>
    rw [write]
    exact List.append_assoc ('(' :: info.type.toList) (writeIn (c :: cs)) [')']

/-- Every expression starts with a bracket. -/
theorem exists_write_eq_cons (a : Ast) : ∃ cs, a.write = '(' :: cs := by
  by_cases h : a.children = []
  · exact ⟨_, write_leaf h⟩
  · exact ⟨_, write_inner h⟩

/-- The children of an inner node are written behind a space and a bracket. -/
theorem exists_writeIn_eq_cons {as : List Ast} (h : as ≠ []) :
    ∃ cs, writeIn as = ' ' :: '(' :: cs := by
  obtain ⟨a, rest, rfl⟩ := List.exists_cons_of_ne_nil h
  obtain ⟨cs, hcs⟩ := exists_write_eq_cons a
  exact ⟨cs ++ writeIn rest, by rw [writeIn, hcs]; rfl⟩

/-! ## Telling parts apart -/

/-- A type ends at the first space. -/
theorem word_append_inj {xs ys r s : List Char} (hx : ' ' ∉ xs) (hy : ' ' ∉ ys)
    (h : xs ++ ' ' :: r = ys ++ ' ' :: s) : xs = ys ∧ r = s := by
  induction xs generalizing ys with
  | nil =>
    cases ys with
    | nil => exact ⟨rfl, (List.cons.inj h).2⟩
    | cons y ys => exact absurd (List.mem_cons.2 (Or.inl (List.cons.inj h).1)) hy
  | cons x xs ih =>
    cases ys with
    | nil => exact absurd (List.mem_cons.2 (Or.inl (List.cons.inj h).1.symm)) hx
    | cons y ys =>
      obtain ⟨rfl, hrest⟩ := List.cons.inj h
      have hsplit := ih (List.not_mem_of_not_mem_cons hx) (List.not_mem_of_not_mem_cons hy) hrest
      exact ⟨congrArg (_ :: ·) hsplit.1, hsplit.2⟩

/-- No quoted text starts with a bracket. -/
theorem quoted_append_ne (cs r s : List Char) : Text.quoted cs ++ r ≠ '(' :: s := by
  intro h
  have hmark : Text.quoteMark cs = '(' := (List.cons.inj h).1
  rcases Text.quoteMark_cases cs with hc | hc <;> rw [hc] at hmark <;> cases hmark

/-- The children of a node can be told apart from what stands behind them, if each of them can. -/
theorem forall₂_of_writeIn_append {as bs : List Ast} {r s : List Char}
    (hread : ∀ a ∈ as, ∀ b ∈ bs, ∀ r s, a.write ++ r = b.write ++ s → Alike a b ∧ r = s)
    (h : writeIn as ++ ')' :: r = writeIn bs ++ ')' :: s) : List.Forall₂ Alike as bs ∧ r = s := by
  induction as generalizing bs with
  | nil =>
    cases bs with
    | nil => exact ⟨.nil, (List.cons.inj h).2⟩
    | cons b bs =>
      have hspace := (List.cons.inj h).1
      cases hspace
  | cons a as ih =>
    cases bs with
    | nil =>
      have hspace := (List.cons.inj h).1
      cases hspace
    | cons b bs =>
      simp only [writeIn, List.cons_append, List.append_assoc, List.cons.injEq, true_and] at h
      obtain ⟨halike, hrest⟩ := hread a (List.mem_cons_self ..) b (List.mem_cons_self ..) _ _ h
      obtain ⟨hchildren, hrs⟩ := ih
        (fun a' ha' b' hb' => hread a' (List.mem_cons_of_mem a ha') b' (List.mem_cons_of_mem b hb'))
        hrest
      exact ⟨.cons halike hchildren, hrs⟩

/-- No type of a node holds a space. -/
def TypesUnspaced (a : Ast) : Prop := ∀ n ∈ a.nodes, ' ' ∉ n.type.toList

instance (a : Ast) : Decidable a.TypesUnspaced :=
  inferInstanceAs (Decidable (∀ n ∈ a.nodes, _))

theorem TypesUnspaced.self {a : Ast} (h : a.TypesUnspaced) : ' ' ∉ a.type.toList :=
  h a (by rw [nodes_eq]; exact List.mem_cons_self ..)

theorem TypesUnspaced.child {a c : Ast} (h : a.TypesUnspaced) (hc : c ∈ a.children) :
    c.TypesUnspaced := by
  intro n hn
  refine h n ?_
  rw [nodes_eq]
  exact List.mem_cons_of_mem a (List.mem_flatMap.2 ⟨c, hc, hn⟩)

/-- What is written behind the type of a leaf is not what is written behind that of an inner
node. -/
theorem write_append_ne {a b : Ast} (ha : a.children = []) (hb : b.children ≠ [])
    (hatype : ' ' ∉ a.type.toList) (hbtype : ' ' ∉ b.type.toList) (r s : List Char) :
    a.write ++ r ≠ b.write ++ s := by
  intro h
  obtain ⟨cs, hcs⟩ := exists_writeIn_eq_cons hb
  rw [write_leaf ha, write_inner hb, hcs] at h
  simp only [List.cons_append, List.append_assoc, List.cons.injEq, true_and] at h
  exact quoted_append_ne _ _ _ (word_append_inj hatype hbtype h).2

/-- **An expression can be told apart from what stands behind it.** -/
theorem alike_of_write_append {a b : Ast} (ha : a.TypesUnspaced) (hb : b.TypesUnspaced)
    {r s : List Char} (h : a.write ++ r = b.write ++ s) : Alike a b ∧ r = s := by
  induction a using child_induction generalizing b r s with
  | visit a ih =>
    by_cases hleaf : a.children = [] <;> by_cases hleaf' : b.children = []
    · rw [write_leaf hleaf, write_leaf hleaf'] at h
      simp only [List.cons_append, List.append_assoc, List.cons.injEq, true_and] at h
      obtain ⟨htype, hrest⟩ := word_append_inj ha.self hb.self h
      obtain ⟨hsource, hclose⟩ := Text.quoted_append_inj hrest
      exact ⟨.leaf hleaf hleaf' (String.toList_injective htype) (String.toList_injective hsource),
        (List.cons.inj hclose).2⟩
    · exact absurd h (write_append_ne hleaf hleaf' ha.self hb.self r s)
    · exact absurd h.symm (write_append_ne hleaf' hleaf hb.self ha.self s r)
    · obtain ⟨cs, hcs⟩ := exists_writeIn_eq_cons hleaf
      obtain ⟨ds, hds⟩ := exists_writeIn_eq_cons hleaf'
      rw [write_inner hleaf, write_inner hleaf', hcs, hds] at h
      simp only [List.cons_append, List.append_assoc, List.cons.injEq, true_and] at h
      obtain ⟨htype, hrest⟩ := word_append_inj ha.self hb.self h
      have hbelow : writeIn a.children ++ ')' :: r = writeIn b.children ++ ')' :: s := by
        rw [hcs, hds]
        exact congrArg (' ' :: ·) hrest
      obtain ⟨hchildren, hrs⟩ := forall₂_of_writeIn_append
        (fun c hc d hd _ _ hcd => ih c hc (ha.child hc) (hb.child hd) hcd) hbelow
      exact ⟨.inner hleaf (String.toList_injective htype) hchildren, hrs⟩

/-! ## Expressions of trees that are alike -/

theorem writeIn_eq_of_forall₂ {as bs : List Ast} (h : List.Forall₂ Alike as bs)
    (hwrite : ∀ a ∈ as, ∀ b, Alike a b → a.write = b.write) : writeIn as = writeIn bs := by
  induction h with
  | nil => rfl
  | cons hab _ ih =>
    rw [writeIn, writeIn, hwrite _ (List.mem_cons_self ..) _ hab,
      ih fun a ha => hwrite a (List.mem_cons_of_mem _ ha)]

/-- Trees that are alike have the same expression. -/
theorem write_eq_of_alike {a b : Ast} (h : Alike a b) : a.write = b.write := by
  induction a using child_induction generalizing b with
  | visit a ih =>
    cases h with
    | leaf ha hb htype hsource => rw [write_leaf ha, write_leaf hb, htype, hsource]
    | inner ha htype hchildren =>
      have hb : b.children ≠ [] := by
        intro hb
        rw [hb] at hchildren
        exact ha (List.forall₂_nil_right_iff.1 hchildren)
      rw [write_inner ha, write_inner hb, htype,
        writeIn_eq_of_forall₂ hchildren fun c hc d hcd => ih c hc hcd]

/-- **Expressions are the same exactly where trees are alike**: of the same shape, with the same
type at each node and the same source at each leaf, whatever the sources hold.  Of the types it is
asked that they hold no space. -/
theorem text_eq_iff_alike {a b : Ast} (ha : a.TypesUnspaced) (hb : b.TypesUnspaced) :
    a.text = b.text ↔ Alike a b := by
  constructor
  · intro h
    have hwrite : a.write ++ [] = b.write ++ [] := congrArg (· ++ []) (String.ofList_injective h)
    exact (alike_of_write_append ha hb hwrite).1
  · intro h
    exact congrArg String.ofList (write_eq_of_alike h)

/-! ## A leaf that looks like two -/

namespace Lookalike

def node (type source : String) (children : List Ast) : Ast :=
  .node ⟨.plain, type, source, ⟨0, 0⟩, ⟨0, 0⟩, [], []⟩ children []

/-- A leaf whose source reads like the end of a leaf and the start of another one. -/
def one : Ast := node "list" "" [node "str" "a') (str 'b" []]

def two : Ast := node "list" "" [node "str" "a" [], node "str" "b" []]

end Lookalike

/-- A leaf is not taken for two, even if its source looks like that. -/
theorem text_ne_lookalike :
    Lookalike.one.TypesUnspaced ∧ Lookalike.two.TypesUnspaced ∧
      Lookalike.one.text ≠ Lookalike.two.text := by
  have hone : Lookalike.one.TypesUnspaced := by decide
  have htwo : Lookalike.two.TypesUnspaced := by decide
  refine ⟨hone, htwo, fun h => ?_⟩
  cases (text_eq_iff_alike hone htwo).1 h with
  | leaf ha => cases ha
  | inner _ _ hchildren =>
    have hlength := hchildren.length_eq
    cases hlength

end Ast
end RubySource
