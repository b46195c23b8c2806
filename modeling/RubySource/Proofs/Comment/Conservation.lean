import Mathlib.Tactic.Choose
import RubySource.Proofs.Ast.OfParseTree
import RubySource.Proofs.Comment.Layout

/-!
# No comment is lost

Three walks over a parse tree have to agree before a reader finds a comment in the commented tree.
Comments are collected from all nodes, also from anonymous ones; they are placed by a walk over the
code nodes, which may hand a comment on to the definition above; and the commented tree is made of
the code nodes once more.  This file follows the comments through all three.

## What is here

* `associate_comments_eq` — an offer at the end of the tree leaves nobody waiting.
* `exists_codeNode_of_placement` — from a root, comments are placed on nodes of the walk only.
* `CommentMap.perm_flatMap_get` — the comments of all nodes, put together, are the placed ones.
* `Ast.Holds` — every comment is held at one address, and each node holds its own in order;
  `holds_toAst` says so of the commented tree.
* `holds_of_accepted` — **no comment is lost or doubled** on the way from an accepted parse tree to
  its commented tree, and only the directives are left out.
-/

set_option autoImplicit false

namespace RubySource

/-! ## Everybody is placed -/

/-- If all comments end in the tree, what is placed is what waited. -/
theorem associate_comments_eq (source : Bytes) (parent : Option ParseTree) {t : ParseTree}
    {comments : List Comment} (h : ∀ c ∈ comments, c.stopByte ≤ t.stopByte) :
    (associate source parent t comments).placements.map (·.comment) = waiting comments := by
  have hinside : Offer.inside t ∈ t.offers parent :=
    ParseTree.mem_offers_iff.2 ⟨parent, t, .start parent t, Or.inr (Or.inl rfl)⟩
  have hleft : (Placement.serveAll ⟨t.text source, t.startByte⟩ (t.offers parent)
      (waiting comments)).2 = [] := by
    refine Placement.serveAll_left_eq_nil hinside fun c hc => ?_
    simpa [Offer.accepts] using h c (mem_of_mem_waiting hc)
  have hall := Placement.serveAll_comments ⟨t.text source, t.startByte⟩ (t.offers parent)
    (waiting comments)
  rwa [hleft, List.append_nil] at hall

/-- From a root, comments are placed on nodes of the walk only. -/
theorem exists_codeNode_of_placement {source : Bytes} {root : ParseTree} {comments : List Comment}
    {p : Placement} (h : p ∈ (associate source none root comments).placements) :
    ∃ n ∈ root.codeNodes, n.id = p.node := by
  obtain ⟨o, ho, hnode, -⟩ := Placement.exists_offer_of_mem_serveAll h
  rcases ParseTree.exists_target ho with ⟨n, hn, htarget⟩ | ⟨q, hq, -⟩
  · exact ⟨n, hn, (hnode.trans htarget).symm⟩
  · cases hq

/-! ## The comments of all nodes together -/

namespace CommentMap

theorem get_filter_of_ne (placements : List Placement) {j k : Nat} (h : j ≠ k) :
    (⟨placements.filter fun p => !(p.node == k)⟩ : CommentMap).get j
      = (⟨placements⟩ : CommentMap).get j := by
  rw [get, get, List.filter_filter]
  congr 1
  refine List.filter_congr fun p _ => ?_
  by_cases hp : p.node = j
  · simp [hp, h]
  · simp [hp]

/-- The comments of all nodes, put together, are those that are placed. -/
theorem perm_flatMap_get {nodes : List Nat} (hnodes : nodes.Nodup) (m : CommentMap)
    (h : ∀ p ∈ m.placements, p.node ∈ nodes) :
    (nodes.flatMap m.get).Perm (m.placements.map (·.comment)) := by
  obtain ⟨placements⟩ := m
  induction nodes generalizing placements with
  | nil =>
    have hnil : placements = [] := List.eq_nil_iff_forall_not_mem.2 fun p hp => by cases h p hp
    subst hnil
    exact List.Perm.nil
  | cons k ks ih =>
    obtain ⟨hk, hks⟩ := List.nodup_cons.1 hnodes
    have hrest : ks.flatMap (⟨placements⟩ : CommentMap).get
        = ks.flatMap (⟨placements.filter fun p => !(p.node == k)⟩ : CommentMap).get :=
      List.flatMap_congr fun j hj =>
        (get_filter_of_ne placements (ne_of_mem_of_not_mem hj hk)).symm
    have hmem : ∀ p ∈ placements.filter (fun p => !(p.node == k)), p.node ∈ ks := by
      intro p hp
      obtain ⟨hp, hne⟩ := List.mem_filter.1 hp
      have hne' : p.node ≠ k := by simpa using hne
      exact (List.mem_cons.1 (h p hp)).resolve_left hne'
    have hsplit := (List.filter_append_perm (fun p : Placement => p.node == k) placements).map
      (·.comment)
    rw [List.map_append] at hsplit
    rw [List.flatMap_cons, hrest]
    exact ((ih hks _ hmem).append_left _).trans hsplit

end CommentMap

/-! ## What a commented tree holds -/

/-- A tree holds comments: each of them at one address, and every node those at its address, in
their order. -/
def Ast.Holds (tree : Ast) (comments : List Comment) : Prop :=
  ∃ held : List (Ast.Address × Comment), held.map Prod.snd = comments ∧
    (∀ h ∈ held, (tree.at? h.1).isSome = true) ∧
      ∀ a n, tree.at? a = some n →
        n.comments = (held.filter fun h => h.1 == a).map Prod.snd

namespace ParseTree

/-- The commented tree holds what is placed on code nodes. -/
theorem holds_toAst (source : Bytes) {m : CommentMap} {t : ParseTree}
    (hids : (t.codeNodes.map id).Nodup)
    (h : ∀ p ∈ m.placements, ∃ n ∈ t.codeNodes, n.id = p.node) :
    (t.toAst source m).Holds (m.placements.map (·.comment)) := by
  have haddress : ∀ p ∈ m.placements, ∃ a n, t.codeAt? a = some n ∧ n.id = p.node := by
    intro p hp
    obtain ⟨n, hn, he⟩ := h p hp
    obtain ⟨a, ha⟩ := exists_codeAt? hn
    exact ⟨a, n, ha, he⟩
  choose! address hat using haddress
  refine ⟨m.placements.map fun p => (address p, p.comment), by simp, ?_, ?_⟩
  · intro x hx
    obtain ⟨p, hp, rfl⟩ := List.mem_map.1 hx
    obtain ⟨n, hn, -⟩ := hat p hp
    simp [at?_toAst, hn]
  · intro a x hx
    rw [at?_toAst, Option.map_eq_some_iff] at hx
    obtain ⟨n, hn, rfl⟩ := hx
    have hsame : ∀ p ∈ m.placements, (p.node == n.id) = (address p == a) := by
      intro p hp
      obtain ⟨n', hn', he⟩ := hat p hp
      rw [Bool.eq_iff_iff, beq_iff_eq, beq_iff_eq]
      constructor
      · exact fun hp => codeAt?_inj hids hn' hn (he.trans hp)
      · rintro rfl
        rw [← he, Option.some_inj.1 (hn'.symm.trans hn)]
    rw [comments_toAst, CommentMap.get, List.filter_map, List.map_map, List.filter_congr hsame]
    rfl

end ParseTree

/-! ## From the parse tree to the commented tree -/

open ParseTree

/-- A parse tree that is accepted and holds code is handed on with all its comments. -/
theorem eq_of_verdict_eq_ok {text origin : String} {root : ParseTree} {accepted : Accepted}
    (hverdict : root.verdict text origin = .ok accepted) (hcode : accepted.root.isSome = true) :
    accepted = ⟨some root, root.comments (Utf8.ofString text)⟩ := by
  rw [verdict] at hverdict
  split at hverdict
  · cases hverdict
  · cases hverdict
    by_cases hroot : root.hasCode = true
    · simp only [hroot, if_true]
    · simp [hroot] at hcode

/-- **No comment is lost or doubled.**  Take a parse tree whose nodes have identities of their own,
that is accepted and holds code, and whose comments all end in it.  Its commented tree holds all of
its comments in the order of the source, except at most three directives in front of them: each at
exactly one address.  So the comments of all nodes together are these comments, and those of each
node stand in the order of the source.  Comments are placed on nodes that the commented tree
keeps. -/
theorem holds_of_accepted {text origin : String} {root : ParseTree} {accepted : Accepted}
    (hverdict : root.verdict text origin = .ok accepted) (hcode : accepted.root.isSome = true)
    (hids : (root.nodes.map ParseTree.id).Nodup)
    (hends : ∀ c ∈ accepted.comments, c.stopByte ≤ root.stopByte) :
    ∃ tree d, accepted.toAst? (Utf8.ofString text) = some tree ∧ d ≤ 3 ∧
      waiting accepted.comments = (inSourceOrder accepted.comments).drop d ∧
      tree.Holds (waiting accepted.comments) ∧
      (tree.nodes.flatMap Ast.comments).Perm (waiting accepted.comments) ∧
      (∀ n ∈ tree.nodes, n.comments.Pairwise fun c d => c.startByte ≤ d.startByte) ∧
      ∀ key ∈ (associate (Utf8.ofString text) none root accepted.comments).keys,
        ∃ n ∈ root.codeNodes, n.id = key ∧
          n.toAst (Utf8.ofString text) (associate (Utf8.ofString text) none root accepted.comments)
            ∈ tree.nodes := by
  obtain rfl := eq_of_verdict_eq_ok hverdict hcode
  obtain ⟨d, hd, -, hdrop⟩ :=
    Directive.dropDirectives_eq_drop (inSourceOrder (root.comments (Utf8.ofString text)))
  have hcodeIds := nodup_codeNodes_ids hids
  have hall := associate_comments_eq (Utf8.ofString text) none hends
  have hkept : ∀ p ∈ (associate (Utf8.ofString text) none root
      (root.comments (Utf8.ofString text))).placements, ∃ n ∈ root.codeNodes, n.id = p.node :=
    fun p hp => exists_codeNode_of_placement hp
  refine ⟨_, d, rfl, hd, hdrop, ?_, ?_, ?_, ?_⟩
  · rw [← hall]
    exact holds_toAst _ hcodeIds hkept
  · rw [← hall, nodes_toAst, List.flatMap_map]
    have hperm := CommentMap.perm_flatMap_get hcodeIds _ fun p hp => by
      obtain ⟨n, hn, he⟩ := hkept p hp
      exact he ▸ List.mem_map_of_mem hn
    simpa only [List.flatMap_map, comments_toAst] using hperm
  · rw [nodes_toAst]
    intro x hx
    obtain ⟨n, -, rfl⟩ := List.mem_map.1 hx
    rw [comments_toAst]
    exact associate_get_sorted _ none root _ n.id
  · intro key hkey
    obtain ⟨p, hp, rfl⟩ := List.mem_map.1 (List.mem_eraseDups.1 hkey)
    obtain ⟨n, hn, he⟩ := hkept p hp
    rw [nodes_toAst]
    exact ⟨n, hn, he, List.mem_map_of_mem hn⟩

/-- The small source is accepted, and its commented tree holds all comments but the shebang line. -/
theorem holds_sample :
    Sample.tree.verdict Sample.text "string" = .ok ⟨some Sample.tree, Sample.comments⟩ ∧
      ∃ tree, Accepted.toAst? Sample.source ⟨some Sample.tree, Sample.comments⟩ = some tree ∧
        tree.Holds [Sample.header, Sample.above, Sample.beside] := by
  have hverdict :
      Sample.tree.verdict Sample.text "string" = .ok ⟨some Sample.tree, Sample.comments⟩ := rfl
  obtain ⟨tree, d, htree, -, -, hholds, -⟩ :=
    holds_of_accepted hverdict rfl (by decide) (by decide)
  rw [Sample.waiting_comments] at hholds
  exact ⟨hverdict, tree, htree, hholds⟩

end RubySource
