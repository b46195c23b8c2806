import RubySource.Proofs.Ast.Image
import RubySource.Proofs.ParseTree.Verdict

/-!
# The comments that an accepted tree comes with

The comments of a tree are collected by a walk of its own: it goes through tokens, which no other
walk enters, and it does not look into a comment.  What it brings back can be told from the list of
the nodes below the root.

## What is here

* `lineagesBelow` — the nodes below a node, each with the nodes in between.
* `outermostComments` — the comments below a node that lie in no other comment below it;
  `outermostComments_eq` opens the list, and `comments_eq_map` says that these are collected.
* `NestedThroughout.pairwise_outermostComments` — if all nodes lie properly in one another, the
  comments follow one another, so that a sort by place has nothing to do
  (`inSourceOrder_eq_self`).
* `children_toAst_eq_nil_iff` — whether a tree holds code can be seen from its commented tree.
* `accepted_with_all_comments` — **what is handed on of an accepted tree**.
-/

set_option autoImplicit false

namespace RubySource
namespace ParseTree

/-! ## The comments below a node -/

/-- The nodes below a node in preorder, each with the nodes in between from the nearest on. -/
def lineagesBelow (t : ParseTree) : List (List ParseTree × ParseTree) :=
  t.children.flatMap (lineages [])

/-- The nodes of a tree are its root and those below it. -/
theorem nodes_eq_cons_lineagesBelow (t : ParseTree) :
    t.nodes = t :: t.lineagesBelow.map Prod.snd := by
  rw [nodes_eq, lineagesBelow, List.map_flatMap]
  congr 1
  exact List.flatMap_congr fun c _ => (map_snd_lineages c []).symm

/-- Whether a node is a comment and none of the nodes above it is one. -/
def isOutermostComment (above : List ParseTree) (t : ParseTree) : Bool :=
  t.isComment && !above.any isComment

/-- The comments below a node, in preorder, that lie in no other comment below it. -/
def outermostComments (t : ParseTree) : List ParseTree :=
  (t.lineagesBelow.filter fun v => v.2.isOutermostComment v.1).map Prod.snd

theorem mem_nodes_of_mem_outermostComments {t n : ParseTree} (h : n ∈ t.outermostComments) :
    n ∈ t.nodes := by
  obtain ⟨v, hv, rfl⟩ := List.mem_map.1 h
  rw [nodes_eq_cons_lineagesBelow]
  exact List.mem_cons_of_mem t (List.mem_map_of_mem (List.mem_of_mem_filter hv))

theorem isComment_of_mem_outermostComments {t n : ParseTree} (h : n ∈ t.outermostComments) :
    n.isComment = true := by
  obtain ⟨v, hv, rfl⟩ := List.mem_map.1 h
  exact (Bool.and_eq_true_iff.1 (List.mem_filter.1 hv).2).1

/-- Nothing in a comment is outermost. -/
theorem filter_lineages_of_any {above : List ParseTree} (habove : above.any isComment = true)
    (t : ParseTree) : (t.lineages above).filter (fun v => v.2.isOutermostComment v.1) = [] := by
  induction t using child_induction generalizing above with
  | visit t ih =>
    have hbelow : (t :: above).any isComment = true := by
      rw [List.any_cons, habove, Bool.or_true]
    have hself : t.isOutermostComment above = false := by
      rw [isOutermostComment, habove, Bool.not_true, Bool.and_false]
    rw [lineages_eq, List.filter_cons_of_neg (by simp [hself]), List.filter_flatMap,
      List.flatMap_eq_nil_iff]
    exact fun c hc => ih c hc hbelow

/-- Outside of comments, a node is outermost if it is a comment, and otherwise the search goes on
below it. -/
theorem map_filter_lineages {above : List ParseTree} (habove : above.any isComment = false)
    (t : ParseTree) :
    ((t.lineages above).filter fun v => v.2.isOutermostComment v.1).map Prod.snd
      = if t.isComment then [t] else t.outermostComments := by
  induction t using child_induction generalizing above with
  | visit t ih =>
    have hself : t.isOutermostComment above = t.isComment := by
      rw [isOutermostComment, habove, Bool.not_false, Bool.and_true]
    cases hc : t.isComment with
    | true =>
      have hbelow : (t :: above).any isComment = true := by
        rw [List.any_cons, hc, Bool.true_or]
      have hnone : (t.children.flatMap (lineages (t :: above))).filter
          (fun v => v.2.isOutermostComment v.1) = [] := by
        rw [List.filter_flatMap, List.flatMap_eq_nil_iff]
        exact fun c _ => filter_lineages_of_any hbelow c
      rw [lineages_eq, List.filter_cons_of_pos (by simp [hself, hc]), hnone]
      rfl
    | false =>
      have hbelow : (t :: above).any isComment = false := by
        rw [List.any_cons, hc, habove, Bool.or_false]
      rw [lineages_eq, List.filter_cons_of_neg (by simp [hself, hc]), if_neg Bool.false_ne_true,
        outermostComments, lineagesBelow]
      simp only [List.filter_flatMap, List.map_flatMap]
      -- what is above a child makes no difference, as long as it holds no comment
      have hnothing : ([] : List ParseTree).any isComment = false := rfl
      exact List.flatMap_congr fun c hmem => (ih c hmem hbelow).trans (ih c hmem hnothing).symm

/-- The outermost comments are those among the children, and the outermost ones of the others. -/
theorem outermostComments_eq (t : ParseTree) :
    t.outermostComments
      = t.children.flatMap fun c => if c.isComment then [c] else c.outermostComments := by
  rw [outermostComments, lineagesBelow, List.filter_flatMap, List.map_flatMap]
  exact List.flatMap_congr fun c _ => map_filter_lineages rfl c

/-! ## What is collected -/

theorem commentsIn_eq (source : Bytes) (ts : List ParseTree) :
    commentsIn source ts = ts.flatMap fun t =>
      if t.isComment then [Comment.ofNode source t] else t.comments source := by
  induction ts with
  | nil => rfl
  | cons t ts ih => rw [commentsIn, ih, List.flatMap_cons]

theorem comments_eq (source : Bytes) (t : ParseTree) :
    t.comments source = t.children.flatMap fun c =>
      if c.isComment then [Comment.ofNode source c] else c.comments source := by
  obtain ⟨label, children⟩ := t
  rw [comments, commentsIn_eq]
  rfl

/-- The comments that are collected are the outermost ones, in preorder. -/
theorem comments_eq_map (source : Bytes) (t : ParseTree) :
    t.comments source = t.outermostComments.map (Comment.ofNode source) := by
  induction t using child_induction with
  | visit t ih =>
    rw [comments_eq, outermostComments_eq, List.map_flatMap]
    refine List.flatMap_congr fun c hc => ?_
    split
    next => rfl
    next => exact ih c hc

/-! ## Their order -/

/-- In a tree whose nodes lie properly in one another, comments follow one another. -/
theorem NestedThroughout.pairwise_outermostComments {t : ParseTree} (h : t.NestedThroughout) :
    t.outermostComments.Pairwise fun m n => m.stopByte ≤ n.startByte := by
  induction t using child_induction with
  | visit t ih =>
    have hmem : ∀ c : ParseTree, ∀ n ∈ (if c.isComment then [c] else c.outermostComments),
        n ∈ c.nodes := by
      intro c n hn
      split at hn
      next => exact List.mem_singleton.1 hn ▸ self_mem_nodes c
      next => exact mem_nodes_of_mem_outermostComments hn
    rw [outermostComments_eq, List.pairwise_flatMap]
    constructor
    · intro c hc
      split
      next => exact List.pairwise_singleton _ c
      next => exact ih c hc (h.of_child hc)
    · exact h.pairwise_children.imp fun hab m hm n hn => hab m (hmem _ m hm) n (hmem _ n hn)

/-- If no comment is empty, each starts in front of those that come after it. -/
theorem NestedThroughout.pairwise_comments {t : ParseTree} (h : t.NestedThroughout)
    (hsome : ∀ n ∈ t.nodes, n.isComment = true → n.startByte < n.stopByte) (source : Bytes) :
    (t.comments source).Pairwise fun c d => c.startByte < d.startByte := by
  rw [comments_eq_map, List.pairwise_map]
  refine h.pairwise_outermostComments.imp_of_mem fun {m n} hm _ hmn => ?_
  have hcomment := isComment_of_mem_outermostComments hm
  exact Nat.lt_of_lt_of_le (hsome m (mem_nodes_of_mem_outermostComments hm) hcomment) hmn

theorem inSourceOrder_eq_self {comments : List Comment}
    (h : comments.Pairwise fun c d => c.startByte < d.startByte) :
    inSourceOrder comments = comments :=
  List.mergeSort_of_pairwise (h.imp fun hlt => by simpa using Nat.le_of_lt hlt)

/-! ## Whether there is code -/

/-- A tree holds code exactly if its commented tree has children, whatever comments are put in. -/
theorem children_toAst_eq_nil_iff (source : Bytes) (m : CommentMap) (t : ParseTree) :
    (t.toAst source m).children = [] ↔ t.hasCode = false := by
  rw [children_toAst, List.map_eq_nil_iff, codeChildren, List.filter_eq_nil_iff, hasCode,
    List.any_eq_false]

/-- **What is handed on of an accepted tree.**  Its comments are, in preorder, the comment nodes
below the root that lie in no other comment below the root, each once and with its place.  If all
nodes lie properly in one another and no comment is empty, each of them starts in front of those
that come after it, so that a sort by place leaves them as they are.  The root is handed on exactly
if its commented tree has a child. -/
theorem accepted_with_all_comments {text origin : String} {root : ParseTree} {accepted : Accepted}
    (h : root.verdict text origin = .ok accepted) :
    (accepted.comments = root.outermostComments.map (Comment.ofNode (Utf8.ofString text)) ∧
        accepted.comments.map (·.span) = root.outermostComments.map span) ∧
      (root.NestedThroughout →
        (∀ n ∈ root.nodes, n.isComment = true → n.startByte < n.stopByte) →
        accepted.comments.Pairwise (fun c d => c.startByte < d.startByte) ∧
          inSourceOrder accepted.comments = accepted.comments) ∧
      ∀ source m, accepted.root
        = if (root.toAst source m).children = [] then none else some root := by
  obtain ⟨-, rfl⟩ := verdict_eq_ok_iff.1 h
  have hcomments := comments_eq_map (Utf8.ofString text) root
  refine ⟨⟨hcomments, ?_⟩, fun hnested hsome => ?_, fun source m => ?_⟩
  · rw [hcomments, List.map_map]
    rfl
  · have hsorted := hnested.pairwise_comments hsome (Utf8.ofString text)
    exact ⟨hsorted, inSourceOrder_eq_self hsorted⟩
  · simp only [children_toAst_eq_nil_iff]
    cases root.hasCode <;> rfl

/-- The small source comes with four comments, the first of them in front of its class, and with its
root. -/
theorem accepted_with_comments_sample :
    Sample.tree.verdict Sample.text "string" = .ok ⟨some Sample.tree, Sample.comments⟩ ∧
      Sample.comments.map (·.span.start) = [⟨0, 0⟩, ⟨1, 8⟩, ⟨2, 2⟩, ⟨3, 13⟩] ∧
      inSourceOrder Sample.comments = Sample.comments ∧
      (Sample.tree.toAst Sample.source (.ofLists [])).children ≠ [] := by
  have haccepted : Sample.tree.verdict Sample.text "string"
      = .ok ⟨some Sample.tree, Sample.comments⟩ := rfl
  obtain ⟨⟨-, hspans⟩, hsorted, hroot⟩ := accepted_with_all_comments haccepted
  refine ⟨haccepted, ?_, ?_, fun hnil => ?_⟩
  · have hmap := congrArg (List.map Span.start) hspans
    rw [List.map_map] at hmap
    exact hmap.trans (by decide)
  · exact (hsorted ⟨by decide, by decide, by decide⟩ (by decide)).2
  · have hnone := hroot Sample.source (.ofLists [])
    rw [if_pos hnil] at hnone
    cases hnone

end ParseTree
end RubySource
