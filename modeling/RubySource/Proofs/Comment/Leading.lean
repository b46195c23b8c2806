import RubySource.Proofs.Ast.OfParseTree
import RubySource.Proofs.Comment.Geometry

/-!
# The leading comment

The leading comment of a node is made of those of its comments that start on an earlier line.
Placing knows nothing of this: it asks for bytes, and it puts a comment on a node either when it
enters the node, which is the offer above the node, or later.  Under the conditions that make
placement sound, and if no node starts behind a comment on the row where the comment starts, the two
agree.

The reason is that whatever is placed later is in the node or beside its end, and so does not start
on an earlier row; and that before a node is entered nothing is placed on it.

## What is here

* `CommentMap.served` — what offers place; `get_served_append` parts it by the time.
* `exists_offers_entry` — before a node is entered, nothing is placed on it.
* `InTurn.of_append`, `refused_of_left` — who has been left has been refused.
* `row_lt_iff_stopByte_le` — earlier rows and earlier bytes agree.
* `PartedAtEntry` — the comments of a node in two parts, the one placed on it when it is entered and
  the other one later; `stopByte_le` and `not_stopByte_le` say which is which.
* `leadingComment_exact` — **the leading comment** is what is placed above a node.
-/

set_option autoImplicit false

namespace RubySource

/-! ## What has been placed so far -/

namespace CommentMap

/-- What offers place of a queue. -/
def served (excerpt : Excerpt) (offers : List Offer) (queue : List Comment) : CommentMap :=
  ⟨(Placement.serveAll excerpt offers queue).1⟩

variable {excerpt : Excerpt} {queue : List Comment}

/-- The comments of a node are those that the first offers place on it, and then those that the
others do. -/
theorem get_served_append (xs ys : List Offer) (node : Nat) :
    (served excerpt (xs ++ ys) queue).get node
      = (served excerpt xs queue).get node
        ++ (served excerpt ys (Placement.serveAll excerpt xs queue).2).get node := by
  simp only [served, get, Placement.serveAll_append, List.filter_append, List.map_append]

/-- The comments of a node waited, and were accepted by an offer that places on it. -/
theorem exists_offer_of_mem_served {offers : List Offer} {node : Nat} {c : Comment}
    (h : c ∈ (served excerpt offers queue).get node) :
    c ∈ queue ∧ ∃ o ∈ offers, o.target = node ∧ o.accepts excerpt c = true := by
  obtain ⟨p, hp, rfl⟩ := List.mem_map.1 h
  obtain ⟨hp, hnode⟩ := List.mem_filter.1 hp
  obtain ⟨o, ho, htarget, haccepts⟩ := Placement.exists_offer_of_mem_serveAll hp
  have hqueue : p.comment ∈ queue := by
    rw [← Placement.serveAll_comments excerpt offers queue]
    exact List.mem_append_left _ (List.mem_map_of_mem hp)
  exact ⟨hqueue, o, ho, htarget.symm.trans (by simpa using hnode), haccepts⟩

end CommentMap

namespace Placement

variable {excerpt : Excerpt} {queue : List Comment}

/-- Who is in turn is in turn for the first offers. -/
theorem InTurn.of_append {xs ys : List Offer} (h : InTurn excerpt (xs ++ ys) queue) :
    InTurn excerpt xs queue := by
  refine h.imp fun {c d} hle => ?_
  have hc : Offer.turn excerpt xs c ≤ xs.length := Offer.turn_le_length xs
  have hd : Offer.turn excerpt xs d ≤ xs.length := Offer.turn_le_length xs
  rw [Offer.turn_append, Offer.turn_append] at hle
  split at hle <;> split at hle <;> omega

/-- Where everybody is in turn, who is left has been refused by all. -/
theorem refused_of_left {offers : List Offer} (h : InTurn excerpt offers queue) {c : Comment}
    (hc : c ∈ (serveAll excerpt offers queue).2) {o : Offer} (ho : o ∈ offers) :
    o.accepts excerpt c = false := by
  rw [serveAll_of_inTurn h, List.mem_filter, Bool.not_eq_true', List.any_eq_false] at hc
  exact Bool.eq_false_iff.2 (hc.2 o ho)

end Placement

namespace ParseTree

/-! ## Entering a node -/

/-- The visit of a sibling places nothing on a node: it places on nodes of its own, or on the
parent. -/
theorem target_ne_of_sibling {s t c n : ParseTree} {o : Offer} (hself : t.id ≠ n.id)
    (hapart : List.Disjoint (s.codeNodes.map id) (c.codeNodes.map id)) (hn : n ∈ c.codeNodes)
    (ho : o ∈ s.offers (some t)) : o.target ≠ n.id := by
  rcases exists_target ho with ⟨m, hm, htarget⟩ | ⟨q, hq, htarget⟩
  · rw [htarget]
    intro he
    exact hapart (List.mem_map_of_mem hm) (he ▸ List.mem_map_of_mem hn)
  · cases hq
    rwa [htarget]

/-- **Before a node is entered nothing is placed on it.** -/
theorem exists_offers_entry {t n : ParseTree} (parent : Option ParseTree)
    (hids : (t.codeNodes.map id).Nodup) (hn : n ∈ t.codeNodes) :
    ∃ before later, t.offers parent = before ++ .above n :: later ∧
      ∀ o ∈ before, o.target ≠ n.id := by
  induction t using code_induction generalizing parent with
  | visit t ih =>
    rcases mem_codeNodes_iff.1 hn with rfl | ⟨c, hc, hn⟩
    · refine ⟨[], n.codeChildren.flatMap (offers (some n)) ++ [.inside n, .beside parent n], ?_, ?_⟩
      · rw [offers_eq, approach]
        rfl
      · exact fun o ho => absurd ho List.not_mem_nil
    · obtain ⟨before, later, hsplit, hbefore⟩ := ih c hc (some t) (nodup_ids_of_child hids hc) hn
      obtain ⟨xs, ys, hchildren⟩ := List.append_of_mem hc
      refine ⟨.above t :: xs.flatMap (offers (some t)) ++ before,
        later ++ ys.flatMap (offers (some t)) ++ [.inside t, .beside parent t], ?_, ?_⟩
      · rw [offers_eq, approach, hchildren, List.flatMap_append, List.flatMap_cons, hsplit]
        simp
      · have hself : t.id ≠ n.id := (id_ne_of_mem_child hids hc hn).symm
        have hdisjoint := (nodup_ids_below hids).2
        rw [hchildren] at hdisjoint
        intro o ho
        rcases List.mem_append.1 ho with hfront | hbelow
        · rcases List.mem_cons.1 hfront with rfl | hsibling
          · exact hself
          · obtain ⟨s, hs, ho⟩ := List.mem_flatMap.1 hsibling
            have hapart := (List.pairwise_append.1 hdisjoint).2.2 s hs c (List.mem_cons_self ..)
            exact target_ne_of_sibling hself hapart hn ho
        · exact hbefore o hbelow

section Placed

variable {source : Bytes} {root n : ParseTree} {comments : List Comment} {c : Comment}

theorem Laid.inTurn (h : root.Laid source comments) :
    Placement.InTurn ⟨root.text source, root.startByte⟩ (root.offers none) (waiting comments) :=
  inTurn_of_tidy h.tidy none (fun _ hn => h.wellNested.start_le_stop hn)
    fun n hn c hc => (h.uncut n hn c hc).2

/-- A comment of a node is above it, or starts in it or behind it. -/
theorem standsAbove_or_startByte_le (hids : (root.nodes.map id).Nodup)
    (h : root.Laid source comments) (hfilled : root.WrappersFilled) (hn : n ∈ root.codeNodes)
    (hc : c ∈ (associate source none root comments).get n.id) :
    c ∈ comments ∧ (StandsAbove root n c ∨ n.startByte ≤ c.startByte) := by
  obtain ⟨hmem, o, htarget, ho⟩ := exists_first?_of_mem_get h.inTurn hc
  obtain ⟨m, hm, he, hstands⟩ := stands_of_first? h hfilled hmem ho
  obtain rfl : m = n := eq_of_id_eq (nodup_codeNodes_ids hids) hm hn (he.symm.trans htarget)
  refine ⟨hmem, ?_⟩
  rcases hstands with habove | ⟨hstart, -⟩ | ⟨hbehind, -⟩
  · exact Or.inl habove
  · exact Or.inr hstart
  · exact Or.inr (Nat.le_trans (h.wellNested.forward m hm) hbehind)

/-- **Earlier rows and earlier bytes agree** for the comments of a node, as long as no node starts
behind a comment on the row on which the comment starts. -/
theorem row_lt_iff_stopByte_le (hids : (root.nodes.map id).Nodup) (h : root.Laid source comments)
    (hfilled : root.WrappersFilled)
    (hrows : ∀ n ∈ root.codeNodes, ∀ c ∈ comments,
      c.stopByte ≤ n.startByte → c.span.start.row < n.span.start.row)
    (hn : n ∈ root.codeNodes) (hc : c ∈ (associate source none root comments).get n.id) :
    c.span.start.row < n.span.start.row ↔ c.stopByte ≤ n.startByte := by
  obtain ⟨hmem, habove | hstart⟩ := standsAbove_or_startByte_le hids h hfilled hn hc
  · exact iff_of_true (hrows n hn c hmem habove.1) habove.1
  · have hrow := h.rows _ (node_start_mem_ends hn) _ (start_mem_ends hmem) hstart
    have hsize := h.tidy.nonempty c hmem
    exact iff_of_false (Nat.not_lt.2 hrow) (by omega)

/-- The comments of a node of a walk in two parts: what has been placed on it once the walk has
entered it, which is when it makes its offer to comments above, and what is placed later.  Nothing
is placed on it before. -/
def PartedAtEntry (source : Bytes) (root n : ParseTree) (comments above after : List Comment) :
    Prop :=
  ∃ before later, root.offers none = before ++ .above n :: later ∧
    (∀ o ∈ before, o.target ≠ n.id) ∧
    (CommentMap.served ⟨root.text source, root.startByte⟩ (before ++ [.above n])
      (waiting comments)).get n.id = above ∧
    (CommentMap.served ⟨root.text source, root.startByte⟩ later
      (Placement.serveAll ⟨root.text source, root.startByte⟩ (before ++ [.above n])
        (waiting comments)).2).get n.id = after

theorem exists_partedAtEntry (source : Bytes) (comments : List Comment)
    (hids : (root.nodes.map id).Nodup) (hn : n ∈ root.codeNodes) :
    ∃ above after, PartedAtEntry source root n comments above after := by
  obtain ⟨before, later, hsplit, hbefore⟩ :=
    exists_offers_entry none (nodup_codeNodes_ids hids) hn
  exact ⟨_, _, before, later, hsplit, hbefore, rfl, rfl⟩

namespace PartedAtEntry

variable {above after : List Comment}

/-- The two parts make up the comments of the node. -/
theorem get_associate (h : PartedAtEntry source root n comments above after) :
    (associate source none root comments).get n.id = above ++ after := by
  obtain ⟨before, later, hsplit, -, rfl, rfl⟩ := h
  rw [← CommentMap.get_served_append, List.append_assoc, List.singleton_append, ← hsplit]
  rfl

/-- What is placed on entering a node ends before it. -/
theorem stopByte_le (h : PartedAtEntry source root n comments above after) (hc : c ∈ above) :
    c.stopByte ≤ n.startByte := by
  obtain ⟨before, later, -, hbefore, rfl, -⟩ := h
  obtain ⟨-, o, ho, htarget, haccepts⟩ := CommentMap.exists_offer_of_mem_served hc
  rcases List.mem_append.1 ho with ho | ho
  · exact absurd htarget (hbefore o ho)
  · obtain rfl := List.mem_singleton.1 ho
    rw [Offer.accepts, Bool.and_eq_true, decide_eq_true_eq] at haccepts
    exact haccepts.2

/-- What is placed later does not. -/
theorem not_stopByte_le (h : PartedAtEntry source root n comments above after)
    (hids : (root.nodes.map id).Nodup) (hlaid : root.Laid source comments)
    (hfilled : root.WrappersFilled) (hn : n ∈ root.codeNodes) (hc : c ∈ after) :
    ¬ c.stopByte ≤ n.startByte := by
  intro hstop
  have hplaced : c ∈ (associate source none root comments).get n.id := by
    rw [h.get_associate]
    exact List.mem_append_right _ hc
  obtain ⟨hmem, habove | hstart⟩ := standsAbove_or_startByte_le hids hlaid hfilled hn hplaced
  · -- the offer above the node would have taken it, and yet it has been left
    obtain ⟨before, later, hsplit, -, -, rfl⟩ := h
    obtain ⟨hleft, -⟩ := CommentMap.exists_offer_of_mem_served hc
    have hturn := hlaid.inTurn
    rw [hsplit, List.append_cons] at hturn
    have hrefused := Placement.refused_of_left hturn.of_append hleft
      (List.mem_append_right before (List.mem_singleton_self (Offer.above n)))
    simp [Offer.accepts, habove.2.1, hstop] at hrefused
  · have hsize := hlaid.tidy.nonempty c hmem
    omega

end PartedAtEntry

end Placed

theorem line_toAst (source : Bytes) (comments : CommentMap) (t : ParseTree) :
    (t.toAst source comments).line = t.span.start.row + 1 := by
  rw [toAst_eq]
  rfl

end ParseTree

/-! ## The leading comment -/

open ParseTree

/-- A condition that tells two parts of a list apart selects the first. -/
theorem filter_append_eq_left {α : Type} {p : α → Bool} {xs ys : List α}
    (hxs : ∀ x ∈ xs, p x = true) (hys : ∀ y ∈ ys, ¬ p y = true) : (xs ++ ys).filter p = xs := by
  rw [List.filter_append, List.filter_eq_self.2 hxs, List.filter_eq_nil_iff.2 hys, List.append_nil]

/-- **The leading comment is what is placed above the node.**  Take a tree and comments for which
placement is sound, and let no node start behind a comment on the row on which the comment starts.
The comments of any node of the commented tree are those placed on it when it is entered, followed
by those placed on it later; the former are exactly those that end before it starts.  The leading
comment joins the texts of the former, and the full comment those of all. -/
theorem leadingComment_exact {source : Bytes} {root : ParseTree} {comments : List Comment}
    (hids : (root.nodes.map ParseTree.id).Nodup) (h : root.Laid source comments)
    (hfilled : root.WrappersFilled)
    (hrows : ∀ n ∈ root.codeNodes, ∀ c ∈ comments,
      c.stopByte ≤ n.startByte → c.span.start.row < n.span.start.row)
    {p : Ast.Address} {a : Ast}
    (ha : (root.toAst source (associate source none root comments)).at? p = some a) :
    ∃ n above after, root.codeAt? p = some n ∧
      PartedAtEntry source root n comments above after ∧
      a.comments = above ++ after ∧
      (∀ c ∈ above, c.stopByte ≤ n.startByte) ∧ (∀ c ∈ after, ¬ c.stopByte ≤ n.startByte) ∧
      a.leadingComment = Ast.joinLines (above.map (·.text)) ∧
      a.fullComment = Ast.joinLines ((above ++ after).map (·.text)) := by
  rw [at?_toAst, Option.map_eq_some_iff] at ha
  obtain ⟨n, hat, rfl⟩ := ha
  have hn := mem_codeNodes_of_codeAt? hat
  obtain ⟨above, after, hparted⟩ := exists_partedAtEntry source comments hids hn
  have hget := hparted.get_associate
  have habove : ∀ c ∈ above, c.stopByte ≤ n.startByte := fun c hc => hparted.stopByte_le hc
  have hafter : ∀ c ∈ after, ¬ c.stopByte ≤ n.startByte := fun c hc =>
    hparted.not_stopByte_le hids h hfilled hn hc
  have hcomments : (n.toAst source (associate source none root comments)).comments
      = above ++ after := by
    rw [comments_toAst, hget]
  have hearlier : ∀ c ∈ above ++ after,
      decide (c.line < (n.toAst source (associate source none root comments)).line) = true
        ↔ c.stopByte ≤ n.startByte := by
    intro c hc
    rw [← row_lt_iff_stopByte_le hids h hfilled hrows hn (hget ▸ hc), line_toAst, Comment.line,
      decide_eq_true_eq, Nat.add_lt_add_iff_right]
  refine ⟨n, above, after, hat, hparted, hcomments, habove, hafter, ?_, ?_⟩
  · rw [Ast.leadingComment, hcomments, filter_append_eq_left]
    · exact fun c hc => (hearlier c (List.mem_append_left _ hc)).2 (habove c hc)
    · exact fun c hc hline => hafter c hc ((hearlier c (List.mem_append_right _ hc)).1 hline)
  · rw [Ast.fullComment, hcomments]

/-- In the small source the method has a comment above it and another one beside its end. -/
theorem leadingComment_sample :
    (Sample.tree.nodes.map ParseTree.id).Nodup ∧ Sample.tree.Laid Sample.source Sample.comments ∧
      Sample.tree.WrappersFilled ∧
      (∀ n ∈ Sample.tree.codeNodes, ∀ c ∈ Sample.comments,
        c.stopByte ≤ n.startByte → c.span.start.row < n.span.start.row) ∧
      ∃ a, (Sample.tree.toAst Sample.source
          (associate Sample.source none Sample.tree Sample.comments)).at?
            [.child 0, .child 1, .child 0] = some a ∧
        a.leadingComment = "# b" ∧ a.fullComment = "# b\n# c" := by
  have hids : (Sample.tree.nodes.map ParseTree.id).Nodup := by decide
  have hfilled : Sample.tree.WrappersFilled := by decide
  have hrows : ∀ n ∈ Sample.tree.codeNodes, ∀ c ∈ Sample.comments,
      c.stopByte ≤ n.startByte → c.span.start.row < n.span.start.row := by decide
  have hat : Sample.tree.codeAt? [.child 0, .child 1, .child 0] = some Sample.method := rfl
  have hast : (Sample.tree.toAst Sample.source
      (associate Sample.source none Sample.tree Sample.comments)).at?
        [.child 0, .child 1, .child 0]
      = some (Sample.method.toAst Sample.source
          (associate Sample.source none Sample.tree Sample.comments)) := by
    rw [at?_toAst, hat, Option.map_some]
  obtain ⟨n, above, after, hn, -, hcomments, habove, hafter, hleading, hfull⟩ :=
    leadingComment_exact hids Sample.laid hfilled hrows hast
  obtain rfl : Sample.method = n := Option.some_inj.1 (hat.symm.trans hn)
  rw [comments_toAst, Sample.get_method] at hcomments
  have hfirst : [Sample.above, Sample.beside].filter
      (fun c => c.stopByte ≤ Sample.method.startByte) = above := by
    rw [hcomments, filter_append_eq_left]
    · exact fun c hc => decide_eq_true (habove c hc)
    · exact fun c hc hle => hafter c hc (of_decide_eq_true hle)
  refine ⟨hids, Sample.laid, hfilled, hrows, _, hast, ?_, ?_⟩
  · rw [hleading, ← hfirst]
    decide
  · rw [hfull, ← hcomments]
    decide

end RubySource
