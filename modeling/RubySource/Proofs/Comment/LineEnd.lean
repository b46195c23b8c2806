import RubySource.Proofs.Comment.Geometry
import RubySource.Proofs.ParseTree.Lineage

/-!
# Comments at the end of a line

Several nodes may end where a line of code ends, one within the other, and a comment behind them is
beside all of them.  It belongs to the outermost one, or to the definition in whose header that
stands.  To see that it gets there one has to go through everything that is offered before: to
comments above the node and the nodes before it, inside them, and beside their ends.

## What is here

* `Offer.IsBefore` — the offers that may be made before the one beside the end of a node, by the
  places of the nodes that make them; `exists_offers_split` says that no others are.
* `ClosesLine` — a node whose end nothing else competes for.
* `first?_of_closesLine` — the first offer to a comment behind such a node is the one beside it.
* `owner_eq_parent`, `owner_eq_self` — which node that offer is made for.
* `placed_at_line_end` — **a comment at the end of a line goes to the outermost node that ends
  there**, or to the definition in whose header that node stands, and to no node inside.
-/

set_option autoImplicit false

namespace RubySource
namespace ParseTree

/-! ## Nodes and their parts -/

/-- A walk visits the node that it starts from, and what the walks from its code children visit. -/
theorem IsVisit.start_or_below {parent p : Option ParseTree} {t n : ParseTree}
    (h : IsVisit parent t p n) :
    (p = parent ∧ n = t) ∨ ∃ c ∈ t.codeChildren, IsVisit (some t) c p n := by
  rcases h with hstart | ⟨q, hq, rfl, hn⟩
  · exact Or.inl hstart
  · rcases mem_codeNodes_iff.1 hq with rfl | ⟨c, hc, hq⟩
    · exact Or.inr ⟨n, hn, IsVisit.start _ n⟩
    · exact Or.inr ⟨c, hc, Or.inr ⟨q, hq, rfl, hn⟩⟩

end ParseTree

open ParseTree

/-! ## What is offered before -/

/-- Offers that may be made before the one beside the end of a node: above a node that starts no
later than it ends, inside a node that ends no later, and beside a node that ends before it starts
or lies within it. -/
def Offer.IsBefore (n : ParseTree) : Offer → Prop
  | .above m => m.startByte ≤ n.stopByte
  | .inside m => m.stopByte ≤ n.stopByte
  | .beside q m => m.stopByte ≤ n.startByte ∨ ∃ d ∈ n.codeNodes, q = some d ∧ m ∈ d.codeChildren

namespace ParseTree

/-- What the parts of a node offer is offered before the end of the node. -/
theorem isBefore_of_part {t c : ParseTree} (h : t.WellNested) (hc : c ∈ t.codeChildren) {o : Offer}
    (ho : o ∈ c.offers (some t)) : o.IsBefore t := by
  obtain ⟨q, m, hvisit, ho⟩ := mem_offers_iff.1 ho
  have hm := mem_codeNodes_of_child hc hvisit.mem_codeNodes
  have hstop := (h.within hm).2
  rcases ho with rfl | rfl | rfl
  · exact Nat.le_trans (h.forward m hm) hstop
  · exact hstop
  · refine Or.inr ?_
    rcases hvisit with ⟨rfl, rfl⟩ | ⟨d, hd, rfl, hmd⟩
    · exact ⟨t, self_mem_codeNodes t, rfl, hc⟩
    · exact ⟨d, mem_codeNodes_of_child hc hd, rfl, hmd⟩

/-- What a node offers is offered before the end of any node that starts behind it. -/
theorem isBefore_of_apart {s n : ParseTree} {parent : Option ParseTree} (h : s.WellNested)
    (hn : n.startByte ≤ n.stopByte) (hapart : s.stopByte ≤ n.startByte) {o : Offer}
    (ho : o ∈ s.offers parent) : o.IsBefore n := by
  obtain ⟨q, m, hvisit, ho⟩ := mem_offers_iff.1 ho
  have hstop := (h.within hvisit.mem_codeNodes).2
  have hforward := h.forward m hvisit.mem_codeNodes
  rcases ho with rfl | rfl | rfl
  · show m.startByte ≤ n.stopByte
    omega
  · show m.stopByte ≤ n.stopByte
    omega
  · exact Or.inl (Nat.le_trans hstop hapart)

/-- **What is offered before.**  The walk makes the offer beside the end of each node it visits, and
nothing but what may come before it does. -/
theorem exists_offers_split {parent p : Option ParseTree} {t n : ParseTree} (h : t.WellNested)
    (hn : IsVisit parent t p n) :
    ∃ before after, t.offers parent = before ++ .beside p n :: after ∧
      ∀ o ∈ before, o.IsBefore n := by
  induction t using code_induction generalizing parent with
  | visit t ih =>
    have hforward := h.forward n hn.mem_codeNodes
    have hstart := h.start_le_stop hn.mem_codeNodes
    rcases hn.start_or_below with ⟨rfl, rfl⟩ | ⟨c, hc, hn⟩
    · refine ⟨n.approach ++ [.inside n], [], by simp [offers_eq], fun o ho => ?_⟩
      rcases List.mem_append.1 ho with happroach | hinside
      · rcases List.mem_cons.1 happroach with rfl | hpart
        · exact hforward
        · obtain ⟨c, hc, ho⟩ := List.mem_flatMap.1 hpart
          exact isBefore_of_part h hc ho
      · obtain rfl := List.mem_singleton.1 hinside
        exact Nat.le_refl n.stopByte
    · have hchild {s : ParseTree} (hs : s ∈ t.codeChildren) : s.WellNested :=
        h.of_mem (mem_codeNodes_of_child hs (self_mem_codeNodes s))
      obtain ⟨before, after, hsplit, hbefore⟩ := ih c hc (hchild hc) hn
      obtain ⟨xs, ys, hchildren⟩ := List.append_of_mem hc
      refine ⟨.above t :: xs.flatMap (offers (some t)) ++ before,
        after ++ ys.flatMap (offers (some t)) ++ [.inside t, .beside parent t], ?_, ?_⟩
      · rw [offers_eq, approach, hchildren, List.flatMap_append, List.flatMap_cons, hsplit]
        simp
      · intro o ho
        rcases List.mem_append.1 ho with hfront | hbelow
        · rcases List.mem_cons.1 hfront with rfl | hsibling
          · exact hstart
          · obtain ⟨s, hs, ho⟩ := List.mem_flatMap.1 hsibling
            have hschild : s ∈ t.codeChildren := by
              rw [hchildren]
              exact List.mem_append_left _ hs
            have hordered := h.ordered t (self_mem_codeNodes t)
            rw [hchildren] at hordered
            have hsc := (List.pairwise_append.1 hordered).2.2 s hs c (List.mem_cons_self ..)
            have hcn := ((hchild hc).within hn.mem_codeNodes).1
            exact isBefore_of_apart (hchild hschild) hforward (Nat.le_trans hsc hcn) ho
        · exact hbefore o hbelow

/-! ## The end of a line -/

/-- A visited node whose end nothing else competes for. -/
structure ClosesLine (source : Bytes) (root : ParseTree) (p : Option ParseTree) (n : ParseTree) :
    Prop where
  /-- The node is not empty. -/
  solid : n.startByte < n.stopByte
  /-- Its parent, if it has one, is a wrapper or ends elsewhere. -/
  outermost : ∀ q, p = some q → q.isWrapper = true ∨ q.stopByte ≠ n.stopByte
  /-- No part of it that ends with it stands in a wrapper. -/
  unwrapped : ∀ q ∈ n.codeNodes, q.isWrapper = true → ∀ m ∈ q.codeChildren,
    m.stopByte ≠ n.stopByte
  /-- No node that ends before it is separated from its end by blanks only. -/
  alone : ∀ m ∈ root.codeNodes, m.stopByte < n.stopByte →
    Text.allBlank (Bytes.slice source m.stopByte n.stopByte) = false

theorem ClosesLine.endsOutermost {source : Bytes} {root n : ParseTree} {p : Option ParseTree}
    (h : ClosesLine source root p n) : n.endsOutermost p = true := by
  cases p with
  | none => rfl
  | some q => simpa [ParseTree.endsOutermost] using h.outermost q rfl

section AtLineEnd

variable {source : Bytes} {root n : ParseTree} {comments : List Comment} {p : Option ParseTree}
  {c : Comment}

/-- Within the tree, standing beside a node is what the offer there asks for. -/
theorem isBeside_iff (h : root.Laid source comments) {m : ParseTree} (hm : m ∈ root.codeNodes)
    (hc : c ∈ comments) :
    m.isBeside ⟨root.text source, root.startByte⟩ c = true ↔
      c.span.start.row = m.span.stop.row ∧
        Text.allBlank (Bytes.slice source m.stopByte c.startByte) = true := by
  have hwithin := h.tidy.within c hc
  have hgap := Excerpt.between_of_le source (h.wellNested.start_le_stop hm) hwithin.1
    (Nat.le_trans (Nat.le_of_lt (h.tidy.nonempty c hc)) hwithin.2)
  rw [isBeside, hgap, Bool.and_eq_true, beq_iff_eq]

/-- Nothing that is offered before the end of such a node is accepted by a comment behind it. -/
theorem refuses_of_isBefore (h : root.Laid source comments) (hn : n ∈ root.codeNodes)
    (hend : ClosesLine source root p n) (hc : c ∈ comments) (hbeside : StandsBeside source n c)
    {o : Offer} (ho : o ∈ root.offers none) (hbefore : o.IsBefore n) :
    o.accepts ⟨root.text source, root.startByte⟩ c = false := by
  have hsize := h.tidy.nonempty c hc
  have hbehind := hbeside.1
  obtain ⟨q, m, hvisit, rfl | rfl | rfl⟩ := mem_offers_iff.1 ho
  · have hstart : m.startByte ≤ n.stopByte := hbefore
    have hnot : ¬ c.stopByte ≤ m.startByte := by omega
    simp [Offer.accepts, hnot]
  · have hstop : m.stopByte ≤ n.stopByte := hbefore
    have hnot : ¬ c.stopByte ≤ m.stopByte := by omega
    simp [Offer.accepts, hnot]
  · rw [Bool.eq_false_iff]
    intro haccepts
    rw [Offer.accepts, Bool.and_eq_true, isBeside_iff h hvisit.mem_codeNodes hc] at haccepts
    obtain ⟨houter, -, hblank⟩ := haccepts
    have hsolid := hend.solid
    by_cases hstop : m.stopByte < n.stopByte
    · -- the comment is beside `m` as well, but something visible comes in between
      have hvisible := hend.alone m hvisit.mem_codeNodes hstop
      rw [Bytes.allBlank_slice source (Nat.le_refl _) hbehind hblank] at hvisible
      cases hvisible
    · -- so `m` is a part of the node that ends with it, and its parent does, too
      rcases hbefore with hapart | ⟨d, hd, rfl, hmd⟩
      · omega
      · have hmstop := (h.wellNested.nested d (mem_codeNodes_trans hn hd) m hmd).2
        have hdstop := ((h.wellNested.of_mem hn).within hd).2
        have hwrapper : d.isWrapper = false := by
          rw [Bool.eq_false_iff]
          exact fun hw => hend.unwrapped d hd hw m hmd (by omega)
        have hsame : d.stopByte = m.stopByte := by omega
        simp [endsOutermost, hwrapper, hsame] at houter

/-- **The offer beside such a node is the first one** that a comment behind it accepts. -/
theorem first?_of_closesLine (h : root.Laid source comments) (hn : IsVisit none root p n)
    (hend : ClosesLine source root p n) (hc : c ∈ comments) (hbeside : StandsBeside source n c) :
    Offer.first? ⟨root.text source, root.startByte⟩ (root.offers none) c
      = some (.beside p n) := by
  obtain ⟨before, after, hsplit, hbefore⟩ := exists_offers_split h.wellNested hn
  have hrefused : before.find? (·.accepts ⟨root.text source, root.startByte⟩ c) = none := by
    rw [List.find?_eq_none]
    intro o ho
    have hmem : o ∈ root.offers none := by
      rw [hsplit]
      exact List.mem_append_left _ ho
    rw [refuses_of_isBefore h hn.mem_codeNodes hend hc hbeside hmem (hbefore o ho)]
    exact Bool.false_ne_true
  have haccepted :
      (Offer.beside p n).accepts ⟨root.text source, root.startByte⟩ c = true := by
    rw [Offer.accepts, Bool.and_eq_true]
    exact ⟨hend.endsOutermost, (isBeside_iff h hn.mem_codeNodes hc).2 hbeside.2⟩
  rw [Offer.first?, hsplit, List.find?_append, hrefused, List.find?_cons, haccepted]
  rfl

end AtLineEnd

/-! ## For whom it is made -/

/-- A child of a node of the tree is a node of the tree. -/
theorem child_mem_nodes {t n m : ParseTree} (hn : n ∈ t.nodes) (hm : m ∈ n.children) :
    m ∈ t.nodes := by
  induction t using child_induction with
  | visit t ih =>
    rcases mem_nodes_iff.1 hn with rfl | ⟨c, hc, hn⟩
    · exact mem_nodes_of_child hm (self_mem_nodes m)
    · exact mem_nodes_of_child hc (ih c hc hn)

section Owner

variable {root q n : ParseTree}

/-- Where nodes have identities of their own, the body of a definition is told by its identity. -/
theorem body_eq_iff (hids : (root.nodes.map id).Nodup) (hq : q ∈ root.codeNodes)
    (hn : n ∈ q.codeChildren) {body : ParseTree} (hbody : q.childInField? "body" = some body) :
    body.id = n.id ↔ body = n := by
  have hnodes := (codeNodes_sublist_nodes root).subset hq
  have hbodyNode := child_mem_nodes hnodes (List.mem_of_find?_eq_some hbody)
  have hnNode := child_mem_nodes hnodes (List.mem_of_mem_filter hn)
  exact ⟨fun he => List.inj_on_of_nodup_map hids hbodyNode hnNode he, congrArg id⟩

/-- A node in the header of a definition speaks for the definition. -/
theorem owner_eq_parent (hids : (root.nodes.map id).Nodup) (hq : q ∈ root.codeNodes)
    (hn : n ∈ q.codeChildren) (hdef : q.isDefinition = true)
    (hheader : q.childInField? "body" ≠ some n) : n.owner (some q) = q := by
  rw [owner, if_pos hdef]
  cases hbody : q.childInField? "body" with
  | none => rfl
  | some body =>
    have hne : ¬ body.id = n.id := by
      rw [body_eq_iff hids hq hn hbody]
      rintro rfl
      exact hheader hbody
    exact if_neg hne

/-- Any other node speaks for itself. -/
theorem owner_eq_self {p : Option ParseTree}
    (h : ∀ q, p = some q → q.isDefinition = true → q.childInField? "body" = some n) :
    n.owner p = n := by
  cases p with
  | none => rfl
  | some q =>
    by_cases hdef : q.isDefinition = true
    · rw [owner, if_pos hdef, h q rfl hdef]
      exact if_pos rfl
    · rw [owner, if_neg hdef]

/-- Whoever a node speaks for, it is nothing within the node. -/
theorem owner_id_ne (hids : (root.codeNodes.map id).Nodup) {p : Option ParseTree}
    (hn : IsVisit none root p n) {m : ParseTree} (hm : m ∈ n.codeNodes) (hne : m ≠ n) :
    m.id ≠ (n.owner p).id := by
  intro he
  rcases owner_cases p n with hself | ⟨q, rfl, -, hparent⟩
  · rw [hself] at he
    have hmem := hn.mem_codeNodes
    exact hne (eq_of_id_eq hids (mem_codeNodes_trans hmem hm) hmem he)
  · rw [hparent] at he
    rcases hn with ⟨hq, -⟩ | ⟨q', hq, hqq, hnq⟩
    · cases hq
    · cases hqq
      exact id_ne_of_mem_child (nodup_ids_of_mem hids hq) hnq hm he

end Owner

end ParseTree

/-- **A comment at the end of a line goes to the outermost node that ends there.**  Take a tree and
comments that lie properly, a visited node whose end nothing else competes for, and a comment beside
it that is no directive.  The comment is placed once: on the parent of the node if that is a
definition and the node is not its body, and otherwise on the node itself.  Nothing within the node
gets it. -/
theorem placed_at_line_end {source : Bytes} {root n : ParseTree} {comments : List Comment}
    {p : Option ParseTree} {c : Comment} (hids : (root.nodes.map ParseTree.id).Nodup)
    (h : root.Laid source comments) (hn : IsVisit none root p n)
    (hend : ClosesLine source root p n) (hc : c ∈ waiting comments)
    (hbeside : StandsBeside source n c) :
    (∀ q, p = some q → q.isDefinition = true → q.childInField? "body" ≠ some n →
      ∀ node, c ∈ (associate source none root comments).get node ↔ node = q.id) ∧
    ((∀ q, p = some q → q.isDefinition = true → q.childInField? "body" = some n) →
      ∀ node, c ∈ (associate source none root comments).get node ↔ node = n.id) ∧
    ∀ m ∈ n.codeNodes, m ≠ n → c ∉ (associate source none root comments).get m.id := by
  have hturn := inTurn_of_tidy h.tidy none (fun n hn => h.wellNested.start_le_stop hn)
    fun n hn c hc => (h.uncut n hn c hc).2
  have hplaced : ∀ node,
      c ∈ (associate source none root comments).get node ↔ node = (n.owner p).id := by
    intro node
    rw [associate_of_inTurn hturn, CommentMap.get_byFirst?, List.mem_filter,
      first?_of_closesLine h hn hend (mem_of_mem_waiting hc) hbeside, Option.map_some, beq_iff_eq,
      Option.some_inj]
    exact ⟨fun hnode => hnode.2.symm, fun hnode => ⟨hc, hnode.symm⟩⟩
  refine ⟨?_, ?_, ?_⟩
  · rintro q rfl hdef hheader node
    rcases hn with ⟨hq, -⟩ | ⟨q', hq, hqq, hnq⟩
    · cases hq
    · cases hqq
      rw [hplaced, owner_eq_parent hids hq hnq hdef hheader]
  · intro hbody node
    rw [hplaced, owner_eq_self hbody]
  · intro m hm hne
    rw [hplaced]
    exact owner_id_ne (nodup_codeNodes_ids hids) hn hm hne

namespace Sample

/-- The class of the small source. -/
def outer : ParseTree := tree.codeChildren.head (by decide)

/-- The name of the class. -/
def name : ParseTree := outer.codeChildren.head (by decide)

/-- The body of the class. -/
def body : ParseTree := outer.codeChildren.getLast (by decide)

theorem outer_mem : outer ∈ tree.codeNodes :=
  codeChild_mem_codeNodes (self_mem_codeNodes tree) (List.head_mem _)

theorem visit_name : IsVisit none tree (some outer) name :=
  Or.inr ⟨outer, outer_mem, rfl, List.head_mem _⟩

theorem visit_method : IsVisit none tree (some body) method :=
  Or.inr ⟨body, codeChild_mem_codeNodes outer_mem (List.getLast_mem _), rfl, List.mem_cons_self ..⟩

end Sample

/-- In the small source the comment behind the name of the class goes to the class, and the one
behind the method to the method. -/
theorem placed_at_line_end_sample :
    (ClosesLine Sample.source Sample.tree (some Sample.outer) Sample.name ∧
      Sample.header ∈ waiting Sample.comments ∧
      StandsBeside Sample.source Sample.name Sample.header ∧
      ∀ node, Sample.header ∈ (associate Sample.source none Sample.tree Sample.comments).get node
        ↔ node = Sample.outer.id) ∧
    ClosesLine Sample.source Sample.tree (some Sample.body) Sample.method ∧
      Sample.beside ∈ waiting Sample.comments ∧
      StandsBeside Sample.source Sample.method Sample.beside ∧
      ∀ node, Sample.beside ∈ (associate Sample.source none Sample.tree Sample.comments).get node
        ↔ node = Sample.method.id := by
  have hname : ClosesLine Sample.source Sample.tree (some Sample.outer) Sample.name := by
    refine ⟨by decide, ?_, by decide, by decide⟩
    rintro q ⟨⟩
    exact Or.inr (by decide)
  have hmethod : ClosesLine Sample.source Sample.tree (some Sample.body) Sample.method := by
    refine ⟨by decide, ?_, by decide, by decide⟩
    rintro q ⟨⟩
    exact Or.inl (by decide)
  have hheader : Sample.header ∈ waiting Sample.comments := by
    rw [Sample.waiting_comments]
    decide
  have hbeside : Sample.beside ∈ waiting Sample.comments := by
    rw [Sample.waiting_comments]
    decide
  have hrow : StandsBeside Sample.source Sample.name Sample.header :=
    ⟨by decide, by decide, by decide⟩
  have hrow' : StandsBeside Sample.source Sample.method Sample.beside :=
    ⟨by decide, by decide, by decide⟩
  refine ⟨⟨hname, hheader, hrow, ?_⟩, hmethod, hbeside, hrow', ?_⟩
  · refine (placed_at_line_end (by decide) Sample.laid Sample.visit_name hname hheader hrow).1
      Sample.outer rfl (by decide) ?_
    intro hbody
    have hid := congrArg (Option.map ParseTree.id) hbody
    exact absurd hid (by decide)
  · refine (placed_at_line_end (by decide) Sample.laid Sample.visit_method hmethod hbeside
      hrow').2.1 ?_
    rintro q ⟨⟩ hdef
    exact absurd hdef (by decide)

end RubySource
