import Mathlib.Data.List.TakeWhile
import RubySource.Proofs.Comment.Layout

/-!
# Moving a tree within its source

What stands in front of a tree has no say in where its comments go: with other bytes in front, and
on other rows, every comment is placed on the same node.  The placing reads places in three ways.
It compares bytes with bytes, rows with rows, and it cuts the source between two places, both
counted from the start of the visited tree.  A move changes none of this, so that a run on the moved
tree goes step by step like a run on the tree.

## What is here

* `Move` — so many bytes onwards and so many rows down or up; `Point.moved`, `Span.moved`,
  `Comment.moved`, `ParseTree.moved`, `Offer.moved`, `CommentMap.moved` — what is moved.
* `owner_moved`, `endsOutermost_moved`, `isBeside_moved` — what the placing reads of a node.
* `offers_moved`, `accepts_moved` — the moved tree makes the moved offers, and they accept the moved
  comments.
* `serveAll_map` — two runs of a queue that agree offer by offer agree.
* `placed_alike_when_moved` — **the comments of a moved tree are placed as before**.
-/

set_option autoImplicit false

namespace RubySource

/-! ## Moves -/

/-- A move of what stands in a source. -/
structure Move where
  /-- How many bytes are put in front. -/
  bytes : Nat
  /-- How many rows it goes down, or up if negative. -/
  rows : Int
  deriving DecidableEq, Repr

/-- A place is not moved above the first row. -/
def Move.Fits (m : Move) (p : Point) : Prop := 0 ≤ p.row + m.rows

instance (m : Move) (p : Point) : Decidable (m.Fits p) :=
  inferInstanceAs (Decidable (0 ≤ _))

def Point.moved (m : Move) (p : Point) : Point := ⟨(p.row + m.rows).toNat, p.column⟩

def Span.moved (m : Move) (s : Span) : Span :=
  ⟨s.startByte + m.bytes, s.stopByte + m.bytes, s.start.moved m, s.stop.moved m⟩

def Comment.moved (m : Move) (c : Comment) : Comment := { c with span := c.span.moved m }

namespace ParseTree

def Label.moved (m : Move) (l : Label) : Label := { l with span := l.span.moved m }

mutual

/-- A tree with all its nodes moved. -/
def moved (m : Move) : ParseTree → ParseTree
  | .node label children => .node (label.moved m) (movedIn m children)

/-- Several trees with all their nodes moved. -/
def movedIn (m : Move) : List ParseTree → List ParseTree
  | [] => []
  | t :: ts => moved m t :: movedIn m ts

end

end ParseTree

namespace Offer

/-- The same offer, made by the moved node. -/
def moved (m : Move) : Offer → Offer
  | above t => above (t.moved m)
  | inside t => inside (t.moved m)
  | beside parent t => beside (parent.map (·.moved m)) (t.moved m)

end Offer

/-- The same bytes, found at another place. -/
def Excerpt.moved (m : Move) (e : Excerpt) : Excerpt := ⟨e.bytes, e.offset + m.bytes⟩

def Placement.moved (m : Move) (p : Placement) : Placement :=
  { p with comment := p.comment.moved m }

/-- The same nodes with the moved comments. -/
def CommentMap.moved (m : Move) (cs : CommentMap) : CommentMap := ⟨cs.placements.map (·.moved m)⟩

section

variable (m : Move)

/-! ## Places -/

/-- What is on the same row stays on the same row. -/
theorem Point.row_moved_eq_iff {p q : Point} (hp : m.Fits p) (hq : m.Fits q) :
    (p.moved m).row = (q.moved m).row ↔ p.row = q.row := by
  simp only [Move.Fits] at hp hq
  simp only [Point.moved]
  omega

theorem Excerpt.between_moved (e : Excerpt) (start stop : Nat) :
    (e.moved m).between (start + m.bytes) (stop + m.bytes) = e.between start stop := by
  have hsame (a : Nat) :
      ((a + m.bytes : Nat) : Int) - (e.offset + m.bytes : Nat) = a - e.offset := by
    omega
  simp only [Excerpt.between, Excerpt.moved, hsame]

/-- A slice of a source is found behind what is put in front. -/
theorem Bytes.slice_append_left (front bytes : Bytes) (start stop : Nat) :
    slice (front ++ bytes) (start + front.length) (stop + front.length)
      = slice bytes start stop := by
  have hdrop : (front ++ bytes).drop (start + front.length) = bytes.drop start := by
    rw [Nat.add_comm, ← List.drop_drop, List.drop_left]
  rw [slice, slice, hdrop, Nat.add_sub_add_right]

namespace ParseTree

/-! ## Nodes -/

variable (t : ParseTree)

theorem movedIn_eq (ts : List ParseTree) : movedIn m ts = ts.map (moved m) := by
  induction ts with
  | nil => rfl
  | cons t ts ih => rw [movedIn, ih, List.map_cons]

@[simp] theorem label_moved : (t.moved m).label = t.label.moved m := by
  cases t
  rfl

@[simp] theorem children_moved : (t.moved m).children = t.children.map (moved m) := by
  cases t
  exact movedIn_eq m _

@[simp] theorem id_moved : (t.moved m).id = t.id := by
  rw [id, label_moved]
  rfl

@[simp] theorem type_moved : (t.moved m).type = t.type := by
  rw [type, label_moved]
  rfl

@[simp] theorem span_moved : (t.moved m).span = t.span.moved m := by
  rw [span, label_moved]
  rfl

@[simp] theorem startByte_moved : (t.moved m).startByte = t.startByte + m.bytes := by
  rw [startByte, span_moved]
  rfl

@[simp] theorem stopByte_moved : (t.moved m).stopByte = t.stopByte + m.bytes := by
  rw [stopByte, span_moved]
  rfl

@[simp] theorem isCode_moved : (t.moved m).isCode = t.isCode := by
  rw [isCode, isComment, type_moved, label_moved]
  rfl

theorem codeChildren_moved : (t.moved m).codeChildren = t.codeChildren.map (moved m) := by
  have hcode : isCode ∘ moved m = isCode := funext fun c => isCode_moved m c
  rw [codeChildren, children_moved, List.filter_map, hcode]
  rfl

theorem childInField?_moved (field : String) :
    (t.moved m).childInField? field = (t.childInField? field).map (moved m) := by
  have hfield : (fun c : ParseTree => c.label.field == some field) ∘ moved m
      = fun c => c.label.field == some field := by
    funext c
    rw [Function.comp_apply, label_moved]
    rfl
  rw [childInField?, children_moved, List.find?_map, hfield]
  rfl

/-- The moved tree covers the same bytes in a source with as many bytes in front. -/
theorem text_moved {front : Bytes} (hfront : front.length = m.bytes) (source : Bytes) :
    (t.moved m).text (front ++ source) = t.text source := by
  rw [text, startByte_moved, stopByte_moved, ← hfront, Bytes.slice_append_left]
  rfl

/-! ## What placing reads of a node -/

variable (parent : Option ParseTree)

theorem owner_moved :
    (t.moved m).owner (parent.map (moved m)) = (t.owner parent).moved m := by
  cases parent with
  | none => rfl
  | some p =>
    have hdef : (p.moved m).isDefinition = p.isDefinition := by
      simp only [isDefinition, type_moved]
    simp only [owner, Option.map_some, hdef, childInField?_moved]
    split
    · cases p.childInField? "body" with
      | none => rfl
      | some body =>
        simp only [Option.map_some, id_moved]
        split <;> rfl
    · rfl

theorem endsOutermost_moved :
    (t.moved m).endsOutermost (parent.map (moved m)) = t.endsOutermost parent := by
  cases parent with
  | none => rfl
  | some p =>
    have hstop : (p.stopByte + m.bytes != t.stopByte + m.bytes) = (p.stopByte != t.stopByte) := by
      rw [Bool.eq_iff_iff, bne_iff_ne, bne_iff_ne, ne_eq, Nat.add_right_cancel_iff]
    simp only [endsOutermost, Option.map_some, isWrapper, type_moved, stopByte_moved, hstop]

theorem isBeside_moved (e : Excerpt) {c : Comment} (ht : m.Fits t.span.stop)
    (hc : m.Fits c.span.start) :
    (t.moved m).isBeside (e.moved m) (c.moved m) = t.isBeside e c := by
  have hrow : (c.moved m).span.start.row = (t.moved m).span.stop.row
      ↔ c.span.start.row = t.span.stop.row := by
    rw [span_moved]
    exact Point.row_moved_eq_iff m hc ht
  have hgap : (e.moved m).between (t.moved m).stopByte (c.moved m).startByte
      = e.between t.stopByte c.startByte := by
    rw [stopByte_moved]
    exact Excerpt.between_moved m e t.stopByte c.startByte
  rw [isBeside, isBeside, hgap]
  congr 1
  rw [Bool.eq_iff_iff, beq_iff_eq, beq_iff_eq]
  exact hrow

/-- **The moved tree makes the moved offers.** -/
theorem offers_moved :
    (t.moved m).offers (parent.map (moved m)) = (t.offers parent).map (Offer.moved m) := by
  induction t using code_induction generalizing parent with
  | visit t ih =>
    have hbelow : (t.codeChildren.map (moved m)).flatMap (offers (some (t.moved m)))
        = (t.codeChildren.flatMap (offers (some t))).map (Offer.moved m) := by
      rw [List.flatMap_map, List.map_flatMap]
      exact List.flatMap_congr fun c hc => ih c hc (some t)
    rw [offers_eq, offers_eq, approach, approach, codeChildren_moved, hbelow]
    simp only [List.map_append, List.map_cons, List.map_nil, Offer.moved]

end ParseTree

namespace Offer

theorem target_moved (o : Offer) : (o.moved m).target = o.target := by
  cases o with
  | above t => exact ParseTree.id_moved m t
  | inside t => exact ParseTree.id_moved m t
  | beside parent t =>
    rw [moved, target, ParseTree.owner_moved, ParseTree.id_moved]
    rfl

/-- **A moved offer accepts a moved comment** exactly if the offer accepts the comment. -/
theorem accepts_moved (e : Excerpt) {parent : Option ParseTree} {t : ParseTree} {o : Offer}
    {c : Comment} (ho : o ∈ t.offers parent) (hnodes : ∀ n ∈ t.codeNodes, m.Fits n.span.stop)
    (hc : m.Fits c.span.start) :
    (o.moved m).accepts (e.moved m) (c.moved m) = o.accepts e c := by
  have hstop : (c.moved m).stopByte = c.stopByte + m.bytes := rfl
  obtain ⟨p, n, hn, rfl | rfl | rfl⟩ := ParseTree.mem_offers_iff.1 ho
  · simp only [moved, accepts, ParseTree.isWrapper, ParseTree.type_moved,
      ParseTree.startByte_moved, hstop, Nat.add_le_add_iff_right]
  · simp only [moved, accepts, ParseTree.stopByte_moved, hstop, Nat.add_le_add_iff_right]
  · rw [moved, accepts, accepts, ParseTree.endsOutermost_moved,
      ParseTree.isBeside_moved m n e (hnodes n hn.mem_codeNodes) hc]

end Offer

/-! ## The queue -/

theorem dropIf_map {f : Comment → Comment} (hf : ∀ c, (f c).text = c.text) (kind : String → Bool)
    (cs : List Comment) :
    Directive.dropIf kind (cs.map f) = (Directive.dropIf kind cs).map f := by
  cases cs with
  | nil => rfl
  | cons c cs =>
    rw [List.map_cons, Directive.dropIf, Directive.dropIf, hf]
    split <;> rfl

/-- The moved comments wait as the comments do. -/
theorem waiting_moved (comments : List Comment) :
    waiting (comments.map (·.moved m)) = (waiting comments).map (·.moved m) := by
  have hsorted : inSourceOrder (comments.map (·.moved m))
      = (inSourceOrder comments).map (·.moved m) := by
    refine (List.map_mergeSort fun c _ d _ => ?_).symm
    exact decide_eq_decide.2 (Nat.add_le_add_iff_right (n := m.bytes)).symm
  have htext (c : Comment) : (c.moved m).text = c.text := rfl
  simp only [waiting, hsorted, Directive.dropDirectives, dropIf_map htext]

namespace Placement

variable {e e' : Excerpt} {f : Comment → Comment} {g : Offer → Offer}

/-- Where a condition on the images is the same as one on the comments, it parts both queues at
the same place. -/
theorem span_map {p q : Comment → Bool} {queue : List Comment}
    (h : ∀ c ∈ queue, p (f c) = q c) :
    (queue.map f).takeWhile p = (queue.takeWhile q).map f
      ∧ (queue.map f).dropWhile p = (queue.dropWhile q).map f := by
  induction queue with
  | nil => exact ⟨rfl, rfl⟩
  | cons c cs ih =>
    obtain ⟨htake, hdrop⟩ := ih fun d hd => h d (List.mem_cons_of_mem c hd)
    rw [List.map_cons, List.takeWhile_cons, List.takeWhile_cons, List.dropWhile_cons,
      List.dropWhile_cons, h c (List.mem_cons_self ..), htake, hdrop]
    split <;> exact ⟨rfl, rfl⟩

/-- An offer takes the images of what another one takes, if it accepts just these. -/
theorem serve_map {o o' : Offer} {queue : List Comment} (htarget : o'.target = o.target)
    (haccepts : ∀ c ∈ queue, o'.accepts e' (f c) = o.accepts e c) :
    serve e' o' (queue.map f)
      = ((serve e o queue).1.map fun p => ⟨p.node, f p.comment⟩, (serve e o queue).2.map f) := by
  obtain ⟨htake, hdrop⟩ := span_map haccepts
  rw [serve, serve, htake, hdrop, htarget, List.map_map, List.map_map]
  rfl

/-- **Two runs that agree offer by offer agree.** -/
theorem serveAll_map {offers : List Offer} {queue : List Comment}
    (htarget : ∀ o ∈ offers, (g o).target = o.target)
    (haccepts : ∀ o ∈ offers, ∀ c ∈ queue, (g o).accepts e' (f c) = o.accepts e c) :
    serveAll e' (offers.map g) (queue.map f)
      = ((serveAll e offers queue).1.map fun p => ⟨p.node, f p.comment⟩,
          (serveAll e offers queue).2.map f) := by
  induction offers generalizing queue with
  | nil => rfl
  | cons o os ih =>
    have hnow := serve_map (htarget o (List.mem_cons_self ..))
      (haccepts o (List.mem_cons_self ..))
    have hleft : ∀ o' ∈ os, ∀ c ∈ (serve e o queue).2,
        (g o').accepts e' (f c) = o'.accepts e c := fun o' ho' c hc =>
      haccepts o' (List.mem_cons_of_mem o ho') c ((List.dropWhile_sublist _).subset hc)
    have hlater := ih (fun o' ho' => htarget o' (List.mem_cons_of_mem o ho')) hleft
    simp only [List.map_cons, serveAll, hnow, hlater, List.map_append]

end Placement

/-! ## The map -/

theorem CommentMap.keys_moved (cs : CommentMap) : (cs.moved m).keys = cs.keys := by
  rw [keys, CommentMap.moved, List.map_map]
  rfl

theorem CommentMap.get_moved (cs : CommentMap) (node : Nat) :
    (cs.moved m).get node = (cs.get node).map (·.moved m) := by
  rw [get, get, CommentMap.moved, List.filter_map, List.map_map, List.map_map]
  rfl

section Tree

variable {front : Bytes} (hfront : front.length = m.bytes) (source : Bytes)
  (parent : Option ParseTree) (t : ParseTree) (comments : List Comment)
  (hnodes : ∀ n ∈ t.codeNodes, m.Fits n.span.stop) (hcomments : ∀ c ∈ comments, m.Fits c.span.start)

include hfront hnodes hcomments

/-- The map of the moved tree holds the moved comments, each placed as before. -/
theorem associate_eq_moved :
    associate (front ++ source) (parent.map (·.moved m)) (t.moved m) (comments.map (·.moved m))
      = (associate source parent t comments).moved m := by
  have hexcerpt : (⟨(t.moved m).text (front ++ source), (t.moved m).startByte⟩ : Excerpt)
      = (⟨t.text source, t.startByte⟩ : Excerpt).moved m := by
    rw [ParseTree.text_moved m t hfront, ParseTree.startByte_moved]
    rfl
  have haccepts : ∀ o ∈ t.offers parent, ∀ c ∈ waiting comments,
      (o.moved m).accepts ((⟨t.text source, t.startByte⟩ : Excerpt).moved m) (c.moved m)
        = o.accepts ⟨t.text source, t.startByte⟩ c := fun o ho c hc =>
    Offer.accepts_moved m _ ho hnodes (hcomments c (mem_of_mem_waiting hc))
  have hrun := Placement.serveAll_map (fun o _ => Offer.target_moved m o) haccepts
  rw [CommentMap.mk.injEq, associate_placements, hexcerpt, ParseTree.offers_moved, waiting_moved,
    hrun, CommentMap.moved, associate_placements]
  rfl

end Tree

end

/-- **The comments of a moved tree are placed as before.**  Put bytes in front of a source, move all
nodes of a tree and of its parent and all comments by as many bytes, and by any number of rows that
moves none of the rows above the first.  Then the same nodes have comments, and each of them has the
moved comments that it had before, in the same order. -/
theorem placed_alike_when_moved {m : Move} {front : Bytes} (hfront : front.length = m.bytes)
    (source : Bytes) (parent : Option ParseTree) (t : ParseTree) (comments : List Comment)
    (hnodes : ∀ n ∈ t.codeNodes, m.Fits n.span.stop)
    (hcomments : ∀ c ∈ comments, m.Fits c.span.start) :
    (associate (front ++ source) (parent.map (·.moved m)) (t.moved m)
        (comments.map (·.moved m))).keys = (associate source parent t comments).keys ∧
      ∀ node, (associate (front ++ source) (parent.map (·.moved m)) (t.moved m)
          (comments.map (·.moved m))).get node
        = ((associate source parent t comments).get node).map (·.moved m) := by
  rw [associate_eq_moved m hfront source parent t comments hnodes hcomments]
  exact ⟨CommentMap.keys_moved m _, CommentMap.get_moved m _⟩

/-- The small source behind two more lines: its method has the same two comments. -/
theorem placed_alike_sample :
    (Utf8.ofString "\n# \n").length = 4 ∧
      (∀ n ∈ Sample.tree.codeNodes, (⟨4, 2⟩ : Move).Fits n.span.stop) ∧
      (∀ c ∈ Sample.comments, (⟨4, 2⟩ : Move).Fits c.span.start) ∧
      (associate (Utf8.ofString "\n# \n" ++ Sample.source) none (Sample.tree.moved ⟨4, 2⟩)
          (Sample.comments.map (·.moved ⟨4, 2⟩))).get Sample.method.id
        = [⟨"# b", ⟨22, 25, ⟨4, 2⟩, ⟨4, 5⟩⟩⟩, ⟨"# c", ⟨39, 42, ⟨5, 13⟩, ⟨5, 16⟩⟩⟩] := by
  have hfront : (Utf8.ofString "\n# \n").length = 4 := by decide
  have hnodes : ∀ n ∈ Sample.tree.codeNodes, (⟨4, 2⟩ : Move).Fits n.span.stop := by decide
  have hcomments : ∀ c ∈ Sample.comments, (⟨4, 2⟩ : Move).Fits c.span.start := by decide
  have halike := placed_alike_when_moved (m := ⟨4, 2⟩) hfront Sample.source none Sample.tree
    Sample.comments hnodes hcomments
  refine ⟨hfront, hnodes, hcomments, (halike.2 Sample.method.id).trans ?_⟩
  rw [Sample.get_method]
  rfl

end RubySource
