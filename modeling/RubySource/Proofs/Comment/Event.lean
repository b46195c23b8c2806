import RubySource.Proofs.Comment.Layout

/-!
# One comment at a time

The placing of comments is specified for each comment alone.  The walk over the code nodes is a
sequence of events: it enters a node, goes through its code children, and leaves it.  A comment
belongs to the first event that accepts it, and no other comment has a say in this.

## What is here

* `Event`, `ParseTree.events` — the walk as a sequence of events.
* `Event.target?` — the node to which an event puts a comment, if it accepts it.
* `ParseTree.place?` — **the specification**: the node of a comment that is looked at alone.
* `offers_eq_flatMap`, `map_first?_offers` — the first offer to a comment is made at the first event
  that accepts it.
* `place?_isSome` — in its tree a comment always finds a place.
* `get_associate_eq_filter_place?` — **the queue meets the specification**, for every tree and all
  comments that are visible, apart from one another and not cut by the end of a node.
-/

set_option autoImplicit false

namespace RubySource

/-- What happens in a walk over the code nodes. -/
inductive Event
  | enter (t : ParseTree)
  | leave (parent : Option ParseTree) (t : ParseTree)

namespace ParseTree

mutual

/-- The events of a walk from a node: its own around those of its code children. -/
def events (parent : Option ParseTree) : ParseTree → List Event
  | .node label children =>
    let t := ParseTree.node label children
    .enter t :: eventsIn t children ++ [.leave parent t]

/-- The events of the walks from the code nodes among several children. -/
def eventsIn (parent : ParseTree) : List ParseTree → List Event
  | [] => []
  | t :: ts => (if t.isCode then events (some parent) t else []) ++ eventsIn parent ts

end

end ParseTree

namespace Event

/-- The node to which an event puts a comment, if it accepts it.  On entering, a node that is no
wrapper takes what ends before it; on leaving, a node takes what ends inside it, and otherwise its
owner takes what is beside it. -/
def target? (excerpt : Excerpt) (c : Comment) : Event → Option Nat
  | enter t => if t.isWrapper = false ∧ c.stopByte ≤ t.startByte then some t.id else none
  | leave parent t =>
    if c.stopByte ≤ t.stopByte then some t.id
    else if t.endsOutermost parent = true ∧ t.isBeside excerpt c = true then
      some (t.owner parent).id
    else none

/-- The offers that are made at an event. -/
def offers : Event → List Offer
  | enter t => [.above t]
  | leave parent t => [.inside t, .beside parent t]

/-- The first offer at an event that accepts a comment puts it where the event does. -/
theorem map_first?_offers (excerpt : Excerpt) (c : Comment) (e : Event) :
    (Offer.first? excerpt e.offers c).map Offer.target = e.target? excerpt c := by
  cases e with
  | enter t =>
    by_cases h : t.isWrapper = false ∧ c.stopByte ≤ t.startByte
    · simp [Offer.first?, offers, target?, Offer.accepts, Offer.target, h]
    · rw [target?, if_neg h]
      simpa [Offer.first?, offers, Offer.accepts] using h
  | leave parent t =>
    rw [target?, offers, Offer.first?, List.find?_cons]
    by_cases hinside : c.stopByte ≤ t.stopByte
    · simp [Offer.accepts, Offer.target, hinside]
    · by_cases hbeside : t.endsOutermost parent = true ∧ t.isBeside excerpt c = true
      · simp [Offer.accepts, Offer.target, hinside, hbeside]
      · rw [if_neg hinside, if_neg hbeside]
        simpa [Offer.accepts, hinside] using hbeside

end Event

namespace ParseTree

/-! ## Events and offers -/

theorem eventsIn_eq (parent : ParseTree) (ts : List ParseTree) :
    eventsIn parent ts = (ts.filter isCode).flatMap (events (some parent)) := by
  induction ts with
  | nil => rfl
  | cons t ts ih =>
    rw [eventsIn, ih, List.filter_cons]
    split <;> simp

/-- The events of a walk are those of the root around those of the walks from its code children. -/
theorem events_eq (parent : Option ParseTree) (t : ParseTree) :
    t.events parent
      = .enter t :: (t.codeChildren.flatMap (events (some t)) ++ [.leave parent t]) := by
  obtain ⟨label, children⟩ := t
  rw [events, eventsIn_eq]
  rfl

/-- The offers of a walk are made event by event. -/
theorem offers_eq_flatMap (parent : Option ParseTree) (t : ParseTree) :
    t.offers parent = (t.events parent).flatMap Event.offers := by
  induction t using code_induction generalizing parent with
  | visit t ih =>
    have hbelow : t.codeChildren.flatMap (ParseTree.offers (some t))
        = (t.codeChildren.flatMap (events (some t))).flatMap Event.offers := by
      rw [List.flatMap_assoc]
      exact List.flatMap_congr fun c hc => ih c hc (some t)
    rw [offers_eq, approach, hbelow, events_eq, List.flatMap_cons, List.flatMap_append]
    simp [Event.offers]

/-! ## The specification -/

/-- Where a comment belongs that is looked at alone: where the first event puts it that accepts
it. -/
def place? (source : Bytes) (parent : Option ParseTree) (t : ParseTree) (c : Comment) :
    Option Nat :=
  (t.events parent).findSome? (Event.target? ⟨t.text source, t.startByte⟩ c)

theorem map_first?_offers (source : Bytes) (parent : Option ParseTree) (t : ParseTree)
    (c : Comment) :
    (Offer.first? ⟨t.text source, t.startByte⟩ (t.offers parent) c).map Offer.target
      = t.place? source parent c := by
  rw [Offer.first?, offers_eq_flatMap, List.find?_flatMap, List.map_findSome?, place?]
  congr 1
  funext e
  exact Event.map_first?_offers _ c e

/-- A comment that ends in the tree finds a place, on leaving the tree at the latest. -/
theorem place?_isSome (source : Bytes) (parent : Option ParseTree) {t : ParseTree} {c : Comment}
    (h : c.stopByte ≤ t.stopByte) : (t.place? source parent c).isSome = true := by
  rw [place?, List.findSome?_isSome_iff]
  refine ⟨.leave parent t, ?_, by simp [Event.target?, h]⟩
  rw [events_eq]
  simp

end ParseTree

/-- **The queue meets the specification.**  Take comments that are visible stretches of the tree and
do not overlap, and let no code node end outside the tree or strictly within a comment.  Then the
comments of each node are, in the order of the source, all those that belong to it when they are
looked at alone, and every comment but the directives belongs to a node. -/
theorem get_associate_eq_filter_place? {source : Bytes} (parent : Option ParseTree)
    {t : ParseTree} {comments : List Comment} (htidy : Tidy source t comments)
    (hends : ∀ n ∈ t.codeNodes, t.startByte ≤ n.stopByte ∧ n.stopByte ≤ t.stopByte)
    (huncut : ∀ n ∈ t.codeNodes, ∀ c ∈ comments, ¬ Cuts n.stopByte c) :
    (∀ c ∈ waiting comments, (t.place? source parent c).isSome = true) ∧
      (∀ node, (associate source parent t comments).get node
        = (waiting comments).filter fun c => t.place? source parent c == some node) ∧
      ∀ node, ((associate source parent t comments).get node).Pairwise
        fun c d => c.startByte ≤ d.startByte := by
  have hturn := inTurn_of_tidy htidy parent (fun n hn => (hends n hn).1) huncut
  refine ⟨fun c hc => ?_, fun node => ?_, associate_get_sorted source parent t comments⟩
  · exact ParseTree.place?_isSome source parent (htidy.within c (mem_of_mem_waiting hc)).2
  · rw [associate_of_inTurn hturn, CommentMap.get_byFirst?]
    exact List.filter_congr fun c _ => by rw [t.map_first?_offers source parent c]

/-- In the small source the comment in the header goes to the class, and the two others to the
method. -/
theorem get_associate_sample :
    Tidy Sample.source Sample.tree Sample.comments ∧
      (associate Sample.source none Sample.tree Sample.comments).get 2 = [Sample.header] ∧
        (associate Sample.source none Sample.tree Sample.comments).get 8
          = [Sample.above, Sample.beside] := by
  have hget := (get_associate_eq_filter_place? none Sample.tidy (by decide) (by decide)).2.1
  rw [hget, hget, Sample.waiting_comments]
  exact ⟨Sample.tidy, by decide, by decide⟩

end RubySource
