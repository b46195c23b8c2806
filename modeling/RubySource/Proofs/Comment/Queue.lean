import Mathlib.Data.List.Basic
import Mathlib.Data.List.TakeWhile
import RubySource.Comment.Placement

/-!
# The queue of comments

Offers only ever look at the front of the queue, so that a comment which no offer accepts holds up
all those behind it.  This file says when that cannot happen, and what the queue does then: it is
enough that no comment is first accepted by an earlier offer than a comment in front of it.  Each
comment is then placed by the first offer that accepts it, as if it waited alone.

## What is here

* `waiting` — the comments that wait to be placed, in the order of the source
  (`waiting_sorted`); `associate_placements` says that `associate` serves them.
* `exists_offer_of_mem_serveAll` — whoever is placed was accepted by the offer that placed him.
* `serveAll_left_eq_nil` — an offer that accepts everybody leaves nobody waiting.
* `Offer.first?`, `Offer.turn` — the first offer that accepts a comment, and how many come before
  it; `turn_append_le` and `turn_flatMap_le` compare turns piece by piece.
* `InTurn`, `serveAll_of_inTurn` — **the queue serves everybody as if alone**, provided that nobody
  waits in front of somebody whose turn comes earlier.
* `CommentMap.get_sublist` — the comments of a node stand in the order of the queue;
  `CommentMap.get_byFirst?` says which they are where everybody is served in turn.
-/

set_option autoImplicit false

namespace RubySource

/-! ## The comments that wait -/

/-- The comments that wait to be placed: in the order of the source, without the directives. -/
def waiting (comments : List Comment) : List Comment :=
  Directive.dropDirectives (inSourceOrder comments)

theorem inSourceOrder_perm (comments : List Comment) :
    (inSourceOrder comments).Perm comments :=
  List.mergeSort_perm _ _

theorem startsFirst_trans (a b c : Comment) (hab : decide (a.startByte ≤ b.startByte) = true)
    (hbc : decide (b.startByte ≤ c.startByte) = true) :
    decide (a.startByte ≤ c.startByte) = true := by
  rw [decide_eq_true_eq] at hab hbc ⊢
  exact Nat.le_trans hab hbc

theorem startsFirst_total (a b : Comment) :
    (decide (a.startByte ≤ b.startByte) || decide (b.startByte ≤ a.startByte)) = true := by
  rw [Bool.or_eq_true, decide_eq_true_eq, decide_eq_true_eq]
  exact Nat.le_total _ _

theorem inSourceOrder_sorted (comments : List Comment) :
    (inSourceOrder comments).Pairwise fun c d => c.startByte ≤ d.startByte :=
  (List.pairwise_mergeSort startsFirst_trans startsFirst_total comments).imp
    fun h => of_decide_eq_true h

theorem waiting_sublist (comments : List Comment) :
    (waiting comments).Sublist (inSourceOrder comments) := by
  obtain ⟨d, -, -, h⟩ := Directive.dropDirectives_eq_drop (inSourceOrder comments)
  rw [waiting, h]
  exact List.drop_sublist d _

/-- Who waits is one of the comments. -/
theorem mem_of_mem_waiting {c : Comment} {comments : List Comment} (h : c ∈ waiting comments) :
    c ∈ comments :=
  (inSourceOrder_perm comments).mem_iff.1 ((waiting_sublist comments).subset h)

theorem waiting_sorted (comments : List Comment) :
    (waiting comments).Pairwise fun c d => c.startByte ≤ d.startByte :=
  (inSourceOrder_sorted comments).sublist (waiting_sublist comments)

/-! ## Offers to one comment alone -/

namespace Offer

/-- The first of several offers that accepts a comment. -/
def first? (excerpt : Excerpt) (offers : List Offer) (c : Comment) : Option Offer :=
  offers.find? (·.accepts excerpt c)

/-- How many offers are made before one accepts a comment; all of them, if none does. -/
def turn (excerpt : Excerpt) (offers : List Offer) (c : Comment) : Nat :=
  offers.findIdx (·.accepts excerpt c)

variable {excerpt : Excerpt} {c d : Comment}

theorem turn_cons_of_accepts {o : Offer} {os : List Offer} (h : o.accepts excerpt c = true) :
    turn excerpt (o :: os) c = 0 := by
  simp [turn, List.findIdx_cons, h]

theorem turn_cons_of_refuses {o : Offer} {os : List Offer} (h : o.accepts excerpt c = false) :
    turn excerpt (o :: os) c = turn excerpt os c + 1 := by
  simp [turn, List.findIdx_cons, h]

theorem turn_le_length (os : List Offer) : turn excerpt os c ≤ os.length :=
  List.findIdx_le_length

theorem turn_append (xs ys : List Offer) :
    turn excerpt (xs ++ ys) c
      = if turn excerpt xs c < xs.length then turn excerpt xs c
        else turn excerpt ys c + xs.length :=
  List.findIdx_append

/-- Turns may be compared in two goes. -/
theorem turn_append_le {xs ys : List Offer} (hx : turn excerpt xs c ≤ turn excerpt xs d)
    (hy : turn excerpt ys c ≤ turn excerpt ys d) :
    turn excerpt (xs ++ ys) c ≤ turn excerpt (xs ++ ys) d := by
  have hc : turn excerpt xs c ≤ xs.length := turn_le_length xs
  rw [turn_append, turn_append]
  split <;> split <;> omega

/-- Turns may be compared piece by piece. -/
theorem turn_flatMap_le {α : Type} {f : α → List Offer} {as : List α}
    (h : ∀ a ∈ as, turn excerpt (f a) c ≤ turn excerpt (f a) d) :
    turn excerpt (as.flatMap f) c ≤ turn excerpt (as.flatMap f) d := by
  induction as with
  | nil => exact Nat.le_refl _
  | cons a as ih =>
    rw [List.flatMap_cons]
    exact turn_append_le (h a (List.mem_cons_self ..))
      (ih fun b hb => h b (List.mem_cons_of_mem a hb))

/-- A single offer that accepts the later comment only together with the earlier one does not put
the turns out of order. -/
theorem turn_single_le {o : Offer} (h : o.accepts excerpt d = true → o.accepts excerpt c = true) :
    turn excerpt [o] c ≤ turn excerpt [o] d := by
  by_cases hd : o.accepts excerpt d = true
  · rw [turn_cons_of_accepts (h hd)]
    exact Nat.zero_le _
  · have hd' : o.accepts excerpt d = false := by simpa using hd
    rw [turn_cons_of_refuses hd']
    exact turn_le_length [o]

end Offer

namespace Placement

/-! ## What a placement says -/

/-- Who is placed was accepted by an offer, and is placed where that offer places. -/
theorem exists_offer_of_mem_serveAll {excerpt : Excerpt} {offers : List Offer}
    {queue : List Comment} {p : Placement} (h : p ∈ (serveAll excerpt offers queue).1) :
    ∃ o ∈ offers, p.node = o.target ∧ o.accepts excerpt p.comment = true := by
  induction offers generalizing queue with
  | nil => cases h
  | cons o os ih =>
    rcases List.mem_append.1 h with hnow | hlater
    · obtain ⟨c, hc, rfl⟩ := List.mem_map.1 hnow
      exact ⟨o, List.mem_cons_self .., rfl, List.mem_takeWhile_imp hc⟩
    · obtain ⟨o', ho', he, ha⟩ := ih hlater
      exact ⟨o', List.mem_cons_of_mem o ho', he, ha⟩

/-- An offer that accepts the whole queue leaves nobody waiting. -/
theorem serveAll_left_eq_nil {excerpt : Excerpt} {offers : List Offer} {queue : List Comment}
    {o : Offer} (ho : o ∈ offers) (h : ∀ c ∈ queue, o.accepts excerpt c = true) :
    (serveAll excerpt offers queue).2 = [] := by
  induction offers generalizing queue with
  | nil => cases ho
  | cons o' os ih =>
    have hrest : ∀ c ∈ queue.dropWhile (o'.accepts excerpt), o.accepts excerpt c = true :=
      fun c hc => h c ((List.dropWhile_sublist _).subset hc)
    rcases List.mem_cons.1 ho with rfl | ho
    · have hnil : queue.dropWhile (o.accepts excerpt) = [] := List.dropWhile_eq_nil_iff.2 h
      have hcomments := serveAll_comments excerpt os []
      simp only [serveAll, serve, hnil]
      exact (List.append_eq_nil_iff.1 hcomments).2
    · exact ih ho hrest

/-! ## Serving in turn -/

/-- Nobody waits in front of somebody whose turn comes earlier. -/
def InTurn (excerpt : Excerpt) (offers : List Offer) (queue : List Comment) : Prop :=
  queue.Pairwise fun c d => Offer.turn excerpt offers c ≤ Offer.turn excerpt offers d

/-- The placement of a comment by the first offer that accepts it. -/
def byFirst? (excerpt : Excerpt) (offers : List Offer) (c : Comment) : Option Placement :=
  (Offer.first? excerpt offers c).map fun o => ⟨o.target, c⟩

/-- Where a condition is met by all in front of one that meets it, those that meet it are the
front of the queue. -/
theorem span_eq_filter {p : Comment → Bool} {queue : List Comment}
    (h : queue.Pairwise fun c d => p d = true → p c = true) :
    queue.takeWhile p = queue.filter p ∧ queue.dropWhile p = queue.filter fun c => !p c := by
  induction queue with
  | nil => exact ⟨rfl, rfl⟩
  | cons c cs ih =>
    obtain ⟨hc, hcs⟩ := List.pairwise_cons.1 h
    by_cases hp : p c = true
    · simpa [List.takeWhile_cons, List.dropWhile_cons, List.filter_cons, hp] using ih hcs
    · have hnone : ∀ d ∈ cs, ¬ p d = true := fun d hd hpd => hp (hc d hd hpd)
      have hall : ∀ d ∈ cs, (!p d) = true := fun d hd => by simpa using hnone d hd
      simp only [List.takeWhile_cons, List.dropWhile_cons, List.filter_cons, hp]
      simp [List.filter_eq_nil_iff.2 hnone, List.filter_eq_self.2 hall]

theorem InTurn.accepts_front {excerpt : Excerpt} {o : Offer} {os : List Offer}
    {queue : List Comment} (h : InTurn excerpt (o :: os) queue) :
    queue.Pairwise fun c d => o.accepts excerpt d = true → o.accepts excerpt c = true := by
  refine h.imp fun {c d} hle hd => ?_
  by_contra hc
  rw [Offer.turn_cons_of_accepts hd, Offer.turn_cons_of_refuses (by simpa using hc)] at hle
  omega

/-- Those whom the first offer refuses are in turn for the others. -/
theorem InTurn.refused {excerpt : Excerpt} {o : Offer} {os : List Offer} {queue : List Comment}
    (h : InTurn excerpt (o :: os) queue) :
    InTurn excerpt os (queue.filter fun c => !o.accepts excerpt c) := by
  refine (h.filter _).imp_of_mem fun {c d} hc hd hle => ?_
  have hc' : o.accepts excerpt c = false := by simpa using (List.mem_filter.1 hc).2
  have hd' : o.accepts excerpt d = false := by simpa using (List.mem_filter.1 hd).2
  rw [Offer.turn_cons_of_refuses hc', Offer.turn_cons_of_refuses hd'] at hle
  omega

/-- **The queue serves everybody as if alone.**  If nobody waits in front of somebody whose turn
comes earlier, every comment is placed by the first offer that accepts it, and left if there is
none. -/
theorem serveAll_of_inTurn {excerpt : Excerpt} {offers : List Offer} {queue : List Comment}
    (h : InTurn excerpt offers queue) :
    serveAll excerpt offers queue
      = (queue.filterMap (byFirst? excerpt offers),
          queue.filter fun c => !offers.any (·.accepts excerpt c)) := by
  induction offers generalizing queue with
  | nil =>
    have hleft : queue.filter (fun _ => true) = queue := List.filter_eq_self.2 fun _ _ => rfl
    simp [serveAll, byFirst?, Offer.first?, hleft]
  | cons o os ih =>
    obtain ⟨htake, hdrop⟩ := span_eq_filter h.accepts_front
    have hnow : (queue.takeWhile (o.accepts excerpt)).map (⟨o.target, ·⟩)
        = (queue.takeWhile (o.accepts excerpt)).filterMap (byFirst? excerpt (o :: os)) := by
      rw [← List.filterMap_eq_map]
      refine List.filterMap_congr fun c hc => ?_
      have ho : o.accepts excerpt c = true := List.mem_takeWhile_imp hc
      simp [byFirst?, Offer.first?, ho]
    have hlater : (queue.dropWhile (o.accepts excerpt)).filterMap (byFirst? excerpt os)
        = (queue.dropWhile (o.accepts excerpt)).filterMap (byFirst? excerpt (o :: os)) := by
      refine List.filterMap_congr fun c hc => ?_
      rw [hdrop] at hc
      have ho : o.accepts excerpt c = false := by simpa using (List.mem_filter.1 hc).2
      simp [byFirst?, Offer.first?, ho]
    have hrest := h.refused
    rw [← hdrop] at hrest
    simp only [serveAll, serve, ih hrest, Prod.mk.injEq]
    constructor
    · rw [hnow, hlater, ← List.filterMap_append, List.takeWhile_append_dropWhile]
    · rw [hdrop, List.filter_filter]
      refine List.filter_congr fun c _ => ?_
      simp [List.any_cons, Bool.and_comm]

end Placement

/-! ## The comments of a node -/

namespace CommentMap

/-- The comments of a node stand in the order in which they were placed. -/
theorem get_sublist (m : CommentMap) (node : Nat) :
    (m.get node).Sublist (m.placements.map (·.comment)) :=
  List.filter_sublist.map _

/-- Where everybody is placed by the first offer, the comments of a node are those whose first offer
places on it. -/
theorem get_byFirst? (excerpt : Excerpt) (offers : List Offer) (queue : List Comment) (node : Nat) :
    (⟨queue.filterMap (Placement.byFirst? excerpt offers)⟩ : CommentMap).get node
      = queue.filter fun c => (Offer.first? excerpt offers c).map Offer.target == some node := by
  induction queue with
  | nil => rfl
  | cons c cs ih =>
    rw [get] at ih
    rw [get, List.filterMap_cons, List.filter_cons, ← ih, Placement.byFirst?]
    cases Offer.first? excerpt offers c with
    | none => simp
    | some o => by_cases ho : o.target = node <;> simp [ho]

end CommentMap

theorem associate_placements (source : Bytes) (parent : Option ParseTree) (t : ParseTree)
    (comments : List Comment) :
    (associate source parent t comments).placements
      = (Placement.serveAll ⟨t.text source, t.startByte⟩ (t.offers parent)
          (waiting comments)).1 :=
  rfl

/-- Comments that are in turn are placed by the first offers that accept them. -/
theorem associate_of_inTurn {source : Bytes} {parent : Option ParseTree} {t : ParseTree}
    {comments : List Comment}
    (h : Placement.InTurn ⟨t.text source, t.startByte⟩ (t.offers parent) (waiting comments)) :
    associate source parent t comments
      = ⟨(waiting comments).filterMap
          (Placement.byFirst? ⟨t.text source, t.startByte⟩ (t.offers parent))⟩ :=
  congrArg CommentMap.mk (congrArg Prod.fst (Placement.serveAll_of_inTurn h))

/-- The comments of a node waited, and were first accepted by an offer that places on it. -/
theorem exists_first?_of_mem_get {source : Bytes} {parent : Option ParseTree} {t : ParseTree}
    {comments : List Comment}
    (h : Placement.InTurn ⟨t.text source, t.startByte⟩ (t.offers parent) (waiting comments))
    {node : Nat} {c : Comment} (hc : c ∈ (associate source parent t comments).get node) :
    c ∈ comments ∧ ∃ o, o.target = node ∧
      Offer.first? ⟨t.text source, t.startByte⟩ (t.offers parent) c = some o := by
  rw [associate_of_inTurn h, CommentMap.get_byFirst?, List.mem_filter, beq_iff_eq,
    Option.map_eq_some_iff] at hc
  obtain ⟨hwaiting, o, ho, htarget⟩ := hc
  exact ⟨mem_of_mem_waiting hwaiting, o, htarget, ho⟩

/-- What is placed is a beginning of what waits. -/
theorem associate_comments_sublist (source : Bytes) (parent : Option ParseTree) (t : ParseTree)
    (comments : List Comment) :
    ((associate source parent t comments).placements.map (·.comment)).Sublist
      (waiting comments) := by
  have h := Placement.serveAll_comments ⟨t.text source, t.startByte⟩ (t.offers parent)
    (waiting comments)
  have hfront := List.sublist_append_left
    ((associate source parent t comments).placements.map Placement.comment)
    (Placement.serveAll ⟨t.text source, t.startByte⟩ (t.offers parent) (waiting comments)).2
  rwa [associate_placements, h] at hfront

/-- The comments of each node stand in the order of the source. -/
theorem associate_get_sorted (source : Bytes) (parent : Option ParseTree) (t : ParseTree)
    (comments : List Comment) (node : Nat) :
    ((associate source parent t comments).get node).Pairwise
      fun c d => c.startByte ≤ d.startByte :=
  (waiting_sorted comments).sublist
    ((CommentMap.get_sublist _ node).trans (associate_comments_sublist source parent t comments))

end RubySource
