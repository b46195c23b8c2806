import RubySource.Proofs.Comment.Queue
import RubySource.Proofs.ParseTree.CodeNodes

/-!
# The offers of a visit

Each visit of a code node makes three offers, one before and two after those of its code children.
This file says where the offers of a walk come from, and what has been refused by the time that a
comment is accepted.

## What is here

* `approach`, `offers_eq` — the offers of a visit before its last two; `mem_offers_iff` says that
  the offers of a walk are those of its visits.
* `exists_target` — an offer places on a node of the walk, or on the parent of all.
* `aboves_offers` — the offers to comments above, taken alone, stand in preorder.
* `first?_offers` — **what comes before the first offer that accepts**: an offer inside a node comes
  after all offers from that node down, and an offer beside a node after that inside it.
* `find?_codeNodes_of_first?` — an offer above a node comes after those above all earlier nodes.
-/

set_option autoImplicit false

namespace RubySource
namespace ParseTree

/-! ## Where the offers come from -/

theorem offersIn_eq (parent : ParseTree) (ts : List ParseTree) :
    offersIn parent ts = (ts.filter isCode).flatMap (offers (some parent)) := by
  induction ts with
  | nil => rfl
  | cons t ts ih =>
    rw [offersIn, ih, List.filter_cons]
    split <;> simp

/-- The offers of a visit that come before those at the end of the node. -/
def approach (t : ParseTree) : List Offer :=
  .above t :: t.codeChildren.flatMap (offers (some t))

/-- A visit ends with two offers of its own. -/
theorem offers_eq (parent : Option ParseTree) (t : ParseTree) :
    t.offers parent = t.approach ++ [.inside t, .beside parent t] := by
  obtain ⟨label, children⟩ := t
  rw [offers, offersIn_eq]
  rfl

/-- The offers of a walk are those of its visits. -/
theorem mem_offers_iff {parent : Option ParseTree} {t : ParseTree} {o : Offer} :
    o ∈ t.offers parent
      ↔ ∃ p n, IsVisit parent t p n ∧ (o = .above n ∨ o = .inside n ∨ o = .beside p n) := by
  induction t using code_induction generalizing parent with
  | visit t ih =>
    rw [offers_eq, approach, List.cons_append, List.mem_cons, List.mem_append, List.mem_flatMap]
    constructor
    · rintro (h | ⟨c, hc, ho⟩ | h)
      · exact ⟨parent, t, IsVisit.start parent t, Or.inl h⟩
      · obtain ⟨p, n, hn, ho⟩ := (ih c hc).1 ho
        exact ⟨p, n, hn.below hc, ho⟩
      · exact ⟨parent, t, IsVisit.start parent t, Or.inr (by simpa using h)⟩
    · rintro ⟨p, n, ⟨rfl, rfl⟩ | ⟨q, hq, rfl, hn⟩, ho⟩
      · rcases ho with ho | ho | ho
        · exact Or.inl ho
        · exact Or.inr (Or.inr (by simp [ho]))
        · exact Or.inr (Or.inr (by simp [ho]))
      · rcases mem_codeNodes_iff.1 hq with rfl | ⟨c, hc, hq⟩
        · exact Or.inr (Or.inl ⟨n, hn, (ih n hn).2 ⟨some q, n, IsVisit.start _ n, ho⟩⟩)
        · exact Or.inr (Or.inl ⟨c, hc, (ih c hc).2 ⟨some q, n, Or.inr ⟨q, hq, rfl, hn⟩, ho⟩⟩)

/-- Everything from a node down has been offered to comments above it before the end of the
node. -/
theorem above_mem_approach {t n : ParseTree} (h : n ∈ t.codeNodes) : .above n ∈ t.approach := by
  induction t using code_induction with
  | visit t ih =>
    rcases mem_codeNodes_iff.1 h with rfl | ⟨c, hc, hn⟩
    · exact List.mem_cons_self ..
    · refine List.mem_cons_of_mem _ (List.mem_flatMap.2 ⟨c, hc, ?_⟩)
      rw [offers_eq]
      exact List.mem_append_left _ (ih c hc hn)

/-- The code children have made all their offers before the end of the node. -/
theorem inside_mem_approach {t c : ParseTree} (hc : c ∈ t.codeChildren) :
    .inside c ∈ t.approach := by
  refine List.mem_cons_of_mem _ (List.mem_flatMap.2 ⟨c, hc, ?_⟩)
  rw [offers_eq]
  simp

/-! ## Where they place -/

/-- A comment beside a node is owned by the node, or by a definition that is its parent. -/
theorem owner_cases (parent : Option ParseTree) (t : ParseTree) :
    t.owner parent = t ∨ ∃ p, parent = some p ∧ p.isDefinition = true ∧ t.owner parent = p := by
  cases parent with
  | none => exact Or.inl rfl
  | some p =>
    by_cases hp : p.isDefinition = true
    · simp only [owner, hp, if_true]
      split
      · split
        · exact Or.inl rfl
        · exact Or.inr ⟨p, rfl, hp, rfl⟩
      · exact Or.inr ⟨p, rfl, hp, rfl⟩
    · exact Or.inl (by simp [owner, hp])

/-- An offer places on a node of the walk, or on the parent of the node that the walk starts
from. -/
theorem exists_target {parent : Option ParseTree} {t : ParseTree} {o : Offer}
    (h : o ∈ t.offers parent) :
    (∃ n ∈ t.codeNodes, o.target = n.id) ∨ ∃ p, parent = some p ∧ o.target = p.id := by
  obtain ⟨p, n, hn, rfl | rfl | rfl⟩ := mem_offers_iff.1 h
  · exact Or.inl ⟨n, hn.mem_codeNodes, rfl⟩
  · exact Or.inl ⟨n, hn.mem_codeNodes, rfl⟩
  · rcases owner_cases p n with he | ⟨q, rfl, -, he⟩
    · exact Or.inl ⟨n, hn.mem_codeNodes, congrArg id he⟩
    · rcases hn with ⟨hq, -⟩ | ⟨q', hq', hq, -⟩
      · exact Or.inr ⟨q, hq.symm, congrArg id he⟩
      · cases hq
        exact Or.inl ⟨q, hq', congrArg id he⟩

/-! ## Offers in preorder -/

/-- The node above which an offer is made. -/
def aboveNode? : Offer → Option ParseTree
  | .above n => some n
  | _ => none

/-- The offers to comments above stand in preorder. -/
theorem aboves_offers (parent : Option ParseTree) (t : ParseTree) :
    (t.offers parent).filterMap aboveNode? = t.codeNodes := by
  induction t using code_induction generalizing parent with
  | visit t ih =>
    have hbelow : (t.codeChildren.flatMap (offers (some t))).filterMap aboveNode?
        = t.codeChildren.flatMap codeNodes := by
      rw [List.filterMap_flatMap]
      exact List.flatMap_congr fun c hc => ih c hc (some t)
    rw [offers_eq, approach, codeNodes_eq, List.filterMap_append, List.filterMap_cons, hbelow]
    simp [aboveNode?]

/-! ## What has been refused before -/

/-- **What comes before the first offer that accepts.**  If it is made inside a node, everything
that was offered from the node down has been refused; if it is made beside a node, the offer inside
that node has been refused. -/
theorem first?_offers {excerpt : Excerpt} {parent : Option ParseTree} {t : ParseTree} {c : Comment}
    {o : Offer} (h : Offer.first? excerpt (t.offers parent) c = some o) :
    ∃ p n, IsVisit parent t p n ∧
      (o = .above n
        ∨ (o = .inside n ∧ ∀ o' ∈ n.approach, o'.accepts excerpt c = false)
        ∨ (o = .beside p n ∧ (Offer.inside n).accepts excerpt c = false)) := by
  induction t using code_induction generalizing parent with
  | visit t ih =>
    rw [Offer.first?, offers_eq, List.find?_append, Option.or_eq_some_iff] at h
    rcases h with h | ⟨hnone, h⟩
    · rw [approach, List.find?_cons] at h
      split at h
      · cases h
        exact ⟨parent, t, IsVisit.start parent t, Or.inl rfl⟩
      · rw [List.find?_flatMap] at h
        obtain ⟨child, hchild, h⟩ := List.exists_of_findSome?_eq_some h
        obtain ⟨p, n, hn, ho⟩ := ih child hchild h
        exact ⟨p, n, hn.below hchild, ho⟩
    · have hrefused : ∀ o' ∈ t.approach, o'.accepts excerpt c = false := by
        simpa using List.find?_eq_none.1 hnone
      rw [List.find?_cons] at h
      split at h
      · cases h
        exact ⟨parent, t, IsVisit.start parent t, Or.inr (Or.inl ⟨rfl, hrefused⟩)⟩
      · rename_i hinside
        have ho : o = .beside parent t := by simpa using List.mem_of_find?_eq_some h
        exact ⟨parent, t, IsVisit.start parent t, Or.inr (Or.inr ⟨ho, hinside⟩)⟩

/-- A comment that is first accepted above a node is accepted above no earlier one. -/
theorem find?_codeNodes_of_first? {excerpt : Excerpt} {parent : Option ParseTree}
    {t n : ParseTree} {c : Comment}
    (h : Offer.first? excerpt (t.offers parent) c = some (.above n)) :
    t.codeNodes.find? (fun m => (Offer.above m).accepts excerpt c) = some n := by
  obtain ⟨hn, before, after, hsplit, hbefore⟩ := List.find?_eq_some_iff_append.1 h
  rw [← aboves_offers parent t, hsplit, List.filterMap_append, List.filterMap_cons,
    List.find?_append]
  have hnone : (before.filterMap aboveNode?).find? (fun m => (Offer.above m).accepts excerpt c)
      = none := by
    rw [List.find?_eq_none]
    intro m hm
    obtain ⟨o, ho, hom⟩ := List.mem_filterMap.1 hm
    cases o with
    | above m' =>
      cases hom
      simpa using hbefore _ ho
    | inside m' => cases hom
    | beside p m' => cases hom
  rw [hnone]
  simp [aboveNode?, hn]

end ParseTree
end RubySource
