import RubySource.ParseTree.Verdict
import RubySource.Proofs.ParseTree.Lineage

/-!
# The two searches for a problem

A tree is searched for marks, and if it has none for stray keywords.  Both searches leave parts of
the tree out: the first looks into faulty children only, and goes back when one of them has nothing
to show; the second follows named children only and stops at identifiers.  Beside each of them
stands a search through the list of all nodes, which leaves nothing out and says of each node by
itself whether it is meant.

## What is here

* `Label.isMarked`, `hasError_iff` — **a tree is faulty exactly if one of its nodes is marked**.
* `firstProblem?_eq_find?` — **the search for a problem finds the first one of all nodes**.
* `isOpen`, `isNameIn`, `isStray` — whether a node with its lineage is read as a statement might be,
  holds a name, or is a stray keyword.
* `strayKeyword?_eq_find?` — **the search for a stray keyword finds the first one of all nodes**.
-/

set_option autoImplicit false

namespace RubySource
namespace ParseTree

/-! ## Marks -/

/-- Whether a node is marked: as a place of trouble, or because of something below it. -/
def Label.isMarked (l : Label) : Bool := l.isProblem || l.faultyBelow

theorem anyHasError_eq (ts : List ParseTree) : anyHasError ts = ts.any hasError := by
  induction ts with
  | nil => rfl
  | cons t ts ih => rw [anyHasError, ih, List.any_cons]

theorem hasError_eq (t : ParseTree) :
    t.hasError = (t.label.isMarked || t.children.any hasError) := by
  obtain ⟨label, children⟩ := t
  rw [hasError, anyHasError_eq]
  rfl

/-- **A tree is faulty exactly if one of its nodes is marked.** -/
theorem hasError_iff {t : ParseTree} :
    t.hasError = true ↔ ∃ n ∈ t.nodes, n.label.isMarked = true := by
  induction t using child_induction with
  | visit t ih =>
    rw [hasError_eq, Bool.or_eq_true, List.any_eq_true]
    constructor
    · rintro (ht | ⟨c, hc, he⟩)
      · exact ⟨t, self_mem_nodes t, ht⟩
      · obtain ⟨n, hn, hmark⟩ := (ih c hc).1 he
        exact ⟨n, mem_nodes_of_child hc hn, hmark⟩
    · rintro ⟨n, hn, hmark⟩
      rcases mem_nodes_iff.1 hn with rfl | ⟨c, hc, hn⟩
      · exact Or.inl hmark
      · exact Or.inr ⟨c, hc, (ih c hc).2 ⟨n, hn, hmark⟩⟩

theorem hasError_of_isProblem {t n : ParseTree} (hn : n ∈ t.nodes)
    (h : n.label.isProblem = true) : t.hasError = true :=
  hasError_iff.2 ⟨n, hn, by rw [Label.isMarked, h, Bool.true_or]⟩

/-- A faultless tree holds no problem. -/
theorem find?_problem_eq_none {t : ParseTree} (h : t.hasError = false) :
    t.nodes.find? (·.label.isProblem) = none := by
  refine List.find?_eq_none.2 fun n hn hproblem => ?_
  rw [hasError_of_isProblem hn hproblem] at h
  cases h

theorem firstProblemIn?_eq_find? {ts : List ParseTree}
    (h : ∀ t ∈ ts, t.firstProblem? = t.nodes.find? (·.label.isProblem)) :
    firstProblemIn? ts = (ts.flatMap nodes).find? (·.label.isProblem) := by
  induction ts with
  | nil => rfl
  | cons t ts ih =>
    have hhere : (if t.hasError then t.firstProblem? else none) =
        t.nodes.find? (·.label.isProblem) := by
      split
      · exact h t List.mem_cons_self
      · next he => rw [find?_problem_eq_none (by simpa using he)]
    rw [firstProblemIn?, hhere, ih fun u hu => h u (List.mem_cons_of_mem t hu),
      List.flatMap_cons, List.find?_append]
    cases t.nodes.find? (·.label.isProblem) <;> rfl

/-- **The search that looks into faulty children only finds what a search through all nodes
finds**: the first problem in preorder. -/
theorem firstProblem?_eq_find? (t : ParseTree) :
    t.firstProblem? = t.nodes.find? (·.label.isProblem) := by
  induction t using child_induction with
  | visit t ih =>
    have hopen : t.firstProblem? =
        if t.label.isProblem then some t else firstProblemIn? t.children := by
      cases t
      rfl
    rw [hopen, firstProblemIn?_eq_find? ih, nodes_eq, List.find?_cons]
    cases t.label.isProblem <;> rfl

/-! ## Stray keywords -/

/-- Whether the search for stray keywords gets to a node: it goes from a node to its named children,
and not beyond an identifier. -/
def isOpen : (above : List ParseTree) → ParseTree → Bool
  | [], _ => true
  | p :: above, n => n.label.named && p.type != "identifier" && isOpen above p

/-- Whether a node is the child in a field of its parent, for one of several types of parents with a
field each. -/
def isNameIn (places : List (String × String)) (above : List ParseTree) (n : ParseTree) : Bool :=
  match above with
  | [] => false
  | p :: _ => places.any fun place =>
      p.type == place.1 && (p.childInField? place.2).any fun m => m.id == n.id

/-- Where a method's name stands: at a call behind the point, and in a definition. -/
def methodPlaces : List (String × String) :=
  [("call", "method"), ("method", "name"), ("singleton_method", "name")]

/-- Whether a node is an identifier that reads as a reserved word. -/
def isReserved (source : Bytes) (n : ParseTree) : Bool :=
  n.type == "identifier" && reservedWords.contains (n.sourceText source)

/-- Whether a node with the nodes above it is a stray keyword. -/
def isStray (source : Bytes) (above : List ParseTree) (n : ParseTree) : Bool :=
  n.isOpen above && n.isReserved source && !n.isNameIn methodPlaces above

/-- Where no type has two fields, looking up the field of a type is trying all places. -/
theorem any_lookup_eq {places : List (String × String)} (h : (places.map Prod.fst).Nodup)
    (type : String) (holds : String → Bool) :
    (places.lookup type).any holds = places.any fun place => type == place.1 && holds place.2 := by
  induction places with
  | nil => rfl
  | cons place places ih =>
    rw [List.map_cons, List.nodup_cons] at h
    rw [List.lookup_cons, List.any_cons]
    by_cases htype : type = place.1
    · have hrest : (places.any fun place => type == place.1 && holds place.2) = false := by
        refine List.any_eq_false.2 fun other hother hsame => h.1 ?_
        have hother := List.mem_map_of_mem (f := Prod.fst) hother
        rw [Bool.and_eq_true, beq_iff_eq, htype] at hsame
        rwa [← hsame.1] at hother
      rw [hrest]
      simp [htype]
    · have hne : (type == place.1) = false := beq_eq_false_iff_ne.2 htype
      rw [hne, ih h.2]
      rfl

/-- What the search is told of the parent says whether a node holds a method's name. -/
theorem methodName?_bne_eq (above : List ParseTree) (n : ParseTree) :
    (above.head?.bind methodName? != some n.id) = !n.isNameIn methodPlaces above := by
  cases above with
  | nil => rfl
  | cons p above =>
    have hplaces := any_lookup_eq (show (methodPlaces.map Prod.fst).Nodup by decide) p.type
      fun field => (p.childInField? field).any fun m => m.id == n.id
    have hname : (p :: above).head?.bind methodName? =
        (methodPlaces.lookup p.type).bind fun field => (p.childInField? field).map id := rfl
    rw [isNameIn, ← hplaces, hname]
    cases methodPlaces.lookup p.type with
    | none => rfl
    | some field =>
      rw [Option.bind_some, Option.any_some]
      cases p.childInField? field <;> rfl

/-- Below a node that the search does not get to there is none that it gets to. -/
theorem isOpen_eq_false_of_mem {above : List ParseTree} {t : ParseTree}
    (h : t.isOpen above = false) {v : List ParseTree × ParseTree} (hv : v ∈ t.lineages above) :
    v.2.isOpen v.1 = false := by
  induction t using child_induction generalizing above with
  | visit t ih =>
    rcases mem_lineages_iff.1 hv with rfl | ⟨c, hc, hv⟩
    · exact h
    · exact ih c hc (by rw [isOpen, h, Bool.and_false]) hv

theorem find?_stray_eq_none {source : Bytes} {above : List ParseTree} {t : ParseTree}
    (h : t.isOpen above = false) :
    (t.lineages above).find? (fun v => v.2.isStray source v.1) = none := by
  refine List.find?_eq_none.2 fun v hv hstray => ?_
  rw [isStray, isOpen_eq_false_of_mem h hv] at hstray
  cases hstray

theorem strayKeywordIn?_eq_find? {source : Bytes} {above : List ParseTree} {name : Option Nat}
    {ts : List ParseTree}
    (h : ∀ t ∈ ts, (if t.label.named then t.strayKeyword? source name else none) =
      ((t.lineages above).find? fun v => v.2.isStray source v.1).map Prod.snd) :
    strayKeywordIn? source name ts =
      ((ts.flatMap (lineages above)).find? fun v => v.2.isStray source v.1).map Prod.snd := by
  induction ts with
  | nil => rfl
  | cons t ts ih =>
    rw [strayKeywordIn?, h t List.mem_cons_self, ih fun u hu => h u (List.mem_cons_of_mem t hu),
      List.flatMap_cons, List.find?_append]
    cases (t.lineages above).find? (fun v => v.2.isStray source v.1) <;> rfl

/-- **The search that follows named children and stops at identifiers finds what a search through
all nodes finds**: the first stray keyword in preorder. -/
theorem strayKeyword?_eq_find? (source : Bytes) {above : List ParseTree} {t : ParseTree}
    (h : t.isOpen above = true) :
    t.strayKeyword? source (above.head?.bind methodName?) =
      ((t.lineages above).find? fun v => v.2.isStray source v.1).map Prod.snd := by
  induction t using child_induction generalizing above with
  | visit t ih =>
    have hopen : t.strayKeyword? source (above.head?.bind methodName?) =
        if t.type == "identifier" then
          if reservedWords.contains (t.sourceText source) &&
            above.head?.bind methodName? != some t.id then some t else none
        else strayKeywordIn? source t.methodName? t.children := by
      cases t
      rfl
    rw [hopen, methodName?_bne_eq, lineages_eq, List.find?_cons]
    by_cases hid : t.type == "identifier"
    · have hbelow : (t.children.flatMap (lineages (t :: above))).find?
          (fun v => v.2.isStray source v.1) = none := by
        rw [List.find?_flatMap]
        refine List.findSome?_eq_none_iff.2 fun c hc => find?_stray_eq_none ?_
        simp [isOpen, beq_iff_eq.1 hid]
      have hstray : t.isStray source above =
          (reservedWords.contains (t.sourceText source) && !t.isNameIn methodPlaces above) := by
        rw [isStray, h, isReserved, hid, Bool.true_and, Bool.true_and]
      rw [hbelow, hstray, if_pos hid]
      cases reservedWords.contains (t.sourceText source) && !t.isNameIn methodPlaces above <;> rfl
    · have hstray : t.isStray source above = false := by
        simp [isStray, isReserved, hid]
      rw [hstray, if_neg hid]
      refine strayKeywordIn?_eq_find? fun c hc => ?_
      split
      · next hnamed =>
        have hreached : c.isOpen (t :: above) = true := by
          rw [isOpen, hnamed, h]
          simpa using hid
        exact ih c hc hreached
      · next hnamed =>
        have hclosed : c.isOpen (t :: above) = false := by simp [isOpen, hnamed]
        rw [find?_stray_eq_none hclosed]
        rfl

end ParseTree
end RubySource
