import RubySource.Proofs.ParseTree.Verdict

/-!
# Reserved words as names

A reserved word is a keyword unless it stands where a name is read.  The check of a tree knows the
names of methods.  More than these is read as a name: in `def next=(v)` the word `next` names a
setter, and in `def m(if:)` the word `if` names a keyword parameter.  Both are refused.

## What is here

* `isName` — whether a node stands where a name is read.
* `isNameIn_methodPlaces_eq_false_iff` — the names that the check does not know.
* `accepted_iff_of_names` — **a tree without marks, with reserved words as names only, is accepted
  exactly if none of them names a setter or a keyword parameter**; `accepted_method_name` is a case
  of this.
* `names_refused` — the two names that are refused.
-/

set_option autoImplicit false

namespace RubySource
namespace ParseTree

/-! ## Names -/

/-- Where the name of a definition stands. -/
def definitionPlaces : List (String × String) :=
  [("method", "name"), ("singleton_method", "name")]

/-- Where the name of a setter stands, `next` in `next=`. -/
def setterPlaces : List (String × String) := [("setter", "name")]

/-- Where the name of a keyword parameter stands. -/
def parameterPlaces : List (String × String) := [("keyword_parameter", "name")]

/-- Whether a node with the nodes above it is the name of the setter that a definition is named
by. -/
def isSetterName : (above : List ParseTree) → ParseTree → Bool
  | [], _ => false
  | p :: above, n => n.isNameIn setterPlaces (p :: above) && p.isNameIn definitionPlaces above

/-- Whether a node with the nodes above it stands where a name is read. -/
def isName (above : List ParseTree) (n : ParseTree) : Bool :=
  n.isNameIn methodPlaces above || n.isSetterName above || n.isNameIn parameterPlaces above

/-- Places with no type of parent in common hold no node in common. -/
theorem isNameIn_eq_false_of_disjoint {places others : List (String × String)}
    (hdisjoint : ∀ type ∈ places.map Prod.fst, type ∉ others.map Prod.fst)
    {above : List ParseTree} {n : ParseTree} (h : n.isNameIn places above = true) :
    n.isNameIn others above = false := by
  cases above with
  | nil => rfl
  | cons p above =>
    obtain ⟨place, hplace, hhere⟩ := List.any_eq_true.1 h
    rw [Bool.and_eq_true, beq_iff_eq] at hhere
    refine List.any_eq_false.2 fun other hother hthere => ?_
    rw [Bool.and_eq_true, beq_iff_eq] at hthere
    have hmem := List.mem_map_of_mem (f := Prod.fst) hplace
    have hmem' := List.mem_map_of_mem (f := Prod.fst) hother
    rw [← hhere.1] at hmem
    rw [← hthere.1] at hmem'
    exact hdisjoint p.type hmem hmem'

/-- A name is no method's name exactly if it is that of a setter or of a keyword parameter. -/
theorem isNameIn_methodPlaces_eq_false_iff {above : List ParseTree} {n : ParseTree}
    (h : n.isName above = true) :
    n.isNameIn methodPlaces above = false ↔
      n.isNameIn setterPlaces above = true ∨ n.isNameIn parameterPlaces above = true := by
  constructor
  · intro hmethod
    rw [isName, hmethod, Bool.false_or, Bool.or_eq_true] at h
    refine h.imp_left fun hsetter => ?_
    cases above with
    | nil => cases hsetter
    | cons p above => exact (Bool.and_eq_true_iff.1 hsetter).1
  · rintro (hsetter | hparameter)
    · exact isNameIn_eq_false_of_disjoint (by decide) hsetter
    · exact isNameIn_eq_false_of_disjoint (by decide) hparameter

/-- **Reserved words as names.**  Take a tree without marks in which identifiers read as reserved
words only where a name is read.  It is accepted, with its code and its comments, exactly if none of
these that the search gets to is the name of a setter or of a keyword parameter. -/
theorem accepted_iff_of_names {text : String} {root : ParseTree} (origin : String)
    (hmark : ∀ n ∈ root.nodes, n.label.isMarked = false)
    (hnames : ∀ v ∈ root.lineages [], v.2.isReserved (Utf8.ofString text) = true →
      v.2.isName v.1 = true) :
    root.verdict text origin =
        .ok ⟨if root.hasCode then some root else none, root.comments (Utf8.ofString text)⟩ ↔
      ∀ v ∈ root.lineages [], v.2.isReserved (Utf8.ofString text) = true →
        v.2.isOpen v.1 = true →
          v.2.isNameIn setterPlaces v.1 = false ∧ v.2.isNameIn parameterPlaces v.1 = false := by
  have hunmarked : ¬ ∃ n ∈ root.nodes, n.label.isMarked = true := by
    rintro ⟨n, hn, hmarked⟩
    rw [hmark n hn] at hmarked
    cases hmarked
  rw [verdict_eq_ok_iff, ← not_exists, exists_isReported_iff]
  simp only [hunmarked, false_or, and_true, not_exists, not_and]
  refine forall₂_congr fun v hv => ?_
  rw [isStray, Bool.and_eq_true, Bool.and_eq_true, Bool.not_eq_true']
  constructor
  · intro hstray hreserved hopen
    have hmethod := fun hnot => hstray ⟨⟨hopen, hreserved⟩, hnot⟩
    rw [isNameIn_methodPlaces_eq_false_iff (hnames v hv hreserved), imp_false, not_or,
      Bool.not_eq_true, Bool.not_eq_true] at hmethod
    exact hmethod
  · rintro hothers ⟨⟨hopen, hreserved⟩, hnot⟩
    obtain ⟨hsetter, hparameter⟩ := hothers hreserved hopen
    rw [isNameIn_methodPlaces_eq_false_iff (hnames v hv hreserved), hsetter, hparameter] at hnot
    simp at hnot

namespace Naming

def node (id : Nat) (type : String) (named : Bool) (field : Option String) (start stop : Nat)
    (children : List ParseTree) : ParseTree :=
  .node ⟨id, type, named, false, false, false, field, ⟨start, stop, ⟨0, start⟩, ⟨0, stop⟩⟩⟩ children

/-- The parse tree of `def end; end`. -/
def method : ParseTree :=
  node 0 "program" true none 0 12
    [node 1 "method" true none 0 12
      [node 2 "def" false none 0 3 [],
        node 3 "identifier" true (some "name") 4 7 [],
        node 4 ";" false none 7 8 [],
        node 5 "end" false none 9 12 []]]

/-- The parse tree of `def m(if:); end`. -/
def parameter : ParseTree :=
  node 0 "program" true none 0 15
    [node 1 "method" true none 0 15
      [node 2 "def" false none 0 3 [],
        node 3 "identifier" true (some "name") 4 5 [],
        node 4 "method_parameters" true (some "parameters") 5 10
          [node 5 "(" false none 5 6 [],
            node 6 "keyword_parameter" true none 6 9
              [node 7 "identifier" true (some "name") 6 8 [],
                node 8 ":" false none 8 9 []],
            node 9 ")" false none 9 10 []],
        node 10 ";" false none 10 11 [],
        node 11 "end" false none 12 15 []]]

/-- The parse tree of `def next=(v); end`. -/
def setter : ParseTree :=
  node 0 "program" true none 0 17
    [node 1 "method" true none 0 17
      [node 2 "def" false none 0 3 [],
        node 3 "setter" true (some "name") 4 9
          [node 4 "identifier" true (some "name") 4 8 [],
            node 5 "=" false none 8 9 []],
        node 6 "method_parameters" true (some "parameters") 9 12
          [node 7 "(" false none 9 10 [],
            node 8 "identifier" true none 10 11 [],
            node 9 ")" false none 11 12 []],
        node 10 ";" false none 12 13 [],
        node 11 "end" false none 14 17 []]]

end Naming

/-- A method may be named by a reserved word. -/
theorem accepted_method_name :
    Naming.method.verdict "def end; end" "string" = .ok ⟨some Naming.method, []⟩ :=
  (accepted_iff_of_names "string" (by decide) (by decide)).2 (by decide)

/-- **A setter and a keyword parameter may not be named by reserved words**, although they stand
where names are read. -/
theorem names_refused :
    ((∀ n ∈ Naming.parameter.nodes, n.label.isMarked = false) ∧
      (∀ v ∈ Naming.parameter.lineages [],
        v.2.isReserved (Utf8.ofString "def m(if:); end") = true → v.2.isName v.1 = true) ∧
      ∃ report, Naming.parameter.verdict "def m(if:); end" "string" = .error report) ∧
    (∀ n ∈ Naming.setter.nodes, n.label.isMarked = false) ∧
      (∀ v ∈ Naming.setter.lineages [],
        v.2.isReserved (Utf8.ofString "def next=(v); end") = true → v.2.isName v.1 = true) ∧
      ∃ report, Naming.setter.verdict "def next=(v); end" "string" = .error report := by
  refine ⟨⟨by decide, by decide, ?_⟩, by decide, by decide, ?_⟩
  · exact exists_refusal_iff.2 (Or.inr (by decide))
  · exact exists_refusal_iff.2 (Or.inr (by decide))

end ParseTree
end RubySource
