import RubySource.Proofs.Comment.Layout

/-!
# Placement and place

Placing is a matter of events and of a queue; what a reader of the source sees is places.  In a tree
whose nodes lie properly in one another, and with comments that no node cuts, the two agree: a
comment stands above the node it is placed on, or in it, or beside its end, and never in more than
one of these ways.

The header of a definition is why this needs an argument.  A comment beside a part of the header is
placed on the definition, although the definition has not made its offers yet; it is in the
definition nevertheless, or else beside its end, because the definition cannot end within it.

## What is here

* `WellNested`, `RowsInOrder`, `Laid` — how a tree and its comments lie in a source.
* `StandsAbove`, `StandsIn`, `StandsBeside` — the three ways to stand to a node;
  `stands_exclusive` says that no two go together.
* `exists_above_of_filled` — where no wrapper is empty, something below each node makes an offer to
  the comments above it.
* `stands_of_first?` — the first offer that accepts a comment tells how it stands.
* `stands_of_mem_associate` — **placement is sound**: a comment stands in exactly one of the three
  ways to the node it is placed on.
-/

set_option autoImplicit false

namespace RubySource

/-! ## How things lie -/

/-- The ends of a span, each with its row. -/
def Span.ends (s : Span) : List (Nat × Nat) :=
  [(s.startByte, s.start.row), (s.stopByte, s.stop.row)]

namespace ParseTree

/-- The code nodes lie properly in one another. -/
structure WellNested (t : ParseTree) : Prop where
  /-- No node ends before it starts. -/
  forward : ∀ n ∈ t.codeNodes, n.startByte ≤ n.stopByte
  /-- A child lies in its parent. -/
  nested : ∀ n ∈ t.codeNodes, ∀ c ∈ n.codeChildren,
    n.startByte ≤ c.startByte ∧ c.stopByte ≤ n.stopByte
  /-- Siblings follow one another. -/
  ordered : ∀ n ∈ t.codeNodes, n.codeChildren.Pairwise fun a b => a.stopByte ≤ b.startByte

/-- Every wrapper wraps something. -/
def WrappersFilled (t : ParseTree) : Prop :=
  ∀ n ∈ t.codeNodes, n.isWrapper = true → n.codeChildren ≠ []

instance (t : ParseTree) : Decidable t.WrappersFilled :=
  inferInstanceAs (Decidable (∀ n ∈ t.codeNodes, _))

/-- The ends of all code nodes and comments. -/
def ends (t : ParseTree) (comments : List Comment) : List (Nat × Nat) :=
  t.codeNodes.flatMap (·.span.ends) ++ comments.flatMap (·.span.ends)

/-- Rows go up with places. -/
def RowsInOrder (t : ParseTree) (comments : List Comment) : Prop :=
  ∀ a ∈ t.ends comments, ∀ b ∈ t.ends comments, a.1 ≤ b.1 → a.2 ≤ b.2

instance (t : ParseTree) (comments : List Comment) : Decidable (t.RowsInOrder comments) :=
  inferInstanceAs (Decidable (∀ a ∈ t.ends comments, _))

/-- A tree and its comments, as they lie in a source. -/
structure Laid (source : Bytes) (t : ParseTree) (comments : List Comment) : Prop where
  wellNested : t.WellNested
  rows : t.RowsInOrder comments
  tidy : Tidy source t comments
  /-- No node starts or ends strictly within a comment. -/
  uncut : ∀ n ∈ t.codeNodes, ∀ c ∈ comments, ¬ Cuts n.startByte c ∧ ¬ Cuts n.stopByte c

namespace WellNested

variable {t : ParseTree}

/-- What lies properly in one another in a tree does so from each of its nodes down. -/
theorem of_mem (h : t.WellNested) {n : ParseTree} (hn : n ∈ t.codeNodes) : n.WellNested :=
  ⟨fun m hm => h.forward m (mem_codeNodes_trans hn hm),
   fun m hm => h.nested m (mem_codeNodes_trans hn hm),
   fun m hm => h.ordered m (mem_codeNodes_trans hn hm)⟩

/-- All nodes lie in the tree. -/
theorem within (h : t.WellNested) {n : ParseTree} (hn : n ∈ t.codeNodes) :
    t.startByte ≤ n.startByte ∧ n.stopByte ≤ t.stopByte := by
  induction t using code_induction with
  | visit t ih =>
    rcases mem_codeNodes_iff.1 hn with rfl | ⟨c, hc, hn⟩
    · exact ⟨Nat.le_refl _, Nat.le_refl _⟩
    · have hin := h.nested t (self_mem_codeNodes t) c hc
      have hbelow := ih c hc (h.of_mem (mem_codeNodes_of_child hc (self_mem_codeNodes c))) hn
      exact ⟨Nat.le_trans hin.1 hbelow.1, Nat.le_trans hbelow.2 hin.2⟩

theorem start_le_stop (h : t.WellNested) {n : ParseTree} (hn : n ∈ t.codeNodes) :
    t.startByte ≤ n.stopByte :=
  Nat.le_trans (h.within hn).1 (h.forward n hn)

end WellNested

/-- Where no wrapper is empty, some node at or below each node makes an offer to comments above it,
and starts no earlier. -/
theorem exists_above_of_filled {t n : ParseTree} (h : t.WellNested) (hfilled : t.WrappersFilled)
    (hn : n ∈ t.codeNodes) :
    ∃ m ∈ n.codeNodes, m.isWrapper = false ∧ n.startByte ≤ m.startByte := by
  induction n using code_induction with
  | visit n ih =>
    by_cases hw : n.isWrapper = true
    · obtain ⟨c, hc⟩ := List.exists_mem_of_ne_nil _ (hfilled n hn hw)
      obtain ⟨m, hm, hmw, hle⟩ := ih c hc (codeChild_mem_codeNodes hn hc)
      exact ⟨m, mem_codeNodes_of_child hc hm, hmw, Nat.le_trans (h.nested n hn c hc).1 hle⟩
    · exact ⟨n, self_mem_codeNodes n, by simpa using hw, Nat.le_refl _⟩

theorem stop_mem_ends {t n : ParseTree} {comments : List Comment} (hn : n ∈ t.codeNodes) :
    (n.stopByte, n.span.stop.row) ∈ t.ends comments :=
  List.mem_append_left _ (List.mem_flatMap.2 ⟨n, hn, by simp [Span.ends, stopByte]⟩)

theorem node_start_mem_ends {t n : ParseTree} {comments : List Comment} (hn : n ∈ t.codeNodes) :
    (n.startByte, n.span.start.row) ∈ t.ends comments :=
  List.mem_append_left _ (List.mem_flatMap.2 ⟨n, hn, by simp [Span.ends, startByte]⟩)

theorem start_mem_ends {t : ParseTree} {c : Comment} {comments : List Comment}
    (hc : c ∈ comments) : (c.startByte, c.span.start.row) ∈ t.ends comments :=
  List.mem_append_right _ (List.mem_flatMap.2 ⟨c, hc, by simp [Span.ends, Comment.startByte]⟩)

/-! ## The three ways to stand to a node -/

/-- A comment ends before a node starts, and the node is the first one that could be said of,
wrappers left out. -/
def StandsAbove (t n : ParseTree) (c : Comment) : Prop :=
  c.stopByte ≤ n.startByte ∧ n.isWrapper = false ∧
    t.codeNodes.find? (fun m => !m.isWrapper && decide (c.stopByte ≤ m.startByte)) = some n

/-- A comment lies in a node and, unless the node is a definition, in none of its children. -/
def StandsIn (n : ParseTree) (c : Comment) : Prop :=
  n.startByte ≤ c.startByte ∧ c.stopByte ≤ n.stopByte ∧
    (n.isDefinition = false →
      ∀ m ∈ n.codeChildren, ¬ (m.startByte ≤ c.startByte ∧ c.stopByte ≤ m.stopByte))

/-- A comment starts behind a node on its last row, with only blanks in between. -/
def StandsBeside (source : Bytes) (n : ParseTree) (c : Comment) : Prop :=
  n.stopByte ≤ c.startByte ∧ c.span.start.row = n.span.stop.row ∧
    Text.allBlank (Bytes.slice source n.stopByte c.startByte) = true

/-- No two ways to stand to a node go together. -/
theorem stands_exclusive (source : Bytes) (t : ParseTree) {n : ParseTree} {c : Comment}
    (hn : n.startByte ≤ n.stopByte) (hc : c.startByte < c.stopByte) :
    ¬ (StandsAbove t n c ∧ StandsIn n c) ∧ ¬ (StandsAbove t n c ∧ StandsBeside source n c) ∧
      ¬ (StandsIn n c ∧ StandsBeside source n c) := by
  refine ⟨?_, ?_, ?_⟩
  · rintro ⟨⟨habove, -⟩, ⟨hin, -⟩⟩
    omega
  · rintro ⟨⟨habove, -⟩, ⟨hbeside, -⟩⟩
    omega
  · rintro ⟨⟨-, hin, -⟩, ⟨hbeside, -⟩⟩
    omega

/-! ## How the first offer tells -/

section FirstOffer

variable {source : Bytes} {t n : ParseTree} {comments : List Comment} {c : Comment}

theorem standsAbove_of_first? {parent : Option ParseTree}
    (h : Offer.first? ⟨t.text source, t.startByte⟩ (t.offers parent) c = some (.above n)) :
    StandsAbove t n c := by
  have hfind := find?_codeNodes_of_first? h
  have hn := List.find?_some hfind
  simp only [Offer.accepts, Bool.and_eq_true, Bool.not_eq_true', decide_eq_true_eq] at hn
  exact ⟨hn.2, hn.1, hfind⟩

/-- What an offer inside a node accepts after all others from that node down have refused it lies in
the node. -/
theorem standsIn_of_refused (h : t.Laid source comments) (hfilled : t.WrappersFilled)
    (hn : n ∈ t.codeNodes) (hc : c ∈ comments) {excerpt : Excerpt}
    (haccepts : (Offer.inside n).accepts excerpt c = true)
    (hrefused : ∀ o ∈ n.approach, o.accepts excerpt c = false) : StandsIn n c := by
  have hstop : c.stopByte ≤ n.stopByte := by simpa [Offer.accepts] using haccepts
  have hnotAbove : n.startByte < c.stopByte := by
    obtain ⟨m, hm, hmw, hle⟩ := exists_above_of_filled h.wellNested hfilled hn
    have hmc := hrefused _ (above_mem_approach hm)
    simp only [Offer.accepts, hmw, Bool.not_false, Bool.true_and, decide_eq_false_iff_not] at hmc
    omega
  have hstart : n.startByte ≤ c.startByte := by
    by_contra hlt
    exact (h.uncut n hn c hc).1 ⟨by omega, hnotAbove⟩
  refine ⟨hstart, hstop, fun _ m hm hin => ?_⟩
  have hmc := hrefused _ (inside_mem_approach hm)
  simp only [Offer.accepts, decide_eq_false_iff_not] at hmc
  exact hmc hin.2

/-- A comment beside a part of a definition's header lies in the definition or beside its end. -/
theorem standsIn_or_beside_of_header (h : t.Laid source comments) {q : ParseTree}
    (hq : q ∈ t.codeNodes) (hdef : q.isDefinition = true) (hnq : n ∈ q.codeChildren)
    (hc : c ∈ comments) (hbeside : StandsBeside source n c) :
    StandsIn q c ∨ StandsBeside source q c := by
  obtain ⟨hafter, hrow, hblank⟩ := hbeside
  have hn : n ∈ t.codeNodes := codeChild_mem_codeNodes hq hnq
  have hin := h.wellNested.nested q hq n hnq
  have hforward := h.wellNested.forward n hn
  by_cases hstop : c.stopByte ≤ q.stopByte
  · refine Or.inl ⟨by omega, hstop, fun hnot => ?_⟩
    rw [hdef] at hnot
    cases hnot
  · -- the definition ends between its part and the comment, in the gap and so on the same row
    have hend : q.stopByte ≤ c.startByte := by
      by_contra hlt
      exact (h.uncut q hq c hc).2 ⟨by omega, by omega⟩
    have hrow₁ := h.rows _ (stop_mem_ends hn) _ (stop_mem_ends hq) hin.2
    have hrow₂ := h.rows _ (stop_mem_ends hq) _ (start_mem_ends hc) hend
    exact Or.inr ⟨hend, by simp only at hrow₁ hrow₂; omega,
      Bytes.allBlank_slice source hin.2 (Nat.le_refl c.startByte) hblank⟩

theorem stands_of_beside (h : t.Laid source comments) {p : Option ParseTree}
    (hvisit : IsVisit none t p n) (hc : c ∈ comments)
    (haccepts : (Offer.beside p n).accepts ⟨t.text source, t.startByte⟩ c = true)
    (hrefused : (Offer.inside n).accepts ⟨t.text source, t.startByte⟩ c = false) :
    ∃ m ∈ t.codeNodes, n.owner p = m ∧ (StandsIn m c ∨ StandsBeside source m c) := by
  have hn := hvisit.mem_codeNodes
  have hout : n.stopByte < c.stopByte := by simpa [Offer.accepts] using hrefused
  have hafter : n.stopByte ≤ c.startByte := by
    by_contra hlt
    exact (h.uncut n hn c hc).2 ⟨by omega, hout⟩
  have hwithin := h.tidy.within c hc
  have hgap := Excerpt.between_of_le source (h.wellNested.start_le_stop hn) hwithin.1
    (Nat.le_trans (Nat.le_of_lt (h.tidy.nonempty c hc)) hwithin.2)
  simp only [Offer.accepts, isBeside, hgap, Bool.and_eq_true, beq_iff_eq] at haccepts
  have hbeside : StandsBeside source n c := ⟨hafter, haccepts.2.1, haccepts.2.2⟩
  rcases owner_cases p n with he | ⟨q, rfl, hdef, he⟩
  · exact ⟨n, hn, he, Or.inr hbeside⟩
  · rcases hvisit with ⟨hq, -⟩ | ⟨q', hq', hqq, hnq⟩
    · cases hq
    · cases hqq
      exact ⟨q, hq', he, standsIn_or_beside_of_header h hq' hdef hnq hc hbeside⟩

/-- The first offer that accepts a comment tells how the comment stands. -/
theorem stands_of_first? (h : t.Laid source comments) (hfilled : t.WrappersFilled)
    (hc : c ∈ comments) {o : Offer}
    (ho : Offer.first? ⟨t.text source, t.startByte⟩ (t.offers none) c = some o) :
    ∃ m ∈ t.codeNodes, o.target = m.id ∧
      (StandsAbove t m c ∨ StandsIn m c ∨ StandsBeside source m c) := by
  have haccepts : o.accepts ⟨t.text source, t.startByte⟩ c = true :=
    List.find?_some (p := fun o : Offer => o.accepts ⟨t.text source, t.startByte⟩ c) ho
  obtain ⟨p, m, hvisit, rfl | ⟨rfl, hrefused⟩ | ⟨rfl, hrefused⟩⟩ := first?_offers ho
  · exact ⟨m, hvisit.mem_codeNodes, rfl, Or.inl (standsAbove_of_first? ho)⟩
  · exact ⟨m, hvisit.mem_codeNodes, rfl,
      Or.inr (Or.inl (standsIn_of_refused h hfilled hvisit.mem_codeNodes hc haccepts hrefused))⟩
  · obtain ⟨q, hq, he, hstands⟩ := stands_of_beside h hvisit hc haccepts hrefused
    exact ⟨q, hq, congrArg id he, Or.inr hstands⟩

end FirstOffer

end ParseTree

open ParseTree

/-- **Placement is sound.**  In a well-nested tree without empty wrappers, whose comments are tidy
and not cut by any node, a comment stands to the node it is placed on in exactly one of three ways:
above it, and then the node is the first that starts behind the comment; in it; or beside its end.
And it is only ever placed on nodes of the walk. -/
theorem stands_of_mem_associate {source : Bytes} {root : ParseTree} {comments : List Comment}
    (hids : (root.nodes.map ParseTree.id).Nodup) (h : root.Laid source comments)
    (hfilled : root.WrappersFilled) :
    (∀ node, (associate source none root comments).get node ≠ [] →
        ∃ n ∈ root.codeNodes, n.id = node) ∧
      ∀ n ∈ root.codeNodes, ∀ c ∈ (associate source none root comments).get n.id,
        (StandsAbove root n c ∧ ¬ StandsIn n c ∧ ¬ StandsBeside source n c) ∨
          (¬ StandsAbove root n c ∧ StandsIn n c ∧ ¬ StandsBeside source n c) ∨
            (¬ StandsAbove root n c ∧ ¬ StandsIn n c ∧ StandsBeside source n c) := by
  have hturn := inTurn_of_tidy h.tidy none (fun n hn => h.wellNested.start_le_stop hn)
    fun n hn c hc => (h.uncut n hn c hc).2
  constructor
  · intro node hne
    obtain ⟨c, hc⟩ := List.exists_mem_of_ne_nil _ hne
    obtain ⟨hmem, o, rfl, ho⟩ := exists_first?_of_mem_get hturn hc
    obtain ⟨n, hn, he, -⟩ := stands_of_first? h hfilled hmem ho
    exact ⟨n, hn, he.symm⟩
  · intro n hn c hc
    obtain ⟨hmem, o, htarget, ho⟩ := exists_first?_of_mem_get hturn hc
    obtain ⟨m, hm, he, hstands⟩ := stands_of_first? h hfilled hmem ho
    obtain rfl : m = n := eq_of_id_eq (nodup_codeNodes_ids hids) hm hn (he.symm.trans htarget)
    have hexclusive := stands_exclusive source root (h.wellNested.forward m hm)
      (h.tidy.nonempty c hmem)
    tauto

theorem Sample.laid : Sample.tree.Laid Sample.source Sample.comments :=
  ⟨⟨by decide, by decide, by decide⟩, by decide, Sample.tidy, by decide⟩

/-- In the small source the last comment stands beside the method, and in no other way to it. -/
theorem stands_sample :
    Sample.tree.Laid Sample.source Sample.comments ∧
      Sample.beside ∈ (associate Sample.source none Sample.tree Sample.comments).get 8 ∧
        ¬ StandsAbove Sample.tree Sample.method Sample.beside ∧
          ¬ StandsIn Sample.method Sample.beside ∧
            StandsBeside Sample.source Sample.method Sample.beside := by
  have hget : Sample.beside
      ∈ (associate Sample.source none Sample.tree Sample.comments).get Sample.method.id := by
    rw [Sample.get_method]
    decide
  have hmethod : Sample.tree.codeNodes[4]? = some Sample.method := rfl
  refine ⟨Sample.laid, hget, ?_⟩
  have h := (stands_of_mem_associate (by decide) Sample.laid (by decide)).2 _
    (List.mem_of_getElem? hmethod) _ hget
  rcases h with ⟨⟨hle, -⟩, -⟩ | ⟨-, ⟨-, hle, -⟩, -⟩ | h
  · exact absurd hle (by decide)
  · exact absurd hle (by decide)
  · exact h

end RubySource
