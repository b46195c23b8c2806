import RubySource.Proofs.Comment.Visit
import RubySource.Text.Utf8

/-!
# Where comments lie

Nothing in the placing of comments asks their places to make sense.  What can be said of a single
comment needs that they do: comments are stretches of visible text that do not overlap, and no node
ends within one.  This file says so, and draws the one conclusion on which everything else rests:
such comments never get into each other's way.

## What is here

* `Bytes.slice_slice`, `Bytes.slice_sublist`, `Bytes.allBlank_slice` — slices of slices, slices
  within slices, and slices within blanks.
* `Excerpt.between_of_le` — within the visited tree an excerpt is the source.
* `Tidy` — what comments are like in a source; `Tidy.waiting_apart` says that they wait one behind
  the other.
* `Cuts` — a place strictly within a comment.
* `Tidy.not_beside_of_between` — **a visible comment spoils the gap**: a comment beyond another one
  is not beside the node in front of both.
* `inTurn_of_tidy` — comments like these are always in turn.
* `Sample` — a small source with comments of all sorts.
-/

set_option autoImplicit false

namespace RubySource

/-! ## Slices -/

namespace Bytes

/-- A slice of a slice is a slice, as long as it does not reach beyond. -/
theorem slice_slice (bytes : Bytes) {start stop a b : Nat} (ha : start ≤ a) (hb : b ≤ stop) :
    slice (slice bytes start stop) (a - start) (b - start) = slice bytes a b := by
  have hdrop : start + (a - start) = a := by omega
  have htake : min (b - start - (a - start)) (stop - start - (a - start)) = b - a := by omega
  rw [slice, slice, slice, List.drop_take, List.take_take, List.drop_drop, hdrop, htake]

/-- A slice within another one is a part of it. -/
theorem slice_sublist (bytes : Bytes) {a b c d : Nat} (hab : a ≤ b) (hcd : c ≤ d) :
    (slice bytes b c).Sublist (slice bytes a d) := by
  have h := slice_slice bytes hab hcd
  rw [← h, slice]
  exact (List.take_sublist _ _).trans (List.drop_sublist _ _)

/-- What lies within blanks is blank. -/
theorem allBlank_slice (bytes : Bytes) {a b c d : Nat} (hab : a ≤ b) (hcd : c ≤ d)
    (h : Text.allBlank (slice bytes a d) = true) : Text.allBlank (slice bytes b c) = true := by
  rw [Text.allBlank, List.all_eq_true] at h ⊢
  exact fun x hx => h x ((slice_sublist bytes hab hcd).subset hx)

end Bytes

/-- Within the visited tree an excerpt is the source. -/
theorem Excerpt.between_of_le (source : Bytes) {t : ParseTree} {a b : Nat} (ha : t.startByte ≤ a)
    (hb : t.startByte ≤ b) (hstop : b ≤ t.stopByte) :
    (⟨t.text source, t.startByte⟩ : Excerpt).between a b = Bytes.slice source a b := by
  have ha' : (a : Int) - t.startByte = (a - t.startByte : Nat) := by omega
  have hb' : (b : Int) - t.startByte = (b - t.startByte : Nat) := by omega
  rw [Excerpt.between, ha', hb', Bytes.sliceAround_natCast]
  exact Bytes.slice_slice source ha hstop

/-! ## Comments in a source -/

/-- A place lies strictly within a comment. -/
def Cuts (place : Nat) (c : Comment) : Prop := c.startByte < place ∧ place < c.stopByte

instance (place : Nat) (c : Comment) : Decidable (Cuts place c) :=
  inferInstanceAs (Decidable (_ ∧ _))

/-- The comments of a tree are visible stretches of the source that do not overlap. -/
structure Tidy (source : Bytes) (t : ParseTree) (comments : List Comment) : Prop where
  /-- No comment is empty. -/
  nonempty : ∀ c ∈ comments, c.startByte < c.stopByte
  /-- No two comments overlap. -/
  apart : comments.Pairwise fun c d => c.stopByte ≤ d.startByte ∨ d.stopByte ≤ c.startByte
  /-- All comments lie in the tree. -/
  within : ∀ c ∈ comments, t.startByte ≤ c.startByte ∧ c.stopByte ≤ t.stopByte
  /-- Every comment shows something. -/
  visible : ∀ c ∈ comments, Text.allBlank (Bytes.slice source c.startByte c.stopByte) = false

namespace Tidy

variable {source : Bytes} {t : ParseTree} {comments : List Comment}

/-- Comments that do not overlap wait one behind the other. -/
theorem waiting_apart (h : Tidy source t comments) :
    (waiting comments).Pairwise fun c d => c.stopByte ≤ d.startByte := by
  have hapart : (waiting comments).Pairwise
      fun c d => c.stopByte ≤ d.startByte ∨ d.stopByte ≤ c.startByte :=
    (((inSourceOrder_perm comments).pairwise_iff fun h => h.symm).2 h.apart).sublist
      (waiting_sublist comments)
  refine (hapart.and (waiting_sorted comments)).imp_of_mem fun {c d} _ hd hcd => ?_
  have hne := h.nonempty d (mem_of_mem_waiting hd)
  rcases hcd with ⟨hcd | hdc, hsorted⟩
  · exact hcd
  · omega

/-- **A visible comment spoils the gap.**  A comment that lies beyond another one is not beside a
node in front of both. -/
theorem not_beside_of_between (h : Tidy source t comments) {n : ParseTree} {c d : Comment}
    (hc : c ∈ comments) (hd : d ∈ comments) (hcd : c.stopByte ≤ d.startByte)
    (hn : t.startByte ≤ n.stopByte) (hnc : n.stopByte ≤ c.startByte) :
    n.isBeside ⟨t.text source, t.startByte⟩ d = false := by
  have hgap := Excerpt.between_of_le source hn (h.within d hd).1
    (Nat.le_trans (Nat.le_of_lt (h.nonempty d hd)) (h.within d hd).2)
  have hblank : Text.allBlank (Bytes.slice source n.stopByte d.startByte) = false := by
    rw [Bool.eq_false_iff]
    intro hall
    have hvisible := h.visible c hc
    rw [Bytes.allBlank_slice source hnc hcd hall] at hvisible
    cases hvisible
  rw [ParseTree.isBeside, hgap, hblank, Bool.and_false]

end Tidy

/-! ## Nobody is in the way -/

namespace ParseTree

/-- A comment in front of another one has its turn no later, unless the other one is beside a node
that the first one is not inside of. -/
theorem turn_offers_le {excerpt : Excerpt} {c d : Comment} (parent : Option ParseTree)
    (t : ParseTree) (hstop : c.stopByte ≤ d.stopByte)
    (hbeside : ∀ n ∈ t.codeNodes, n.isBeside excerpt d = true → c.stopByte ≤ n.stopByte) :
    Offer.turn excerpt (t.offers parent) c ≤ Offer.turn excerpt (t.offers parent) d := by
  induction t using code_induction generalizing parent with
  | visit t ih =>
    have habove : Offer.turn excerpt [.above t] c ≤ Offer.turn excerpt [.above t] d := by
      refine Offer.turn_single_le fun hd => ?_
      simp only [Offer.accepts, Bool.and_eq_true, decide_eq_true_eq] at hd ⊢
      exact ⟨hd.1, Nat.le_trans hstop hd.2⟩
    have hbelow : Offer.turn excerpt (t.codeChildren.flatMap (offers (some t))) c
        ≤ Offer.turn excerpt (t.codeChildren.flatMap (offers (some t))) d :=
      Offer.turn_flatMap_le fun child hchild =>
        ih child hchild (some t) fun n hn => hbeside n (mem_codeNodes_of_child hchild hn)
    have hend : Offer.turn excerpt [.inside t, .beside parent t] c
        ≤ Offer.turn excerpt [.inside t, .beside parent t] d := by
      by_cases hc : c.stopByte ≤ t.stopByte
      · rw [Offer.turn_cons_of_accepts (by simpa [Offer.accepts] using hc)]
        exact Nat.zero_le _
      · -- then both offers refuse `d`, so that its turn cannot be earlier
        have hinside : (Offer.inside t).accepts excerpt d = false := by
          simp only [Offer.accepts, decide_eq_false_iff_not]
          omega
        have hout : (Offer.beside parent t).accepts excerpt d = false := by
          have hnot : t.isBeside excerpt d = false :=
            Bool.eq_false_iff.2 fun hd => hc (hbeside t (self_mem_codeNodes t) hd)
          rw [Offer.accepts, hnot, Bool.and_false]
        rw [Offer.turn_cons_of_refuses hinside, Offer.turn_cons_of_refuses hout]
        exact Offer.turn_le_length _
    rw [offers_eq, approach]
    exact Offer.turn_append_le (Offer.turn_append_le habove hbelow) hend

end ParseTree

/-- **Tidy comments are always in turn**, as long as the nodes end in the tree and cut no
comment. -/
theorem inTurn_of_tidy {source : Bytes} {t : ParseTree} {comments : List Comment}
    (h : Tidy source t comments) (parent : Option ParseTree)
    (hstart : ∀ n ∈ t.codeNodes, t.startByte ≤ n.stopByte)
    (huncut : ∀ n ∈ t.codeNodes, ∀ c ∈ comments, ¬ Cuts n.stopByte c) :
    Placement.InTurn ⟨t.text source, t.startByte⟩ (t.offers parent) (waiting comments) := by
  refine h.waiting_apart.imp_of_mem fun {c d} hc hd hcd => ?_
  have hc' := mem_of_mem_waiting hc
  have hd' := mem_of_mem_waiting hd
  have hne := h.nonempty d hd'
  refine ParseTree.turn_offers_le parent t (by omega) fun n hn hbeside => ?_
  by_contra hout
  have hbefore : n.stopByte ≤ c.startByte := by
    by_contra hlt
    exact huncut n hn c hc' ⟨by omega, by omega⟩
  rw [h.not_beside_of_between hc' hd' hcd (hstart n hn) hbefore] at hbeside
  exact Bool.false_ne_true hbeside

/-! ## A small source

What follows shows once that the conditions above can be met, and where comments then go. -/

namespace Sample

/-- A class with a comment in its header, one above its method, and one beside the method. -/
def text : String := "#!r\nclass C # a\n  # b\n  def m; end # c\nend\n"

def source : Bytes := Utf8.ofString text

def node (id : Nat) (type : String) (named : Bool) (field : Option String) (span : Span)
    (children : List ParseTree) : ParseTree :=
  .node ⟨id, type, named, false, false, false, field, span⟩ children

/-- The method of the class. -/
def method : ParseTree :=
  node 8 "method" true none ⟨24, 34, ⟨3, 2⟩, ⟨3, 12⟩⟩
    [node 9 "def" false none ⟨24, 27, ⟨3, 2⟩, ⟨3, 5⟩⟩ [],
      node 10 "identifier" true (some "name") ⟨28, 29, ⟨3, 6⟩, ⟨3, 7⟩⟩ [],
      node 11 ";" false none ⟨29, 30, ⟨3, 7⟩, ⟨3, 8⟩⟩ [],
      node 12 "end" false none ⟨31, 34, ⟨3, 9⟩, ⟨3, 12⟩⟩ []]

/-- The parse tree of the text. -/
def tree : ParseTree :=
  node 0 "program" true none ⟨0, 43, ⟨0, 0⟩, ⟨5, 0⟩⟩
    [node 1 "comment" true none ⟨0, 3, ⟨0, 0⟩, ⟨0, 3⟩⟩ [],
      node 2 "class" true none ⟨4, 42, ⟨1, 0⟩, ⟨4, 3⟩⟩
        [node 3 "class" false none ⟨4, 9, ⟨1, 0⟩, ⟨1, 5⟩⟩ [],
          node 4 "constant" true (some "name") ⟨10, 11, ⟨1, 6⟩, ⟨1, 7⟩⟩ [],
          node 5 "comment" true none ⟨12, 15, ⟨1, 8⟩, ⟨1, 11⟩⟩ [],
          node 6 "comment" true none ⟨18, 21, ⟨2, 2⟩, ⟨2, 5⟩⟩ [],
          node 7 "body_statement" true (some "body") ⟨24, 34, ⟨3, 2⟩, ⟨3, 12⟩⟩ [method],
          node 13 "comment" true none ⟨35, 38, ⟨3, 13⟩, ⟨3, 16⟩⟩ [],
          node 14 "end" false none ⟨39, 42, ⟨4, 0⟩, ⟨4, 3⟩⟩ []]]

def header : Comment := ⟨"# a", ⟨12, 15, ⟨1, 8⟩, ⟨1, 11⟩⟩⟩

def above : Comment := ⟨"# b", ⟨18, 21, ⟨2, 2⟩, ⟨2, 5⟩⟩⟩

def beside : Comment := ⟨"# c", ⟨35, 38, ⟨3, 13⟩, ⟨3, 16⟩⟩⟩

def comments : List Comment := tree.comments source

theorem tidy : Tidy source tree comments :=
  ⟨by decide, by decide, by decide, by decide⟩

/-- The shebang line does not wait. -/
theorem waiting_comments : waiting comments = [header, above, beside] := by
  have hsorted : inSourceOrder comments = comments := List.mergeSort_of_pairwise (by decide)
  rw [waiting, hsorted]
  decide

theorem get_method : (associate source none tree comments).get method.id = [above, beside] := by
  rw [CommentMap.get, associate_placements, waiting_comments]
  decide

end Sample

end RubySource
