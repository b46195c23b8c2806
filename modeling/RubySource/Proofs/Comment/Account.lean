import RubySource.Proofs.Comment.Conservation

/-!
# The account of the comments

Whatever the places of the comments are, sensible or not, each of them has one of three fates: it is
passed over as a directive, or it is placed, or it is left over.  In the order of the source the
first ones are passed over, the next ones are placed, and the last ones are left over.

How many are passed over is a matter of their texts alone.  So directives need not stand at the top
of a file: where no comment stands above the code, or nothing but directives, the next comments are
tried for the kinds that are still due, and these may well stand below the code.

## What is here

* `Directive.count`, `Directive.due` — how many comments are passed over where some kinds are due,
  and which kinds are due still when all comments are passed over; `Directive.count_append` puts two
  lists of comments together by these.
* `directives`, `dropped` — the comments that `associate` passes over; `dropped_append_waiting` says
  that the others wait.
* `SortedStably` — one list is another one in the order of the source.
* `CommentMap.SharesOut` — a map shares out a list of comments among nodes.
* `associate_account` — **no comment is lost, doubled or moved**, with nothing assumed of any place.
* `ReachesBelow`, `dropped_above_iff` — when what is passed over stands above a place.
* `dropped_above_code_iff` — **when only comments above the code are passed over**, and that the
  others are then placed; `dropped_below_code` is a source where it is otherwise.
-/

set_option autoImplicit false

namespace RubySource

/-! ## How many comments are passed over -/

namespace Directive

/-- The kinds of directives, in the order in which they are due. -/
def kinds : List (String → Bool) := [isShebang, isMagic, namesEncoding]

/-- How many comments are passed over at the front: the first one that is left is tried for the
first kind that is due, and that kind is due no more. -/
def count : List (String → Bool) → List Comment → Nat
  | [], _ => 0
  | _ :: _, [] => 0
  | kind :: due, c :: cs => if kind c.text then count due cs + 1 else count due (c :: cs)

/-- The kinds that are due still when all comments have been passed over. -/
def due : List (String → Bool) → List Comment → List (String → Bool)
  | kinds, [] => kinds
  | [], _ :: _ => []
  | kind :: kinds, c :: cs => if kind c.text then due kinds cs else due kinds (c :: cs)

@[simp] theorem count_nil (kinds : List (String → Bool)) : count kinds [] = 0 := by
  cases kinds <;> rfl

@[simp] theorem due_nil (kinds : List (String → Bool)) : due kinds [] = kinds := by
  cases kinds <;> rfl

theorem count_le_length (kinds : List (String → Bool)) (cs : List Comment) :
    count kinds cs ≤ cs.length := by
  induction kinds generalizing cs with
  | nil => exact Nat.zero_le _
  | cons kind kinds ih =>
    cases cs with
    | nil => exact Nat.le_refl 0
    | cons c cs =>
      rw [count]
      split
      · exact Nat.succ_le_succ (ih cs)
      · exact ih (c :: cs)

/-- At most one comment of each kind is passed over. -/
theorem count_le_kinds (kinds : List (String → Bool)) (cs : List Comment) :
    count kinds cs ≤ kinds.length := by
  induction kinds generalizing cs with
  | nil => exact Nat.le_refl 0
  | cons kind kinds ih =>
    cases cs with
    | nil => exact Nat.zero_le _
    | cons c cs =>
      rw [count]
      split
      · exact Nat.succ_le_succ (ih cs)
      · exact Nat.le_succ_of_le (ih (c :: cs))

/-- Nothing is passed over exactly if the first comment is of no kind that is due. -/
theorem count_eq_zero_iff (kinds : List (String → Bool)) (cs : List Comment) :
    count kinds cs = 0 ↔ ∀ c, cs.head? = some c → ∀ kind ∈ kinds, kind c.text = false := by
  induction kinds with
  | nil => simp [count]
  | cons kind kinds ih =>
    cases cs with
    | nil => simp
    | cons c cs =>
      by_cases hkind : kind c.text = true
      · simp [count, hkind]
      · rw [count, if_neg hkind, ih]
        simp [hkind]

/-- **Two lists of comments one behind the other.**  The second one comes into it only where all of
the first is passed over, and then with the kinds that are due still. -/
theorem count_append (kinds : List (String → Bool)) (xs ys : List Comment) :
    count kinds (xs ++ ys)
      = if count kinds xs = xs.length then xs.length + count (due kinds xs) ys
        else count kinds xs := by
  induction kinds generalizing xs with
  | nil =>
    cases xs with
    | nil => simp
    | cons x xs => simp [count]
  | cons kind kinds ih =>
    cases xs with
    | nil => simp
    | cons x xs =>
      have hle := count_le_length kinds xs
      by_cases hkind : kind x.text = true
      · rw [List.cons_append, count, count, due, if_pos hkind, if_pos hkind, if_pos hkind, ih xs]
        simp only [List.length_cons, Nat.add_right_cancel_iff]
        split <;> omega
      · rw [List.cons_append, count, count, due, if_neg hkind, if_neg hkind, if_neg hkind]
        exact ih (x :: xs)

theorem foldl_dropIf_eq_drop (kinds : List (String → Bool)) (cs : List Comment) :
    kinds.foldl (fun cs kind => dropIf kind cs) cs = cs.drop (count kinds cs) := by
  induction kinds generalizing cs with
  | nil => rfl
  | cons kind kinds ih =>
    rw [List.foldl_cons, ih]
    cases cs with
    | nil => simp [dropIf]
    | cons c cs =>
      rw [dropIf, count]
      split <;> rfl

/-- What is left without the directives is what is left behind as many comments. -/
theorem dropDirectives_eq_drop_count (cs : List Comment) :
    dropDirectives cs = cs.drop (count kinds cs) :=
  foldl_dropIf_eq_drop kinds cs

end Directive

/-- How many of several comments are passed over as directives. -/
def directives (comments : List Comment) : Nat :=
  Directive.count Directive.kinds (inSourceOrder comments)

/-- The comments that are passed over as directives. -/
def dropped (comments : List Comment) : List Comment :=
  (inSourceOrder comments).take (directives comments)

theorem waiting_eq_drop (comments : List Comment) :
    waiting comments = (inSourceOrder comments).drop (directives comments) :=
  Directive.dropDirectives_eq_drop_count _

/-- Comments are passed over or wait. -/
theorem dropped_append_waiting (comments : List Comment) :
    dropped comments ++ waiting comments = inSourceOrder comments := by
  rw [waiting_eq_drop, dropped, List.take_append_drop]

/-! ## The order of the source -/

/-- A list holds the comments of another one in the order of the source, and those that start
together in the order in which they were given. -/
structure SortedStably (comments ordered : List Comment) : Prop where
  perm : ordered.Perm comments
  sorted : ordered.Pairwise fun c d => c.startByte ≤ d.startByte
  stable : ∀ place,
    ordered.filter (fun c => c.startByte == place) = comments.filter fun c => c.startByte == place

theorem sortedStably_inSourceOrder (comments : List Comment) :
    SortedStably comments (inSourceOrder comments) := by
  have hperm := inSourceOrder_perm comments
  refine ⟨hperm, inSourceOrder_sorted comments, fun place => ?_⟩
  -- those that start together are in order already, so that sorting keeps them as they stand
  have htogether : (comments.filter fun c => c.startByte == place).Pairwise
      fun c d => decide (c.startByte ≤ d.startByte) = true := by
    refine List.pairwise_of_forall_mem_list fun c hc d hd => ?_
    have hc' : c.startByte = place := by simpa using (List.mem_filter.1 hc).2
    have hd' : d.startByte = place := by simpa using (List.mem_filter.1 hd).2
    rw [hc', hd', decide_eq_true_eq]
  have hsub : (comments.filter fun c => c.startByte == place).Sublist (inSourceOrder comments) :=
    List.sublist_mergeSort startsFirst_trans startsFirst_total htogether List.filter_sublist
  have hfilter := hsub.filter fun c => c.startByte == place
  simp only [List.filter_filter, Bool.and_self] at hfilter
  exact (hfilter.eq_of_length (hperm.symm.filter _).length_eq).symm

/-! ## Sharing out -/

namespace CommentMap

/-- A map shares out a list of comments: its nodes have comments, all comments of the list together,
and each node some of them as they stand in the list. -/
structure SharesOut (m : CommentMap) (cs : List Comment) : Prop where
  nodup : m.keys.Nodup
  perm : (m.keys.flatMap m.get).Perm cs
  nonempty : ∀ key ∈ m.keys, m.get key ≠ []
  sublist : ∀ key ∈ m.keys, (m.get key).Sublist cs

theorem nodup_eraseDups (ns : List Nat) : ns.eraseDups.Nodup := by
  induction hlength : ns.length using Nat.strong_induction_on generalizing ns with
  | _ length ih =>
    cases ns with
    | nil => exact List.nodup_nil
    | cons n ns =>
      subst hlength
      rw [List.eraseDups_cons, List.nodup_cons]
      have hle := List.length_filter_le (fun m => !m == n) ns
      refine ⟨fun h => ?_, ih _ (Nat.lt_succ_of_le hle) _ rfl⟩
      simpa using (List.mem_filter.1 (List.mem_eraseDups.1 h)).2

theorem mem_keys_iff {m : CommentMap} {key : Nat} :
    key ∈ m.keys ↔ ∃ p ∈ m.placements, p.node = key := by
  rw [keys, List.mem_eraseDups, List.mem_map]

/-- Every map shares out the comments of its placements. -/
theorem sharesOut (m : CommentMap) : m.SharesOut (m.placements.map (·.comment)) := by
  have hnodup : m.keys.Nodup := nodup_eraseDups _
  refine ⟨hnodup, ?_, fun key hkey => ?_, fun key _ => m.get_sublist key⟩
  · exact perm_flatMap_get hnodup m fun p hp => mem_keys_iff.2 ⟨p, hp, rfl⟩
  · obtain ⟨p, hp, rfl⟩ := mem_keys_iff.1 hkey
    have hget : p.comment ∈ m.get p.node :=
      List.mem_map_of_mem (List.mem_filter.2 ⟨hp, beq_self_eq_true p.node⟩)
    exact List.ne_nil_of_mem hget

end CommentMap

/-- What is placed is a beginning of what waits. -/
theorem associate_comments_eq_take (source : Bytes) (parent : Option ParseTree) (t : ParseTree)
    (comments : List Comment) :
    ∃ k, directives comments ≤ k ∧ k ≤ (inSourceOrder comments).length ∧
      (associate source parent t comments).placements.map (·.comment)
        = ((inSourceOrder comments).take k).drop (directives comments) := by
  have hplaced : (associate source parent t comments).placements.map (·.comment)
      ++ (Placement.serveAll ⟨t.text source, t.startByte⟩ (t.offers parent)
          (waiting comments)).2 = (inSourceOrder comments).drop (directives comments) :=
    (Placement.serveAll_comments _ _ _).trans (waiting_eq_drop comments)
  have hlength := congrArg List.length hplaced
  rw [List.length_append, List.length_drop] at hlength
  have hle : directives comments ≤ (inSourceOrder comments).length :=
    Directive.count_le_length _ _
  refine ⟨directives comments
    + ((associate source parent t comments).placements.map (·.comment)).length,
    Nat.le_add_right _ _, by omega, ?_⟩
  rw [List.drop_take, Nat.add_sub_cancel_left, ← hplaced, List.take_left]

/-- **No comment is lost, doubled or moved**, with nothing assumed of any place.  The comments,
stably in the order of the source, fall into three parts: at most three directives in front, those
that are placed, and those that are left over.  The map shares out the middle part, among the nodes
of the walk and the parent of the node that the walk starts from.  Nothing is left over where all
comments end in the tree. -/
theorem associate_account (source : Bytes) (parent : Option ParseTree) (t : ParseTree)
    (comments : List Comment) :
    SortedStably comments (inSourceOrder comments) ∧ directives comments ≤ 3 ∧
      ∃ k, directives comments ≤ k ∧ k ≤ (inSourceOrder comments).length ∧
        (associate source parent t comments).SharesOut
          (((inSourceOrder comments).take k).drop (directives comments)) ∧
        (∀ key ∈ (associate source parent t comments).keys,
          (∃ n ∈ t.codeNodes, n.id = key) ∨ ∃ p, parent = some p ∧ p.id = key) ∧
        ((∀ c ∈ comments, c.stopByte ≤ t.stopByte) → k = (inSourceOrder comments).length) := by
  obtain ⟨k, hd, hk, hplaced⟩ := associate_comments_eq_take source parent t comments
  refine ⟨sortedStably_inSourceOrder comments, Directive.count_le_kinds _ _, k, hd, hk, ?_, ?_, ?_⟩
  · rw [← hplaced]
    exact CommentMap.sharesOut _
  · intro key hkey
    obtain ⟨p, hp, rfl⟩ := CommentMap.mem_keys_iff.1 hkey
    obtain ⟨o, ho, hnode, -⟩ := Placement.exists_offer_of_mem_serveAll hp
    rcases ParseTree.exists_target ho with ⟨n, hn, htarget⟩ | ⟨q, hq, htarget⟩
    · exact Or.inl ⟨n, hn, (hnode.trans htarget).symm⟩
    · exact Or.inr ⟨q, hq, (hnode.trans htarget).symm⟩
  · intro hends
    have hall := associate_comments_eq source parent hends
    rw [hplaced, waiting_eq_drop] at hall
    have hlength := congrArg List.length hall
    rw [List.length_drop, List.length_drop, List.length_take] at hlength
    omega

/-! ## What is passed over below a place -/

/-- The comments that start before a place. -/
def above (place : Nat) (comments : List Comment) : List Comment :=
  (inSourceOrder comments).filter fun c => decide (c.startByte < place)

/-- The comments that start at a place or behind it. -/
def below (place : Nat) (comments : List Comment) : List Comment :=
  (inSourceOrder comments).filter fun c => !decide (c.startByte < place)

theorem above_append_below (place : Nat) (comments : List Comment) :
    above place comments ++ below place comments = inSourceOrder comments := by
  have hfront : (inSourceOrder comments).Pairwise fun c d =>
      decide (d.startByte < place) = true → decide (c.startByte < place) = true := by
    refine (inSourceOrder_sorted comments).imp fun {c d} hle hd => ?_
    rw [decide_eq_true_eq] at hd ⊢
    exact Nat.lt_of_le_of_lt hle hd
  obtain ⟨htake, hdrop⟩ := Placement.span_eq_filter hfront
  rw [above, below, ← htake, ← hdrop, List.takeWhile_append_dropWhile]

/-- All that stands above a place is passed over, and the first comment below it is of a kind that
is due still. -/
def ReachesBelow (place : Nat) (comments : List Comment) : Prop :=
  Directive.count Directive.kinds (above place comments) = (above place comments).length ∧
    ∃ c, (below place comments).head? = some c ∧
      ∃ kind ∈ Directive.due Directive.kinds (above place comments), kind c.text = true

/-- More comments are passed over than stand above a place exactly if the directives reach below
it. -/
theorem lt_directives_iff (place : Nat) (comments : List Comment) :
    (above place comments).length < directives comments ↔ ReachesBelow place comments := by
  have hle := Directive.count_le_length Directive.kinds (above place comments)
  have hfirst := Directive.count_eq_zero_iff
    (Directive.due Directive.kinds (above place comments)) (below place comments)
  rw [directives, ← above_append_below place comments, Directive.count_append, ReachesBelow]
  split
  next hall =>
    constructor
    · intro hlt
      refine ⟨hall, ?_⟩
      by_contra hnone
      have hzero := hfirst.2 fun c hc kind hkind =>
        Bool.eq_false_iff.2 fun htrue => hnone ⟨c, hc, kind, hkind, htrue⟩
      omega
    · rintro ⟨-, c, hc, kind, hkind, htrue⟩
      have hpos : Directive.count (Directive.due Directive.kinds (above place comments))
          (below place comments) ≠ 0 :=
        fun hzero => Bool.false_ne_true ((hfirst.1 hzero c hc kind hkind).symm.trans htrue)
      omega
  next hsome =>
    constructor
    · intro hlt
      omega
    · rintro ⟨hall, -⟩
      exact absurd hall hsome

/-- What is passed over starts before a place exactly if the directives do not reach below it. -/
theorem dropped_above_iff (place : Nat) (comments : List Comment) :
    (∀ c ∈ dropped comments, c.startByte < place) ↔ ¬ ReachesBelow place comments := by
  rw [← lt_directives_iff, Nat.not_lt, dropped, ← above_append_below place comments,
    List.take_append]
  constructor
  · intro hdropped
    by_contra hlt
    have hle : directives comments ≤ (above place comments ++ below place comments).length := by
      rw [above_append_below]
      exact Directive.count_le_length _ _
    rw [List.length_append] at hle
    obtain ⟨c, cs, hbelow⟩ := List.exists_cons_of_length_pos
      (show 0 < (below place comments).length by omega)
    have hc : c ∈ (below place comments).take
        (directives comments - (above place comments).length) := by
      rw [hbelow]
      exact List.mem_take_iff_getElem.2 ⟨0, by rw [List.length_cons]; omega, rfl⟩
    have hplace : ¬ c.startByte < place := by
      simpa using (List.mem_filter.1 (List.mem_of_mem_take hc)).2
    exact hplace (hdropped c (List.mem_append_right _ hc))
  · intro hle c hc
    rw [Nat.sub_eq_zero_of_le hle, List.take_zero, List.append_nil] at hc
    simpa using (List.mem_filter.1 (List.mem_of_mem_take hc)).2

/-- A comment that waits is placed on a code node, if all comments end in the tree. -/
theorem exists_get_of_mem_waiting {source : Bytes} {root : ParseTree} {comments : List Comment}
    (hends : ∀ c ∈ comments, c.stopByte ≤ root.stopByte) {c : Comment} (hc : c ∈ waiting comments) :
    ∃ n ∈ root.codeNodes, c ∈ (associate source none root comments).get n.id := by
  rw [← associate_comments_eq source none hends] at hc
  obtain ⟨p, hp, rfl⟩ := List.mem_map.1 hc
  obtain ⟨n, hn, hnode⟩ := exists_codeNode_of_placement hp
  exact ⟨n, hn, List.mem_map_of_mem (List.mem_filter.2 ⟨hp, beq_iff_eq.2 hnode.symm⟩)⟩

/-- Where the code of a tree starts: with its first code child. -/
def ParseTree.codeStart? (t : ParseTree) : Option Nat :=
  t.codeChildren.head?.map ParseTree.startByte

/-- A comment starts where the code of a tree does, or below that. -/
def ParseTree.IsBelowCodeStart (t : ParseTree) (c : Comment) : Prop :=
  ∃ place, t.codeStart? = some place ∧ place ≤ c.startByte

/-- **When only comments above the code are passed over**: exactly if the directives do not reach
below the start of the code, which takes nothing but directives above it, and one of a kind that is
due still below it.  Then, if all comments end in the tree, each comment below the start of the code
is placed on a code node. -/
theorem dropped_above_code_iff (source : Bytes) (root : ParseTree) (comments : List Comment) :
    ((∀ c ∈ dropped comments, ¬ root.IsBelowCodeStart c) ↔
      ∀ place, root.codeStart? = some place → ¬ ReachesBelow place comments) ∧
      ((∀ place, root.codeStart? = some place → ¬ ReachesBelow place comments) →
        (∀ c ∈ comments, c.stopByte ≤ root.stopByte) →
          ∀ c ∈ comments, root.IsBelowCodeStart c →
            ∃ n ∈ root.codeNodes, c ∈ (associate source none root comments).get n.id) := by
  have hiff : (∀ c ∈ dropped comments, ¬ root.IsBelowCodeStart c) ↔
      ∀ place, root.codeStart? = some place → ¬ ReachesBelow place comments := by
    constructor
    · intro hdropped place hplace
      rw [← dropped_above_iff]
      intro c hc
      by_contra hlt
      exact hdropped c hc ⟨place, hplace, Nat.le_of_not_lt hlt⟩
    · rintro hnot c hc ⟨place, hplace, hle⟩
      have hlt := (dropped_above_iff place comments).2 (hnot place hplace) c hc
      omega
  refine ⟨hiff, fun hnot hends c hc hbelow => exists_get_of_mem_waiting hends ?_⟩
  have hmem : c ∈ dropped comments ++ waiting comments := by
    rw [dropped_append_waiting]
    exact (inSourceOrder_perm comments).mem_iff.2 hc
  exact (List.mem_append.1 hmem).resolve_left fun hdropped => hiff.2 hnot c hdropped hbelow

/-! ## A directive below the code -/

namespace Late

/-- Prose that reads like the name of an encoding, below the first line of code. -/
def text : String := "x = 1\n# the encoding: utf-8\n"

def comment : Comment := ⟨"# the encoding: utf-8", ⟨6, 27, ⟨1, 0⟩, ⟨1, 21⟩⟩⟩

/-- The parse tree of the text. -/
def tree : ParseTree :=
  Sample.node 0 "program" true none ⟨0, 28, ⟨0, 0⟩, ⟨2, 0⟩⟩
    [Sample.node 1 "assignment" true none ⟨0, 5, ⟨0, 0⟩, ⟨0, 5⟩⟩
        [Sample.node 2 "identifier" true (some "left") ⟨0, 1, ⟨0, 0⟩, ⟨0, 1⟩⟩ [],
          Sample.node 3 "=" false none ⟨2, 3, ⟨0, 2⟩, ⟨0, 3⟩⟩ [],
          Sample.node 4 "integer" true (some "right") ⟨4, 5, ⟨0, 4⟩, ⟨0, 5⟩⟩ []],
      Sample.node 5 "comment" true none comment.span []]

end Late

/-- A comment below all code is passed over, and placed nowhere. -/
theorem dropped_below_code :
    Late.tree.comments (Utf8.ofString Late.text) = [Late.comment] ∧
      Late.comment.stopByte ≤ Late.tree.stopByte ∧ Late.tree.IsBelowCodeStart Late.comment ∧
      dropped [Late.comment] = [Late.comment] ∧
      ∀ node,
        (associate (Utf8.ofString Late.text) none Late.tree [Late.comment]).get node = [] := by
  have hsorted : inSourceOrder [Late.comment] = [Late.comment] := List.mergeSort_singleton _
  have hdropped : dropped [Late.comment] = [Late.comment] := by
    rw [dropped, directives, hsorted]
    decide
  refine ⟨by decide, by decide, ⟨0, by decide, by decide⟩, hdropped, fun node => ?_⟩
  have hwaiting := dropped_append_waiting [Late.comment]
  rw [hdropped, hsorted] at hwaiting
  have hsub := associate_comments_sublist (Utf8.ofString Late.text) none Late.tree [Late.comment]
  rw [List.append_right_eq_self.1 hwaiting] at hsub
  exact List.sublist_nil.1 ((CommentMap.get_sublist _ node).trans hsub)

end RubySource
