import RubySource.Proofs.Comment.Collection
import RubySource.Proofs.ParseTree.QuotedLine
import RubySource.Proofs.Text.Utf8

/-!
# Texts and the bytes they are cut from

A text is written as bytes, the bytes are cut at the offsets of the nodes, and each cut is read as a
text again, by itself.  Where a cut falls into a character, what is read is not what was written.
Where it falls between characters nothing is lost, replaced or moved: each cut is read as the
characters that its bytes were written for, and a cut within another one is read as a part of it.

## What is here

* `Bytes.slice_append_slice` — bytes are cut into bytes.
* `Utf8.IsBoundary` — an offset between two characters; `encode_decodeLossy_slice` and
  `decodeLossy_slice` say what is read between such offsets.
* `Span.IsAligned`, `Span.LiesIn` — stretches that cut no character, and stretches in others.
* `StandsBehind` — **the specification** of a part of a text: where it stands.
* `source_spells_span` — the payoff: **the text of a node is spelled by the bytes of its stretch,
  and the text of a node in it stands where its bytes do**; the same for comments.
-/

set_option autoImplicit false

namespace RubySource

/-- What stands in front of an offset and behind it. -/
theorem Bytes.slice_append_slice (bytes : Bytes) {a b c : Nat} (hab : a ≤ b) (hbc : b ≤ c) :
    slice bytes a b ++ slice bytes b c = slice bytes a c := by
  have hlength : c - a = (b - a) + (c - b) := by omega
  have hdrop : bytes.drop b = (bytes.drop a).drop (b - a) := by
    rw [List.drop_drop, Nat.add_sub_of_le hab]
  rw [slice, slice, slice, hlength, List.take_add, hdrop]

namespace Utf8

/-! ## Offsets between characters -/

theorem encode_append (front back : List Char) :
    encode (front ++ back) = encode front ++ encode back :=
  List.flatMap_append

/-- A text in front is read as it was written, whatever stands behind it. -/
theorem decodeLossy_encode_append (cs : List Char) (bs : Bytes) :
    decodeLossy (encode cs ++ bs) = cs ++ decodeLossy bs := by
  induction cs with
  | nil => rfl
  | cons c cs ih =>
    have hcons : encode (c :: cs) ++ bs = String.utf8EncodeChar c ++ (encode cs ++ bs) :=
      List.append_assoc ..
    rw [hcons, decodeLossy, pieces_utf8EncodeChar, List.map_cons, ← decodeLossy, ih]
    rfl

theorem decodeLossy_encode (cs : List Char) : decodeLossy (encode cs) = cs := by
  have h := decodeLossy_encode_append cs []
  rwa [List.append_nil, show decodeLossy [] = [] from rfl, List.append_nil] at h

theorem encode_eq_nil {cs : List Char} (h : encode cs = []) : cs = [] := by
  rw [← decodeLossy_encode cs, h]
  rfl

/-- An offset into the bytes of a text that falls between two characters, or at an end. -/
def IsBoundary (cs : List Char) (i : Nat) : Prop :=
  ∃ front back, cs = front ++ back ∧ (encode front).length = i

section

variable {cs : List Char} {i j : Nat} (hi : IsBoundary cs i) (hj : IsBoundary cs j) (hij : i ≤ j)
include hi hj hij

/-- Between two boundaries there are whole characters. -/
theorem exists_slice_eq_encode :
    ∃ middle, Bytes.slice (encode cs) i j = encode middle := by
  obtain ⟨front, back, rfl, rfl⟩ := hi
  obtain ⟨front', back', hcs, rfl⟩ := hj
  have hfront : ∃ middle, front' = front ++ middle := by
    obtain ⟨middle, hmiddle, -⟩ | ⟨middle, hmiddle, -⟩ := List.append_eq_append_iff.1 hcs
    · exact ⟨middle, hmiddle⟩
    · -- the characters that the first text has too many would have no bytes
      rw [hmiddle, encode_append, List.length_append] at hij
      have hnil : middle = [] := encode_eq_nil (List.length_eq_zero_iff.1 (by omega))
      exact ⟨[], by rw [hmiddle, hnil, List.append_nil, List.append_nil]⟩
  obtain ⟨middle, rfl⟩ := hfront
  refine ⟨middle, ?_⟩
  rw [hcs, encode_append, encode_append, Bytes.slice, List.append_assoc, List.drop_left,
    List.length_append, Nat.add_sub_cancel_left, List.take_left]

/-- What is read between two boundaries is what was written there. -/
theorem encode_decodeLossy_slice :
    encode (decodeLossy (Bytes.slice (encode cs) i j)) = Bytes.slice (encode cs) i j := by
  obtain ⟨middle, hmiddle⟩ := exists_slice_eq_encode hi hj hij
  rw [hmiddle, decodeLossy_encode]

/-- A cut from a boundary on may be read in two parts, if a boundary parts them. -/
theorem decodeLossy_slice {k : Nat} (hjk : j ≤ k) :
    decodeLossy (Bytes.slice (encode cs) i k)
      = decodeLossy (Bytes.slice (encode cs) i j) ++ decodeLossy (Bytes.slice (encode cs) j k) := by
  obtain ⟨middle, hmiddle⟩ := exists_slice_eq_encode hi hj hij
  rw [← Bytes.slice_append_slice _ hij hjk, hmiddle, decodeLossy_encode_append, decodeLossy_encode]

end

end Utf8

/-! ## Stretches -/

/-- A stretch of the bytes of a text that cuts no character. -/
structure Span.IsAligned (text : String) (s : Span) : Prop where
  le : s.startByte ≤ s.stopByte
  start : Utf8.IsBoundary text.toList s.startByte
  stop : Utf8.IsBoundary text.toList s.stopByte

/-- Whether a stretch lies in another one. -/
def Span.LiesIn (s t : Span) : Prop :=
  t.startByte ≤ s.startByte ∧ s.stopByte ≤ t.stopByte

/-- The bytes of a stretch. -/
def Span.bytes (s : Span) (source : Bytes) : Bytes :=
  Bytes.slice source s.startByte s.stopByte

/-- What is read in a stretch. -/
def Span.read (s : Span) (source : Bytes) : String :=
  String.ofList (Utf8.decodeLossy (s.bytes source))

/-- A part of a text that stands behind the characters spelled by some bytes. -/
def StandsBehind (front : Bytes) (part whole : String) : Prop :=
  ∃ before after, whole = before ++ part ++ after ∧ Utf8.ofString before = front

namespace Span.IsAligned

variable {text : String} {s t : Span}

/-- What is read in a stretch that cuts no character has the bytes of the stretch. -/
theorem ofString_read (h : s.IsAligned text) :
    Utf8.ofString (s.read (Utf8.ofString text)) = s.bytes (Utf8.ofString text) := by
  rw [read, Utf8.ofString, String.toList_ofList]
  exact Utf8.encode_decodeLossy_slice h.start h.stop h.le

/-- What is read in a stretch within another one stands where its bytes do. -/
theorem standsBehind (hs : s.IsAligned text) (ht : t.IsAligned text) (h : s.LiesIn t) :
    StandsBehind (Bytes.slice (Utf8.ofString text) t.startByte s.startByte)
      (s.read (Utf8.ofString text)) (t.read (Utf8.ofString text)) := by
  obtain ⟨hstart, hstop⟩ := h
  refine ⟨String.ofList (Utf8.decodeLossy
      (Bytes.slice (Utf8.ofString text) t.startByte s.startByte)),
    String.ofList (Utf8.decodeLossy (Bytes.slice (Utf8.ofString text) s.stopByte t.stopByte)),
    ?_, ?_⟩
  · have hfront := Utf8.decodeLossy_slice ht.start hs.start hstart (hs.le.trans hstop)
    have hback := Utf8.decodeLossy_slice hs.start hs.stop hs.le hstop
    rw [hback, ← List.append_assoc] at hfront
    rw [read, read, ← String.ofList_append, ← String.ofList_append]
    exact congrArg String.ofList hfront
  · rw [Utf8.ofString, String.toList_ofList]
    exact Utf8.encode_decodeLossy_slice ht.start hs.start hstart

end Span.IsAligned

namespace ParseTree

/-! ## Nodes and comments -/

theorem source_toAst (source : Bytes) (m : CommentMap) (t : ParseTree) :
    (t.toAst source m).source = t.span.read source := by
  rw [toAst_eq]
  rfl

/-- The text of a comment is what is read in its stretch, without the one carriage return at its
end. -/
theorem text_ofNode_cases (source : Bytes) (n : ParseTree) :
    n.span.read source = (Comment.ofNode source n).text ++ "\r" ∨
      n.span.read source = (Comment.ofNode source n).text ∧
        (n.span.read source).toList.getLast? ≠ some '\r' := by
  have hwhole : (n.span.read source).toList = Utf8.decodeLossy (n.text source) :=
    String.toList_ofList
  have htext : (Comment.ofNode source n).text
      = String.ofList (Comment.dropReturn (n.span.read source).toList) := by
    rw [hwhole]
    rfl
  rw [htext, Comment.dropReturn]
  split
  next hreturn =>
    refine Or.inl (String.toList_inj.1 ?_)
    rw [String.toList_append, String.toList_ofList]
    exact (List.dropLast_append_getLast? '\r' hreturn).symm
  next hreturn => exact Or.inr ⟨String.ofList_toList.symm, hreturn⟩

section

variable {text : String} {n : ParseTree} (hn : n.span.IsAligned text)
include hn

/-- The text of a node is spelled by the bytes of its stretch. -/
theorem ofString_source_toAst (m : CommentMap) :
    Utf8.ofString (n.toAst (Utf8.ofString text) m).source = n.span.bytes (Utf8.ofString text) := by
  rw [source_toAst]
  exact hn.ofString_read

/-- What is read in a stretch within that of a node stands in the text of the node. -/
theorem standsBehind_source_toAst (m : CommentMap) {s : Span} (hs : s.IsAligned text)
    (hin : s.LiesIn n.span) :
    StandsBehind (Bytes.slice (Utf8.ofString text) n.startByte s.startByte)
      (s.read (Utf8.ofString text)) (n.toAst (Utf8.ofString text) m).source := by
  rw [source_toAst]
  exact hs.standsBehind hn hin

/-- A child of a node of the commented tree belongs to a code child, and its text stands in that of
the node where the bytes do. -/
theorem exists_child_standsBehind (m : CommentMap) {i : Nat} {b : Ast}
    (hb : (n.toAst (Utf8.ofString text) m).children[i]? = some b) :
    ∃ c, n.codeChildren[i]? = some c ∧ (c.span.IsAligned text → c.span.LiesIn n.span →
      StandsBehind (Bytes.slice (Utf8.ofString text) n.startByte c.startByte) b.source
        (n.toAst (Utf8.ofString text) m).source) := by
  rw [children_toAst, List.getElem?_map, Option.map_eq_some_iff] at hb
  obtain ⟨c, hc, rfl⟩ := hb
  refine ⟨c, hc, fun hchild hin => ?_⟩
  rw [source_toAst _ _ c]
  exact standsBehind_source_toAst hn m hchild hin

end

/-- **Stretches and texts agree.**  The text of a node of the commented tree whose stretch cuts no
character is spelled by the bytes of the stretch, and if the stretch of a child lies in it and cuts
no character either, the text of the child stands in that of the node behind the characters that are
spelled by the bytes between the two starts.  The same holds of a comment that is collected, once it
has got back the carriage return that it may have lost. -/
theorem source_spells_span (text : String) (m : CommentMap) (root : ParseTree) :
    let source := Utf8.ofString text
    (∀ p a, (root.toAst source m).at? p = some a →
      ∃ n, root.codeAt? p = some n ∧ (n.span.IsAligned text →
        Utf8.ofString a.source = n.span.bytes source ∧
        ∀ (i : Nat) b, a.children[i]? = some b → ∃ c, n.codeChildren[i]? = some c ∧
          (c.span.IsAligned text → c.span.LiesIn n.span →
            StandsBehind (Bytes.slice source n.startByte c.startByte) b.source a.source))) ∧
    ∀ c ∈ root.comments source, c.span.IsAligned text →
      ∃ whole, Utf8.ofString whole = c.span.bytes source ∧
        (whole = c.text ++ "\r" ∨ whole = c.text ∧ whole.toList.getLast? ≠ some '\r') ∧
        ∀ p a n, (root.toAst source m).at? p = some a → root.codeAt? p = some n →
          n.span.IsAligned text → c.span.LiesIn n.span →
            StandsBehind (Bytes.slice source n.startByte c.startByte) whole a.source := by
  intro source
  constructor
  · intro p a ha
    obtain ⟨n, hn, rfl⟩ := exists_of_at? ha
    exact ⟨n, hn, fun haligned => ⟨ofString_source_toAst haligned m, fun i b hb =>
      exists_child_standsBehind haligned m hb⟩⟩
  · intro c hc haligned
    rw [comments_eq_map] at hc
    obtain ⟨d, -, rfl⟩ := List.mem_map.1 hc
    refine ⟨d.span.read source, haligned.ofString_read, text_ofNode_cases source d, ?_⟩
    intro p a n ha hn hparent hin
    obtain ⟨n', hn', rfl⟩ := exists_of_at? ha
    obtain rfl : n' = n := Option.some.inj (hn'.symm.trans hn)
    exact standsBehind_source_toAst hparent m haligned hin

/-! ## Stretches of a text that is not all ASCII -/

namespace Accented

/-- A sum with a letter of two bytes in it, and a comment with another one and a carriage return. -/
def text : String := "\"é\"+1 # ü\r\n"

def source : Bytes := Utf8.ofString text

def summand : ParseTree :=
  .node ⟨5, "integer", true, false, false, false, some "right", ⟨5, 6, ⟨0, 5⟩, ⟨0, 6⟩⟩⟩ []

def sum : ParseTree :=
  .node ⟨1, "binary", true, false, false, false, none, ⟨0, 6, ⟨0, 0⟩, ⟨0, 6⟩⟩⟩
    [.node ⟨2, "string", true, false, false, false, some "left", ⟨0, 4, ⟨0, 0⟩, ⟨0, 4⟩⟩⟩
      [.node ⟨3, "string_content", true, false, false, false, none, ⟨1, 3, ⟨0, 1⟩, ⟨0, 3⟩⟩⟩ []],
      .node ⟨4, "+", false, false, false, false, some "operator", ⟨4, 5, ⟨0, 4⟩, ⟨0, 5⟩⟩⟩ [],
      summand]

/-- The parse tree of the text. -/
def tree : ParseTree :=
  .node ⟨0, "program", true, false, false, false, none, ⟨0, 13, ⟨0, 0⟩, ⟨1, 0⟩⟩⟩
    [sum, .node ⟨6, "comment", true, false, false, false, none, ⟨7, 12, ⟨0, 7⟩, ⟨0, 12⟩⟩⟩ []]

def comment : Comment := ⟨"# ü", ⟨7, 12, ⟨0, 7⟩, ⟨0, 12⟩⟩⟩

theorem isAligned_sum : sum.span.IsAligned text where
  le := by decide
  start := ⟨[], text.toList, rfl, rfl⟩
  stop := ⟨"\"é\"+1".toList, " # ü\r\n".toList, by decide, by decide⟩

theorem isAligned_summand : summand.span.IsAligned text where
  le := by decide
  start := ⟨"\"é\"+".toList, "1 # ü\r\n".toList, by decide, by decide⟩
  stop := isAligned_sum.stop

theorem isAligned_comment : comment.span.IsAligned text where
  le := by decide
  start := ⟨"\"é\"+1 ".toList, "# ü\r\n".toList, by decide, by decide⟩
  stop := ⟨"\"é\"+1 # ü\r".toList, ['\n'], by decide, by decide⟩

end Accented

/-- The second summand stands behind four characters, which have five bytes, and the comment has the
bytes of its characters and of the carriage return that it lost. -/
theorem source_spells_accented :
    (∃ a b, (Accented.tree.toAst Accented.source (.ofLists [])).at? [.child 0] = some a ∧
      a.children[1]? = some b ∧
      Utf8.ofString a.source = Accented.sum.span.bytes Accented.source ∧
      StandsBehind (Utf8.ofString "\"é\"+") b.source a.source) ∧
    Accented.tree.comments Accented.source = [Accented.comment] ∧
    Utf8.ofString (Accented.comment.text ++ "\r")
      = Accented.comment.span.bytes Accented.source := by
  have hsum : Accented.tree.codeAt? [.child 0] = some Accented.sum := rfl
  have hsummand : Accented.sum.codeChildren[1]? = some Accented.summand := rfl
  have hcollected : Accented.tree.comments Accented.source = [Accented.comment] := by rfl
  obtain ⟨hnodes, hcomments⟩ := source_spells_span Accented.text (.ofLists []) Accented.tree
  refine ⟨?_, hcollected, ?_⟩
  · have hat : (Accented.tree.toAst Accented.source (.ofLists [])).at? [.child 0]
        = some (Accented.sum.toAst Accented.source (.ofLists [])) := by
      rw [at?_toAst, hsum]
      rfl
    have hchild : (Accented.sum.toAst Accented.source (.ofLists [])).children[1]?
        = some (Accented.summand.toAst Accented.source (.ofLists [])) := by
      rw [children_toAst, List.getElem?_map, hsummand]
      rfl
    obtain ⟨n, hn, hspells⟩ := hnodes _ _ hat
    obtain rfl : Accented.sum = n := Option.some.inj (hsum.symm.trans hn)
    obtain ⟨hspelled, hchildren⟩ := hspells Accented.isAligned_sum
    obtain ⟨c, hc, hstands⟩ := hchildren 1 _ hchild
    obtain rfl : Accented.summand = c := Option.some.inj (hsummand.symm.trans hc)
    have hfront : Utf8.ofString "\"é\"+" = Bytes.slice Accented.source 0 5 := by decide
    rw [hfront]
    exact ⟨_, _, hat, hchild, hspelled,
      hstands Accented.isAligned_summand ⟨by decide, by decide⟩⟩
  · have hmem : Accented.comment ∈ Accented.tree.comments Accented.source := by
      rw [hcollected]
      exact List.mem_singleton_self _
    obtain ⟨whole, hwhole, hcut, -⟩ := hcomments _ hmem Accented.isAligned_comment
    obtain rfl | ⟨rfl, -⟩ := hcut
    · exact hwhole
    · exact absurd hwhole (by decide)

end ParseTree
end RubySource
