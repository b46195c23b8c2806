import RubySource.Proofs.ParseTree.Verdict

/-!
# The line that a report quotes

A tree counts rows by line feeds alone.  A report looks its line up among the lines of the text, and
these end at other characters too: at a form feed, at a carriage return that stands alone, at some
separators of Unicode.  From the first such character on, the two counts part, and the line that is
quoted is not the one that the report points at.

## What is here

* `Text.row` — **the specification**: a row of a text, as a tree counts them; `row_induction` goes
  from row to row.
* `Text.lines_of_unbroken`, `Text.lines_append_newline` — the lines of a text that is a row, or
  starts with one.
* `isUnbroken_of_mem_lines` — a line holds nothing that ends lines.
* `quotedLine_eq_row_iff` — **rows and lines agree as far as the rows hold nothing that ends
  lines**, and no farther.
* `quotes_rows_iff` — what a report quotes, and when that is the row that it points at.
-/

set_option autoImplicit false

namespace RubySource
namespace Text

/-! ## Rows -/

/-- A row of a text, counted from zero: what stands between two line feeds, without the carriage
return that a two-character line end leaves on it.  There is nothing behind the last row. -/
def row (cs : List Char) (i : Nat) : List Char :=
  let piece := (cs.splitOn '\n')[i]?.getD []
  if i + 1 < (cs.splitOn '\n').length then Comment.dropReturn piece else piece

theorem splitOn_of_not_mem {piece : List Char} (h : '\n' ∉ piece) :
    piece.splitOn '\n' = [piece] := by
  rw [List.splitOn_eq_splitOnP]
  exact List.splitOnP_eq_singleton fun c hc => beq_eq_false_iff_ne.2 fun he => h (he ▸ hc)

theorem splitOn_append_newline {piece : List Char} (h : '\n' ∉ piece) (rest : List Char) :
    (piece ++ '\n' :: rest).splitOn '\n' = piece :: rest.splitOn '\n' := by
  have happend : (piece ++ '\n' :: rest).splitOn '\n'
      = piece.splitOn '\n' ++ rest.splitOn '\n' := by
    simp only [List.splitOn_eq_splitOnP]
    exact List.splitOnP_append_cons piece rest (beq_self_eq_true '\n')
  rw [happend, splitOn_of_not_mem h, List.singleton_append]

/-- Every text is a single row, or a row with a line feed and the other rows behind it. -/
@[elab_as_elim]
theorem row_induction {motive : List Char → Prop}
    (last : ∀ piece, '\n' ∉ piece → motive piece)
    (next : ∀ piece rest, '\n' ∉ piece → motive rest → motive (piece ++ '\n' :: rest))
    (cs : List Char) : motive cs := by
  by_cases hmem : '\n' ∈ cs
  · obtain ⟨piece, rest, rfl, hpiece⟩ := List.eq_append_cons_of_mem hmem
    exact next piece rest hpiece (row_induction last next rest)
  · exact last cs hmem
termination_by cs.length

section

variable {piece : List Char} (h : '\n' ∉ piece)
include h

theorem row_of_last (i : Nat) : row piece i = if i = 0 then piece else [] := by
  rw [row, splitOn_of_not_mem h]
  cases i with
  | zero => rfl
  | succ i => rfl

theorem row_zero_append_newline (rest : List Char) :
    row (piece ++ '\n' :: rest) 0 = Comment.dropReturn piece := by
  have hpos : 0 < (rest.splitOn '\n').length := List.length_pos_of_ne_nil (List.splitOn_ne_nil _ _)
  rw [row, splitOn_append_newline h, List.length_cons, if_pos (by omega)]
  rfl

theorem row_succ_append_newline (rest : List Char) (i : Nat) :
    row (piece ++ '\n' :: rest) (i + 1) = row rest i := by
  simp only [row, splitOn_append_newline h, List.length_cons, List.getElem?_cons_succ,
    Nat.add_lt_add_iff_right]

end

/-! ## Lines -/

/-- Whether nothing in a text ends a line. -/
def IsUnbroken (cs : List Char) : Prop := ∀ c ∈ cs, isLineBreak c = false

instance (cs : List Char) : Decidable (IsUnbroken cs) :=
  inferInstanceAs (Decidable (∀ c ∈ cs, _))

theorem linesFrom_cons {c : Char} (h : isLineBreak c = false) (line cs : List Char) :
    linesFrom line (c :: cs) = linesFrom (c :: line) cs := by
  have hreturn : c ≠ '\r' := by
    rintro rfl
    cases h
  rw [linesFrom.eq_3 line c cs fun _ hc _ => hreturn hc, h]
  rfl

/-- Characters that end no line are read into the line. -/
theorem linesFrom_append {front : List Char} (h : IsUnbroken front) (line cs : List Char) :
    linesFrom line (front ++ cs) = linesFrom (front.reverse ++ line) cs := by
  induction front generalizing line with
  | nil => rfl
  | cons c front ih =>
    rw [List.cons_append, linesFrom_cons (h c (List.mem_cons_self ..)),
      ih fun d hd => h d (List.mem_cons_of_mem c hd), List.reverse_cons, List.append_assoc]
    rfl

/-- A text that nothing breaks is one line, or none if it is empty. -/
theorem lines_of_unbroken {line : List Char} (h : IsUnbroken line) :
    lines line = if line.isEmpty then [] else [line] := by
  have happend := linesFrom_append h [] []
  rw [List.append_nil, List.append_nil] at happend
  rw [lines, happend, linesFrom, List.isEmpty_reverse, List.reverse_reverse]

/-- A line may be ended by a line feed, or by a carriage return and a line feed. -/
theorem lines_append_newline {line : List Char} (h : IsUnbroken line) (rest : List Char) :
    lines (line ++ '\n' :: rest) = line :: lines rest ∧
      lines (line ++ '\r' :: '\n' :: rest) = line :: lines rest := by
  simp only [lines, linesFrom_append h, List.append_nil]
  constructor
  · rw [linesFrom.eq_3 _ _ _ fun _ hc _ => absurd hc (by decide), if_pos (by decide),
      List.reverse_reverse]
  · rw [linesFrom, List.reverse_reverse]

/-- Whatever is read into a line in front, the lines hold nothing that ends lines. -/
theorem isUnbroken_of_mem_linesFrom {front cs line : List Char} (hfront : IsUnbroken front)
    (h : line ∈ linesFrom front cs) : IsUnbroken line := by
  have hnil : IsUnbroken [] := fun c hc => absurd hc List.not_mem_nil
  have hreverse : IsUnbroken front.reverse := fun c hc => hfront c (List.mem_reverse.1 hc)
  induction front, cs using linesFrom.induct with
  | case1 front hempty =>
    rw [linesFrom, if_pos hempty] at h
    cases h
  | case2 front hempty =>
    rw [linesFrom, if_neg hempty, List.mem_singleton] at h
    exact h ▸ hreverse
  | case3 front cs ih =>
    rw [linesFrom, List.mem_cons] at h
    obtain rfl | h := h
    · exact hreverse
    · exact ih hnil h hnil
  | case4 front c cs hpair hbreak ih =>
    rw [linesFrom.eq_3 front c cs hpair, if_pos hbreak, List.mem_cons] at h
    obtain rfl | h := h
    · exact hreverse
    · exact ih hnil h hnil
  | case5 front c cs hpair hbreak ih =>
    rw [linesFrom.eq_3 front c cs hpair, if_neg hbreak] at h
    have hcons : IsUnbroken (c :: front) :=
      List.forall_mem_cons.2 ⟨by simpa using hbreak, hfront⟩
    exact ih hcons h fun d hd => hcons d (List.mem_reverse.1 hd)

/-- **A line holds nothing that ends lines.** -/
theorem isUnbroken_of_mem_lines {cs line : List Char} (h : line ∈ lines cs) : IsUnbroken line :=
  isUnbroken_of_mem_linesFrom (fun _ hc => absurd hc List.not_mem_nil) h

end Text

namespace ParseTree

/-! ## Rows and lines -/

open Text

theorem isUnbroken_quotedLine (cs : List Char) (i : Nat) : IsUnbroken (quotedLine cs i) := by
  rw [quotedLine]
  cases hline : (lines cs)[i]? with
  | none => exact fun c hc => absurd hc List.not_mem_nil
  | some line => exact isUnbroken_of_mem_lines (List.mem_of_getElem? hline)

/-- A carriage return is left on a row, or not. -/
theorem dropReturn_cases (cs : List Char) :
    cs = Comment.dropReturn cs ∨ cs = Comment.dropReturn cs ++ ['\r'] := by
  rw [Comment.dropReturn]
  split
  next h => exact Or.inr (List.dropLast_append_getLast? '\r' h).symm
  next => exact Or.inl rfl

/-- The lines of a text that starts with a whole row in which nothing else ends lines. -/
theorem lines_append_of_isUnbroken {piece : List Char} (h : IsUnbroken (Comment.dropReturn piece))
    (rest : List Char) :
    lines (piece ++ '\n' :: rest) = Comment.dropReturn piece :: lines rest := by
  obtain ⟨hnewline, hreturn⟩ := lines_append_newline h rest
  rcases dropReturn_cases piece with hpiece | hpiece
  · rwa [← hpiece] at hnewline ⊢
  · have happend : piece ++ '\n' :: rest = Comment.dropReturn piece ++ '\r' :: '\n' :: rest := by
      conv_lhs => rw [hpiece, List.append_assoc, List.singleton_append]
    rw [happend, hreturn]

/-- The line that is looked up for a row is the row, if up to there nothing but line feeds ends
lines. -/
theorem quotedLine_eq_row {cs : List Char} {i : Nat} (h : ∀ j ≤ i, IsUnbroken (row cs j)) :
    quotedLine cs i = row cs i := by
  induction cs using row_induction generalizing i with
  | last piece hpiece =>
    have hzero := h 0 (Nat.zero_le i)
    rw [row_of_last hpiece, if_pos rfl] at hzero
    rw [row_of_last hpiece, quotedLine, lines_of_unbroken hzero]
    cases piece with
    | nil => simp
    | cons c piece => cases i <;> rfl
  | next piece rest hpiece ih =>
    have hzero := h 0 (Nat.zero_le i)
    rw [row_zero_append_newline hpiece] at hzero
    rw [quotedLine, lines_append_of_isUnbroken hzero]
    cases i with
    | zero => rw [row_zero_append_newline hpiece]; rfl
    | succ i =>
      rw [row_succ_append_newline hpiece, ← ih fun j hj => ?_]
      · rfl
      · have hj := h (j + 1) (Nat.succ_le_succ hj)
        rwa [row_succ_append_newline hpiece] at hj

/-- **Rows and lines agree as far as the rows hold nothing that ends lines**, and no farther. -/
theorem quotedLine_eq_row_iff (cs : List Char) (last : Nat) :
    (∀ i ≤ last, quotedLine cs i = row cs i) ↔ ∀ i ≤ last, IsUnbroken (row cs i) := by
  constructor
  · intro h i hi
    rw [← h i hi]
    exact isUnbroken_quotedLine cs i
  · intro h i hi
    exact quotedLine_eq_row fun j hj => h j (Nat.le_trans hj hi)

/-! ## The report -/

/-- A tree that is a single problem on a row. -/
def problemAt (i : Nat) : ParseTree :=
  .node ⟨0, "ERROR", true, true, false, false, none, ⟨0, 0, ⟨i, 0⟩, ⟨i, 0⟩⟩⟩ []

/-- The node that a refusal is about. -/
theorem eq_refusal_of_isReported {text origin : String} {root n : ParseTree} {report : SyntaxReport}
    (hreport : root.verdict text origin = .error report)
    (hn : IsReported (Utf8.ofString text) root n) : report = n.refusal text origin := by
  have hrefusal : root.verdict text origin = .error (n.refusal text origin) :=
    verdict_eq_error_iff.2 ⟨n, hn, rfl⟩
  exact Except.error.inj (hreport.symm.trans hrefusal)

/-- **What a report quotes.**  It is the line of the text, cut wherever something ends a line, whose
number is that of the row where the reported node starts; nothing, if there are fewer lines.  The
reports on nodes that start on the first rows of a text, up to a last one, all quote the row where
the node starts, if and only if nothing but line feeds ends lines in these rows. -/
theorem quotes_rows_iff (text origin : String) (last : Nat) :
    (∀ root report, root.verdict text origin = .error report →
      ∃ n, IsReported (Utf8.ofString text) root n ∧ report.line = n.span.start.row + 1 ∧
        report.text = String.ofList ((lines text.toList)[n.span.start.row]?.getD [])) ∧
    ((∀ root report n, root.verdict text origin = .error report →
        IsReported (Utf8.ofString text) root n → n.span.start.row ≤ last →
          report.text = String.ofList (row text.toList n.span.start.row)) ↔
      ∀ i ≤ last, IsUnbroken (row text.toList i)) := by
  refine ⟨fun root report hreport => ?_, fun h => ?_, fun h root report n hreport hn hrow => ?_⟩
  · obtain ⟨n, hn, rfl⟩ := verdict_eq_error_iff.1 hreport
    exact ⟨n, hn, rfl, rfl⟩
  · -- a single problem on each row is enough to show what the reports quote
    rw [← quotedLine_eq_row_iff]
    intro i hi
    have hn : IsReported (Utf8.ofString text) (problemAt i) (problemAt i) := .problem rfl
    have hquoted := h _ _ _ (verdict_eq_error_iff.2 ⟨_, hn, rfl⟩) hn hi
    exact String.ofList_injective hquoted
  · rw [eq_refusal_of_isReported hreport hn]
    have hquoted := (quotedLine_eq_row_iff text.toList last).2 h _ hrow
    exact congrArg String.ofList hquoted

/-! ## A row that is not quoted -/

namespace Paged

/-- A form feed behind the first row, and a surplus keyword on the second. -/
def text : String := "x = 1\x0c\nend\n"

def keyword : ParseTree :=
  .node ⟨5, "identifier", true, false, false, false, none, ⟨7, 10, ⟨1, 0⟩, ⟨1, 3⟩⟩⟩ []

/-- The parse tree of the text. -/
def tree : ParseTree :=
  .node ⟨0, "program", true, false, false, false, none, ⟨0, 11, ⟨0, 0⟩, ⟨2, 0⟩⟩⟩
    [.node ⟨1, "assignment", true, false, false, false, none, ⟨0, 5, ⟨0, 0⟩, ⟨0, 5⟩⟩⟩
      [.node ⟨2, "identifier", true, false, false, false, some "left", ⟨0, 1, ⟨0, 0⟩, ⟨0, 1⟩⟩⟩ [],
        .node ⟨3, "=", false, false, false, false, none, ⟨2, 3, ⟨0, 2⟩, ⟨0, 3⟩⟩⟩ [],
        .node ⟨4, "integer", true, false, false, false, some "right", ⟨4, 5, ⟨0, 4⟩, ⟨0, 5⟩⟩⟩ []],
      keyword]

end Paged

/-- **A report may quote another line than the one it points at**: the row of the keyword is quoted
as empty. -/
theorem quotes_other_line :
    IsReported (Utf8.ofString Paged.text) Paged.tree Paged.keyword ∧
      Paged.keyword.span.start.row = 1 ∧ row Paged.text.toList 1 = "end".toList ∧
      ∃ report, Paged.tree.verdict Paged.text "string" = .error report ∧ report.line = 2 ∧
        report.text = "" := by
  have hfind : (Paged.tree.lineages []).find?
      (fun v => v.2.isStray (Utf8.ofString Paged.text) v.1)
        = some ([Paged.tree], Paged.keyword) := by rfl
  have hreported : IsReported (Utf8.ofString Paged.text) Paged.tree Paged.keyword :=
    .stray (by decide) hfind
  refine ⟨hreported, rfl, by decide, _, verdict_eq_error_iff.2 ⟨_, hreported, rfl⟩, rfl, by decide⟩

end ParseTree
end RubySource
