import Mathlib.Data.List.TakeWhile
import RubySource.Proofs.ParseTree.QuotedLine
import RubySource.Proofs.Text.Quoted

/-!
# What a report complains of

A report names what it did not expect: the first line of the text that the reported node covers,
blanks at the ends left out.  The node may cover anything, also bytes that are no text, or none, so
that there may be nothing to name.  Then the report speaks of the end of the input.  That there is a
first line whenever anything is left, and that it is not empty, rests on one fact: whatever ends a
line is a blank.

## What is here

* `Text.isBlank_of_isLineBreak` — what ends a line is a blank.
* `Text.exists_trim`, `Text.getLast_trimRight_not_blank` — what trimming leaves out, and what not.
* `Text.head?_lines` — the first line of a text.
* `Text.Leads` — **the specification**: the first line of a text that says anything;
  `Text.exists_leads` says that trimming and cutting into lines finds it.
* `complaint_of_blank`, `exists_complaint_of_not_blank` — what is complained of at a node.
* `complains_of_first_line` — the payoff: **a refused tree is reported, and the report quotes a
  first line if and only if the node covers more than blanks**.
-/

set_option autoImplicit false

namespace RubySource
namespace Text

/-! ## Blanks at the ends -/

/-- What ends a line is a blank. -/
theorem isBlank_of_isLineBreak {c : Char} (h : isLineBreak c = true) : isBlank c = true := by
  simp only [isLineBreak, isBlank, Bool.or_eq_true, Bool.and_eq_true, decide_eq_true_eq,
    beq_iff_eq] at h ⊢
  omega

theorem isLineBreak_eq_false {c : Char} (h : isBlank c = false) : isLineBreak c = false := by
  rw [← Bool.not_eq_true]
  intro hbreak
  rw [isBlank_of_isLineBreak hbreak] at h
  cases h

theorem exists_trimRight (cs : List Char) :
    ∃ back, cs = trimRight cs ++ back ∧ ∀ c ∈ back, isBlank c = true := by
  induction cs with
  | nil => exact ⟨[], rfl, nofun⟩
  | cons c cs ih =>
    obtain ⟨back, hcs, hback⟩ := ih
    rw [trimRight]
    split
    next hnil =>
      rw [hnil, List.nil_append] at hcs
      subst hcs
      split
      next hblank => exact ⟨c :: cs, rfl, List.forall_mem_cons.2 ⟨hblank, hback⟩⟩
      next => exact ⟨cs, rfl, hback⟩
    next d ds hcons =>
      rw [hcons] at hcs
      exact ⟨back, congrArg (c :: ·) hcs, hback⟩

/-- What trimming leaves out are blanks at the ends. -/
theorem exists_trim (cs : List Char) :
    ∃ front back, cs = front ++ trim cs ++ back ∧ (∀ c ∈ front, isBlank c = true) ∧
      ∀ c ∈ back, isBlank c = true := by
  obtain ⟨back, hright, hback⟩ := exists_trimRight (trimLeft cs)
  refine ⟨cs.takeWhile isBlank, back, ?_, fun c => List.mem_takeWhile_imp, hback⟩
  rw [List.append_assoc, trim, ← hright, trimLeft, List.takeWhile_append_dropWhile]

/-- What trimming leaves does not end with a blank. -/
theorem getLast_trimRight_not_blank {cs : List Char} {c : Char}
    (h : (trimRight cs).getLast? = some c) : isBlank c = false := by
  induction cs with
  | nil => cases h
  | cons d cs ih =>
    rw [trimRight] at h
    split at h
    next =>
      split at h
      next => cases h
      next hblank =>
        cases h
        simpa using hblank
    next e es hcons =>
      rw [List.getLast?_cons_cons, ← hcons] at h
      exact ih h

/-- Where a blank comes first and none last, there is more than the blank. -/
theorem exists_not_blank_of_getLast? {c : Char} {cs : List Char} (hc : isBlank c = true)
    (h : ∀ d ∈ (c :: cs).getLast?, isBlank d = false) : ∃ d ∈ cs, isBlank d = false := by
  cases cs with
  | nil =>
    rw [h c rfl] at hc
    cases hc
  | cons d cs =>
    rw [List.getLast?_cons_cons] at h
    exact ⟨_, List.getLast_mem _, h _ (List.getLast?_eq_some_getLast (List.cons_ne_nil d cs))⟩

/-! ## The first line -/

theorem head?_linesFrom {front : List Char} (h : front ≠ []) (cs : List Char) :
    (linesFrom front cs).head?
      = some (front.reverse ++ cs.takeWhile fun c => !isLineBreak c) := by
  induction cs generalizing front with
  | nil => simp [linesFrom, h]
  | cons c cs ih =>
    by_cases hbreak : isLineBreak c = true
    · have hhead : (linesFrom front (c :: cs)).head? = some front.reverse := by
        rw [linesFrom.eq_def]
        split
        next hnil => cases hnil
        next cs' hpair => rfl
        next d ds hpair hcons =>
          cases hcons
          rw [if_pos hbreak]
          rfl
      rw [hhead, List.takeWhile_cons_of_neg (by simp [hbreak]), List.append_nil]
    · rw [Bool.not_eq_true] at hbreak
      rw [linesFrom_cons hbreak, ih (List.cons_ne_nil _ _),
        List.takeWhile_cons_of_pos (by simp [hbreak]), List.reverse_cons, List.append_assoc,
        List.singleton_append]

/-- The first line of a text that starts with no line end. -/
theorem head?_lines {c : Char} (h : isLineBreak c = false) (cs : List Char) :
    (lines (c :: cs)).head? = some (c :: cs.takeWhile fun d => !isLineBreak d) := by
  rw [lines, linesFrom_cons h, head?_linesFrom (List.cons_ne_nil _ _)]
  rfl

/-- Lines are cut off a text only where it has a line end. -/
theorem exists_takeWhile_not_isLineBreak (cs : List Char) :
    (cs.takeWhile fun c => !isLineBreak c) = cs ∨ ∃ c rest, isLineBreak c = true ∧
      cs = (cs.takeWhile fun c => !isLineBreak c) ++ c :: rest := by
  have hcs : (cs.takeWhile fun c => !isLineBreak c) ++ (cs.dropWhile fun c => !isLineBreak c)
      = cs := List.takeWhile_append_dropWhile
  cases hdrop : cs.dropWhile fun c => !isLineBreak c with
  | nil =>
    rw [hdrop, List.append_nil] at hcs
    exact Or.inl hcs
  | cons c rest =>
    have hbreak := List.head?_dropWhile_not (fun c => !isLineBreak c) cs
    rw [hdrop] at hbreak hcs
    exact Or.inr ⟨c, rest, by simpa using hbreak, hcs.symm⟩

/-- The first line of a text that says anything: blanks stand in front of it, and behind it either a
line end with more than blanks to follow, or blanks alone.  Blanks at its own end belong to it only
if more follows. -/
structure Leads (cs line : List Char) : Prop where
  isUnbroken : IsUnbroken line
  starts : ∃ c rest, line = c :: rest ∧ isBlank c = false
  stands : ∃ front back, cs = front ++ line ++ back ∧ (∀ c ∈ front, isBlank c = true) ∧
    ((∃ c rest, back = c :: rest ∧ isLineBreak c = true ∧ ∃ d ∈ rest, isBlank d = false) ∨
      (∀ c ∈ back, isBlank c = true) ∧ ∀ c ∈ line.getLast?, isBlank c = false)

theorem Leads.ne_nil {cs line : List Char} (h : Leads cs line) : line ≠ [] := by
  obtain ⟨c, rest, rfl, -⟩ := h.starts
  exact List.cons_ne_nil c rest

/-- Trimming a text and cutting it into lines finds its first line. -/
theorem exists_leads {cs : List Char} (h : ∃ c ∈ cs, isBlank c = false) :
    ∃ line, (lines (trim cs)).head? = some line ∧ Leads cs line := by
  have hne : trim cs ≠ [] := by
    rw [Ne, trim_eq_nil_iff]
    intro hall
    obtain ⟨c, hc, hblank⟩ := h
    rw [hall c hc] at hblank
    cases hblank
  obtain ⟨c, rest, htrim⟩ := List.exists_cons_of_ne_nil hne
  have hblank : isBlank c = false := head_trim_not_blank htrim
  have hline : (lines (trim cs)).head? = some (c :: rest.takeWhile fun d => !isLineBreak d) := by
    rw [htrim]
    exact head?_lines (isLineBreak_eq_false hblank) rest
  obtain ⟨front, back, hcs, hfront, hback⟩ := exists_trim cs
  have hlast : ∀ d ∈ (trim cs).getLast?, isBlank d = false := fun d hd =>
    getLast_trimRight_not_blank hd
  refine ⟨_, hline, isUnbroken_of_mem_lines (List.mem_of_head? hline), ⟨c, _, rfl, hblank⟩, ?_⟩
  obtain hall | ⟨d, more, hbreak, hrest⟩ := exists_takeWhile_not_isLineBreak rest
  · rw [hall, ← htrim]
    exact ⟨front, back, hcs, hfront, Or.inr ⟨hback, hlast⟩⟩
  · refine ⟨front, d :: more ++ back, ?_, hfront, Or.inl ⟨d, more ++ back, rfl, hbreak, ?_⟩⟩
    · conv_lhs => rw [hcs, htrim, hrest]
      simp
    · -- the last character that is left is no blank, so it is not the line end itself
      rw [htrim, hrest, ← List.cons_append, List.getLast?_append_cons] at hlast
      obtain ⟨e, he, hmore⟩ := exists_not_blank_of_getLast? (isBlank_of_isLineBreak hbreak) hlast
      exact ⟨e, List.mem_append_left back he, hmore⟩

end Text

namespace ParseTree

open Text

/-! ## The complaint -/

/-- The place that a report names. -/
def place (n : ParseTree) : String :=
  " at line " ++ toString (n.span.start.row + 1)
    ++ ", column " ++ toString (n.span.start.column + 1)

theorem message_refusal (text origin : String) (n : ParseTree) :
    (n.refusal text origin).message = n.complaint (Utf8.ofString text) ++ n.place :=
  rfl

theorem unexpectedToken_eq_nil {source : Bytes} {n : ParseTree}
    (h : ∀ c ∈ Utf8.decodeLossy (n.text source), isBlank c = true) :
    n.unexpectedToken source = [] := by
  rw [unexpectedToken, (trim_eq_nil_iff _).2 h]
  rfl

/-- What is complained of at a node that is not missing and covers only blanks. -/
theorem complaint_of_blank {source : Bytes} {n : ParseTree} (hmissing : n.label.isMissing = false)
    (h : ∀ c ∈ Utf8.decodeLossy (n.text source), isBlank c = true) :
    n.complaint source = "unexpected end of input" := by
  rw [complaint, hmissing, unexpectedToken_eq_nil h]
  rfl

/-- What is complained of at a node that is not missing and covers more than blanks. -/
theorem exists_complaint_of_not_blank {source : Bytes} {n : ParseTree}
    (hmissing : n.label.isMissing = false)
    (h : ∃ c ∈ Utf8.decodeLossy (n.text source), isBlank c = false) :
    ∃ line, n.complaint source = "unexpected " ++ String.ofList (Text.quoted line) ∧
      (lines (trim (Utf8.decodeLossy (n.text source)))).head? = some line ∧
      Leads (Utf8.decodeLossy (n.text source)) line := by
  obtain ⟨line, hhead, hleads⟩ := exists_leads h
  have htoken : n.unexpectedToken source = line := by
    rw [unexpectedToken, hhead]
    rfl
  have hempty : line.isEmpty = false := by simpa using hleads.ne_nil
  refine ⟨line, ?_, hhead, hleads⟩
  rw [complaint, hmissing, htoken, hempty]
  rfl

/-- A quoted text does not say that the input ends. -/
theorem unexpected_quoted_ne (line : List Char) (s : String) :
    "unexpected " ++ String.ofList (Text.quoted line) ++ s ≠ "unexpected end of input" ++ s := by
  intro h
  have hlist := congrArg String.toList h
  simp only [String.toList_append, String.toList_ofList, List.append_left_inj] at hlist
  rcases quoteMark_cases line with hmark | hmark <;>
    simp [Text.quoted, hmark] at hlist

/-- **What a report complains of.**  A tree that is not accepted is refused with a report on one of
its nodes, wherever that node lies.  Unless the node is missing, the report says that the input ends
if and only if the node covers blanks alone; if it covers more, the report quotes the first line
that says anything, which is what trimming the text and cutting it into lines finds. -/
theorem complains_of_first_line (text origin : String) (root : ParseTree)
    (hrefused : ∀ accepted, root.verdict text origin ≠ .ok accepted) :
    ∃ n report, IsReported (Utf8.ofString text) root n ∧
      root.verdict text origin = .error report ∧
      (n.label.isMissing = true →
        report.message = "missing " ++ quoted n.type ++ n.place) ∧
      (n.label.isMissing = false →
        let covered := Utf8.decodeLossy (n.text (Utf8.ofString text))
        (report.message = "unexpected end of input" ++ n.place ↔
          ∀ c ∈ covered, isBlank c = true) ∧
        ((∃ c ∈ covered, isBlank c = false) →
          ∃ line, report.message = "unexpected " ++ String.ofList (Text.quoted line) ++ n.place ∧
            (lines (trim covered)).head? = some line ∧ Leads covered line)) := by
  cases hreport : root.verdict text origin with
  | ok accepted => exact absurd hreport (hrefused accepted)
  | error report =>
    obtain ⟨n, hn, rfl⟩ := verdict_eq_error_iff.1 hreport
    refine ⟨n, _, hn, rfl, fun hmissing => ?_, fun hmissing => ?_⟩
    · rw [message_refusal, complaint, if_pos hmissing]
    · refine ⟨⟨fun hends => ?_, fun hblank => ?_⟩, fun hmore => ?_⟩
      · by_contra hmore
        simp only [not_forall, Bool.not_eq_true, exists_prop] at hmore
        obtain ⟨line, hline, -⟩ := exists_complaint_of_not_blank hmissing hmore
        rw [message_refusal, hline] at hends
        exact unexpected_quoted_ne line _ hends
      · rw [message_refusal, complaint_of_blank hmissing hblank]
      · obtain ⟨line, hline, hleads⟩ := exists_complaint_of_not_blank hmissing hmore
        exact ⟨line, by rw [message_refusal, hline], hleads⟩

/-! ## A report on a part of a character -/

namespace Torn

/-- A letter of two bytes, and the end of the line. -/
def text : String := "é\n"

/-- A mark that starts within the letter, ends far behind the text, and stands on a row that the
text does not have. -/
def tree : ParseTree :=
  .node ⟨0, "ERROR", true, true, false, true, none, ⟨1, 99, ⟨7, 0⟩, ⟨9, 0⟩⟩⟩ []

end Torn

/-- The mark is what is reported: it covers half a letter, which is quoted as the replacement
character. -/
theorem complains_of_half_letter :
    (∀ accepted, Torn.tree.verdict Torn.text "string" ≠ .ok accepted) ∧
      ∃ report, Torn.tree.verdict Torn.text "string" = .error report ∧
        report.message = "unexpected '\ufffd' at line 8, column 1" := by
  have hn : IsReported (Utf8.ofString Torn.text) Torn.tree Torn.tree := .problem rfl
  have hrefused : ∀ accepted, Torn.tree.verdict Torn.text "string" ≠ .ok accepted := by
    intro accepted haccepted
    exact (verdict_eq_ok_iff.1 haccepted).1 _ hn
  obtain ⟨n, report, hreported, hreport, -, hcovers⟩ :=
    complains_of_first_line Torn.text "string" Torn.tree hrefused
  obtain rfl : Torn.tree = n :=
    Option.some.inj ((problem?_eq_some_iff.2 hn).symm.trans (problem?_eq_some_iff.2 hreported))
  obtain ⟨line, hmessage, hhead, -⟩ := (hcovers rfl).2 ⟨'\ufffd', by decide, by decide⟩
  obtain rfl : ['\ufffd'] = line := Option.some.inj ((by decide :
    (lines (trim (Utf8.decodeLossy (Torn.tree.text (Utf8.ofString Torn.text))))).head?
      = some ['\ufffd']).symm.trans hhead)
  exact ⟨hrefused, report, hreport, hmessage.trans (by decide +kernel)⟩

end ParseTree
end RubySource
