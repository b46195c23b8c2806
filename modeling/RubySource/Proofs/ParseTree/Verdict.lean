import RubySource.Proofs.ParseTree.Problem

/-!
# What is refused, and where

The verdict on a tree can be told from the list of all its nodes, without the searches that the
check makes.  A refusal reports the first problem; if there is a mark but no problem, the root; and
in a tree without marks the first stray keyword.

## What is here

* `IsReported`, `problem?_eq_some_iff` — the node that a refusal reports.
* `verdict_eq_error_iff`, `verdict_eq_ok_iff` — the two verdicts; `exists_refusal_iff` says when a
  tree is refused.
* `refused_exactly` — **what is refused, and where the report points**.
-/

set_option autoImplicit false

namespace RubySource
namespace ParseTree

/-! ## The node that is reported -/

/-- The node that a refusal reports. -/
inductive IsReported (source : Bytes) (root : ParseTree) : ParseTree → Prop
  /-- The first problem of all nodes. -/
  | problem {n : ParseTree} (h : root.nodes.find? (·.label.isProblem) = some n) :
      IsReported source root n
  /-- The root, if something is marked and nothing is a problem. -/
  | mark (hproblem : ∀ n ∈ root.nodes, n.label.isProblem = false)
      (hmark : ∃ n ∈ root.nodes, n.label.isMarked = true) : IsReported source root root
  /-- The first stray keyword of all nodes, if nothing is marked. -/
  | stray {above : List ParseTree} {n : ParseTree}
      (hmark : ∀ n ∈ root.nodes, n.label.isMarked = false)
      (h : (root.lineages []).find? (fun v => v.2.isStray source v.1) = some (above, n)) :
      IsReported source root n

section

variable {text origin : String} {root : ParseTree}

theorem hasError_eq_false_iff :
    root.hasError = false ↔ ∀ n ∈ root.nodes, n.label.isMarked = false := by
  rw [← Bool.not_eq_true, hasError_iff]
  simp only [not_exists, not_and, Bool.not_eq_true]

/-- In a tree without marks the problem is the first stray keyword. -/
theorem problem?_of_hasError_eq_false (source : Bytes) (h : root.hasError = false) :
    root.problem? source =
      ((root.lineages []).find? fun v => v.2.isStray source v.1).map Prod.snd := by
  rw [problem?, if_neg (by simp [h])]
  exact strayKeyword?_eq_find? source (show root.isOpen [] = true from rfl)

/-- In a marked tree the problem is the first one of all nodes, or else the root. -/
theorem problem?_of_hasError_eq_true (source : Bytes) (h : root.hasError = true) :
    root.problem? source = some ((root.nodes.find? (·.label.isProblem)).getD root) := by
  rw [problem?, if_pos h, firstProblem?_eq_find?]

/-- The check settles on the node that is to be reported. -/
theorem problem?_eq_some_iff {source : Bytes} {n : ParseTree} :
    root.problem? source = some n ↔ IsReported source root n := by
  constructor
  · intro hn
    cases he : root.hasError with
    | false =>
      rw [problem?_of_hasError_eq_false source he, Option.map_eq_some_iff] at hn
      obtain ⟨⟨above, n⟩, hfind, rfl⟩ := hn
      exact .stray (hasError_eq_false_iff.1 he) hfind
    | true =>
      rw [problem?_of_hasError_eq_true source he, Option.some_inj] at hn
      cases hfind : root.nodes.find? (·.label.isProblem) with
      | none =>
        rw [hfind] at hn
        obtain rfl : root = n := hn
        exact .mark (fun m hm => by simpa using List.find?_eq_none.1 hfind m hm)
          (hasError_iff.1 he)
      | some m =>
        rw [hfind] at hn
        obtain rfl : m = n := hn
        exact .problem hfind
  · intro h
    cases h with
    | problem hfind =>
      have he := hasError_of_isProblem (List.mem_of_find?_eq_some hfind)
        (List.find?_eq_some_iff_append.1 hfind).1
      rw [problem?_of_hasError_eq_true source he, hfind]
      rfl
    | mark hproblem hmark =>
      have hfind : root.nodes.find? (·.label.isProblem) = none :=
        List.find?_eq_none.2 fun m hm => by simp [hproblem m hm]
      rw [problem?_of_hasError_eq_true source (hasError_iff.2 hmark), hfind]
      rfl
    | stray hmark hfind =>
      rw [problem?_of_hasError_eq_false source (hasError_eq_false_iff.2 hmark), hfind]
      rfl

/-- A tree is refused with a report on the node that is to be reported. -/
theorem verdict_eq_error_iff {report : SyntaxReport} :
    root.verdict text origin = .error report ↔
      ∃ n, IsReported (Utf8.ofString text) root n ∧ report = n.refusal text origin := by
  rw [verdict]
  simp only [← problem?_eq_some_iff]
  cases root.problem? (Utf8.ofString text) with
  | none => simp
  | some n =>
    constructor
    · intro h
      exact ⟨n, rfl, (Except.error.inj h).symm⟩
    · rintro ⟨m, hm, rfl⟩
      rw [Option.some.inj hm]

/-- A tree is accepted if there is nothing to report, and then handed on with its comments. -/
theorem verdict_eq_ok_iff {accepted : Accepted} :
    root.verdict text origin = .ok accepted ↔
      (∀ n, ¬ IsReported (Utf8.ofString text) root n) ∧
        accepted = ⟨if root.hasCode then some root else none,
          root.comments (Utf8.ofString text)⟩ := by
  rw [verdict]
  simp only [← problem?_eq_some_iff]
  cases root.problem? (Utf8.ofString text) with
  | none =>
    constructor
    · intro h
      exact ⟨nofun, (Except.ok.inj h).symm⟩
    · rintro ⟨-, rfl⟩
      rfl
  | some n => simp

/-- There is something to report exactly if a node is marked or a keyword is stray. -/
theorem exists_isReported_iff {source : Bytes} :
    (∃ n, IsReported source root n) ↔
      (∃ n ∈ root.nodes, n.label.isMarked = true) ∨
        ∃ v ∈ root.lineages [], v.2.isStray source v.1 = true := by
  simp only [← problem?_eq_some_iff, ← Option.isSome_iff_exists]
  cases he : root.hasError with
  | false =>
    have hmark : ¬ ∃ n ∈ root.nodes, n.label.isMarked = true := by
      rw [← hasError_iff, he]
      exact Bool.false_ne_true
    rw [problem?_of_hasError_eq_false source he, Option.isSome_map, List.find?_isSome]
    simp only [hmark, false_or]
  | true =>
    rw [problem?_of_hasError_eq_true source he]
    simp only [hasError_iff.1 he, Option.isSome_some, true_or]

/-- A tree is refused exactly if there is something to report. -/
theorem exists_refusal_iff :
    (∃ report, root.verdict text origin = .error report) ↔
      (∃ n ∈ root.nodes, n.label.isMarked = true) ∨
        ∃ v ∈ root.lineages [], v.2.isStray (Utf8.ofString text) v.1 = true := by
  rw [← exists_isReported_iff]
  simp only [verdict_eq_error_iff]
  exact ⟨fun ⟨_, n, hn, _⟩ => ⟨n, hn⟩, fun ⟨n, hn⟩ => ⟨_, n, hn, rfl⟩⟩

end

/-- **What is refused, and where the report points.**  A tree is refused exactly if one of its nodes
is marked, anonymous ones included, or one of them is a stray keyword.  The report points at the
first problem of all nodes, at the root if something is marked and nothing is a problem, and at the
first stray keyword if nothing is marked.  Where all nodes lie properly in one another, no problem
starts in front of the node that is reported. -/
theorem refused_exactly (text origin : String) (root : ParseTree) :
    ((∃ report, root.verdict text origin = .error report) ↔
      (∃ n ∈ root.nodes, n.label.isMarked = true) ∨
        ∃ v ∈ root.lineages [], v.2.isStray (Utf8.ofString text) v.1 = true) ∧
    ∀ report, root.verdict text origin = .error report →
      ∃ n, IsReported (Utf8.ofString text) root n ∧
        report.line = n.span.start.row + 1 ∧ report.column = n.span.start.column + 1 ∧
        (root.NestedThroughout →
          ∀ m ∈ root.nodes, m.label.isProblem = true → n.startByte ≤ m.startByte) := by
  refine ⟨exists_refusal_iff, fun report hreport => ?_⟩
  obtain ⟨n, hn, rfl⟩ := verdict_eq_error_iff.1 hreport
  refine ⟨n, hn, rfl, rfl, fun hnested m hm hproblem => ?_⟩
  cases hn with
  | problem hfind => exact hnested.startByte_le_of_find? hfind hm hproblem
  | mark hnone hmark =>
    rw [hnone m hm] at hproblem
    cases hproblem
  | stray hmark hfind =>
    have hclean := hmark m hm
    rw [Label.isMarked, hproblem, Bool.true_or] at hclean
    cases hclean

end ParseTree
end RubySource
