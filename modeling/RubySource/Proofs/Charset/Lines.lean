import Mathlib.Algebra.GroupWithZero.Nat
import Mathlib.Data.List.Forall2
import RubySource.Proofs.Charset.Written
import RubySource.Proofs.Text.Line

/-!
# Reading line by line

Bytes may be cut behind each line feed and each line decoded alone.  Whether that gives the text
depends on how the character set writes it.  A byte that looks like a line feed may stand inside a
character, and then the line that ends with it is none.  And a line may start like a mark, and then
its first character is taken away.  Where neither happens, reading line by line is reading as a
whole.

## What is here

* `mapM_eq_ok_iff`, `exists_of_mapM_eq_error` — several runs of bytes are read one by one, up to the
  first that is no text.
* `Charset.ReadsInLines` — the texts whose lines are read as what they are.
* `Charset.readsInLines_of_mem` — in UTF-8, Latin-1 and ASCII these are all texts.
* `Charset.length_flatten_of_forall₂` — what reading line by line loses are the bytes of marks.
* `Charset.exists_decoded_lines_iff` — the payoff: **reading the lines of a written text gives that
  text exactly if it is one of these**.
* `Charset.decode_eq_ok_iff_lines` — in UTF-8, Latin-1 and ASCII **all bytes are read line by line
  as they are read as a whole**.
-/

set_option autoImplicit false

namespace RubySource

/-! ## One after the other -/

section Sequence

variable {ε α β : Type} {f : α → Except ε β} {xs : List α}

theorem mapM_eq_ok_iff {ys : List β} :
    xs.mapM f = .ok ys ↔ List.Forall₂ (fun x y => f x = .ok y) xs ys := by
  induction xs generalizing ys with
  | nil =>
    rw [List.mapM_nil, List.forall₂_nil_left_iff]
    exact ⟨fun h => (Except.ok.inj h).symm, fun h => congrArg Except.ok h.symm⟩
  | cons x xs ih =>
    rw [List.mapM_cons, List.forall₂_cons_left_iff]
    simp only [← ih]
    cases hx : f x with
    | error e => simp [bind, Except.bind]
    | ok y =>
      cases hxs : xs.mapM f with
      | error e => simp [bind, Except.bind]
      | ok ys => simp [bind, Except.bind, pure, Except.pure, eq_comm]

/-- The first failure is the failure of all. -/
theorem exists_of_mapM_eq_error {e : ε} (h : xs.mapM f = .error e) :
    ∃ before x after ys, xs = before ++ x :: after ∧ before.mapM f = .ok ys ∧ f x = .error e := by
  induction xs with
  | nil => cases h
  | cons x xs ih =>
    rw [List.mapM_cons] at h
    cases hx : f x with
    | error e' =>
      rw [hx] at h
      obtain rfl := Except.error.inj h
      exact ⟨[], x, xs, [], rfl, rfl, hx⟩
    | ok y =>
      cases hxs : xs.mapM f with
      | ok ys => rw [hx, hxs] at h; cases h
      | error e' =>
        rw [hx, hxs] at h
        obtain rfl := Except.error.inj h
        obtain ⟨before, x', after, ys, rfl, hys, hx'⟩ := ih hxs
        refine ⟨x :: before, x', after, y :: ys, rfl, ?_, hx'⟩
        rw [List.mapM_cons, hx, hys]
        rfl

end Sequence

namespace Charset

/-! ## Texts that are read line by line -/

/-- A text whose lines are read as what they are. -/
structure ReadsInLines (charset : Charset) (cs : List Char) : Prop where
  /-- No line feed stands inside a character. -/
  whole : ∀ c ∈ cs, 10 ∉ (charset.charBytes c).dropLast
  /-- No line starts with a character that is written like a mark. -/
  apart : cs.IsChain fun c next => (charset.charBytes c).getLast? = some 10 → ¬ charset.IsMark next

theorem ofNat_add_ne_newline {x k : Nat} (hk : 128 ≤ k) (hx : x + k < 256) :
    (10 : UInt8) ≠ UInt8.ofNat (x + k) := by
  intro h
  have hnat : (10 : UInt8).toNat = x + k := by rw [h, UInt8.toNat_ofNat_of_lt' hx]
  simp only [UInt8.reduceToNat] at hnat
  omega

/-- A character of several bytes has none of them in ASCII. -/
theorem newline_not_mem_dropLast_of_spells {bs : Bytes} {n : Nat} (h : Utf8.Spells bs n) :
    10 ∉ bs.dropLast := by
  cases h with
  | one hx => exact List.not_mem_nil
  | two hlo hx hy =>
    simp only [List.dropLast_cons_cons, List.dropLast_singleton, List.mem_singleton]
    exact ofNat_add_ne_newline (by decide) (by omega)
  | three hx hy hz hlo hhi =>
    simp only [List.dropLast_cons_cons, List.dropLast_singleton, List.mem_cons, List.not_mem_nil,
      or_false, not_or]
    exact ⟨ofNat_add_ne_newline (by decide) (by omega),
      ofNat_add_ne_newline (by decide) (by omega)⟩
  | four hx hy hz hw hlo hhi =>
    simp only [List.dropLast_cons_cons, List.dropLast_singleton, List.mem_cons, List.not_mem_nil,
      or_false, not_or]
    exact ⟨ofNat_add_ne_newline (by decide) (by omega),
      ofNat_add_ne_newline (by decide) (by omega), ofNat_add_ne_newline (by decide) (by omega)⟩

theorem cases_of_mem {charset : Charset} (h : charset ∈ [utf8, latin1, ascii]) :
    charset = utf8 ∨ charset = latin1 ∨ charset = ascii := by
  simpa using h

/-- In UTF-8, Latin-1 and ASCII every text is read line by line as what it is. -/
theorem readsInLines_of_mem {charset : Charset} (h : charset ∈ [utf8, latin1, ascii])
    (cs : List Char) : charset.ReadsInLines cs := by
  constructor
  · intro c _
    obtain rfl | rfl | rfl := cases_of_mem h
    · exact newline_not_mem_dropLast_of_spells (Utf8.spells_utf8EncodeChar c)
    · exact List.not_mem_nil
    · exact List.not_mem_nil
  · refine List.Pairwise.isChain (List.pairwise_of_forall fun c next _ => ?_)
    obtain rfl | rfl | rfl := cases_of_mem h <;> exact not_false

/-- These sets know no mark. -/
theorem mark_of_mem {charset : Charset} (h : charset ∈ [utf8, latin1, ascii]) :
    charset.mark = [] := by
  obtain rfl | rfl | rfl := cases_of_mem h <;> rfl

theorem markLength_of_mem {charset : Charset} (h : charset ∈ [utf8, latin1, ascii]) (bs : Bytes) :
    charset.markLength bs = 0 := by
  obtain rfl | rfl | rfl := cases_of_mem h <;> rfl

/-! ## The lines of a written text -/

section Lines

variable {charset : Charset}

theorem newline_not_mem_mark (charset : Charset) : 10 ∉ charset.mark := by
  cases charset <;> decide

/-- The mark is a part of the first line. -/
theorem splitAfterNewline_mark {bs first : Bytes} {rest : List Bytes}
    (h : Text.splitAfterNewline bs = first :: rest) :
    Text.splitAfterNewline (charset.mark ++ bs) = (charset.mark ++ first) :: rest := by
  by_cases hmark : charset.mark = []
  · rw [hmark, List.nil_append, List.nil_append, h]
  · rw [Text.splitAfterNewline_append hmark (newline_not_mem_mark charset), h]
    rfl

theorem textBytes_flatten (texts : List (List Char)) :
    charset.textBytes texts.flatten = (texts.map charset.textBytes).flatten := by
  induction texts with
  | nil => rfl
  | cons text texts ih =>
    rw [List.flatten_cons, List.map_cons, List.flatten_cons, ← ih]
    exact List.flatMap_append

/-- **What is lost by reading line by line are the bytes of marks.** -/
theorem length_flatten_of_forall₂ {lines : List Bytes} {texts : List (List Char)}
    (h : List.Forall₂ (fun line text => charset.decode line = .ok text) lines texts) :
    lines.flatten.length
      = (lines.map charset.markLength).sum + (charset.textBytes texts.flatten).length := by
  induction h with
  | nil => rfl
  | cons hline _ ih =>
    rw [textBytes_flatten] at ih ⊢
    simp only [List.flatten_cons, List.map_cons, List.sum_cons, List.length_append, ih,
      length_of_decode hline]
    omega

/-- Lines from which no mark is taken away are the bytes of texts. -/
theorem eq_map_of_forall₂ {lines : List Bytes} {texts : List (List Char)}
    (h : List.Forall₂ (fun line text => charset.decode line = .ok text) lines texts)
    (hmarks : ∀ line ∈ lines, charset.markLength line = 0) :
    lines = texts.map charset.textBytes ∧ ∀ c ∈ texts.flatten, charset.Has c := by
  induction h with
  | nil => exact ⟨rfl, nofun⟩
  | cons hline _ ih =>
    rw [List.forall_mem_cons] at hmarks
    obtain ⟨hhas, rfl⟩ := (decode_unmarked_iff hmarks.1).1 hline
    obtain ⟨rfl, hrest⟩ := ih hmarks.2
    refine ⟨rfl, fun c hc => ?_⟩
    rw [List.flatten_cons, List.mem_append] at hc
    exact hc.elim (hhas c) (hrest c)

variable {cs : List Char}

theorem markLength_textBytes_eq_zero_iff {text : List Char} :
    charset.markLength (charset.textBytes text) = 0 ↔ ∀ c ∈ text.head?, ¬ charset.IsMark c := by
  cases text with
  | nil => cases charset <;> exact ⟨fun _ => nofun, fun _ => rfl⟩
  | cons c text => simp [markLength_textBytes_cons]

/-- Where no line feed stands inside a character, the lines of the bytes are those of the text. -/
theorem splitAfterNewline_textBytes (h : ∀ c ∈ cs, 10 ∉ (charset.charBytes c).dropLast) :
    Text.splitAfterNewline (charset.textBytes cs)
      = (Text.cutLines charset.charBytes cs).map charset.textBytes :=
  Text.splitAfterNewline_flatMap (fun c _ => charset.charBytes_ne_nil c) h

/-- The lines of a text that is read line by line are decoded as its lines. -/
theorem ReadsInLines.exists_decoded (h : charset.ReadsInLines cs) (hhas : ∀ c ∈ cs, charset.Has c) :
    ∃ texts, (Text.splitAfterNewline (charset.mark ++ charset.textBytes cs)).mapM charset.decode
      = .ok texts ∧ texts.flatten = cs := by
  have hlines := splitAfterNewline_textBytes h.whole
  have hflatten : (Text.cutLines charset.charBytes cs).flatten = cs := Text.flatten_cutLines
  have hstarts := Text.forall_mem_tail_cutLines_iff.2 h.apart
  cases hcut : Text.cutLines charset.charBytes cs with
  | nil =>
    rw [hcut] at hflatten
    subst hflatten
    cases charset <;> first | exact ⟨[], rfl, rfl⟩ | exact ⟨[[]], rfl, rfl⟩
  | cons first rest =>
    rw [hcut] at hlines hflatten hstarts
    have hhas' {text : List Char} (ht : text ∈ first :: rest) : ∀ c ∈ text, charset.Has c := by
      intro c hc
      refine hhas c ?_
      rw [← hflatten]
      exact List.mem_flatten.2 ⟨text, ht, hc⟩
    refine ⟨first :: rest, ?_, hflatten⟩
    rw [splitAfterNewline_mark hlines, mapM_eq_ok_iff]
    refine .cons (decode_mark_iff.2 ⟨hhas' List.mem_cons_self, rfl⟩) ?_
    refine List.forall₂_map_left_iff.2 (List.forall₂_same.2 fun text ht => ?_)
    have hmark := markLength_textBytes_eq_zero_iff.2 (hstarts text ht)
    exact (decode_unmarked_iff hmark).2 ⟨hhas' (List.mem_cons_of_mem _ ht), rfl⟩

/-- A text that its lines are decoded as is read line by line: no byte of a mark is lost but those
of the first one. -/
theorem readsInLines_of_decoded {texts : List (List Char)}
    (h : (Text.splitAfterNewline (charset.mark ++ charset.textBytes cs)).mapM charset.decode
      = .ok texts) (hcs : texts.flatten = cs) : charset.ReadsInLines cs := by
  have hflatten := Text.flatten_splitAfterNewline (charset.textBytes cs)
  cases hlines : Text.splitAfterNewline (charset.textBytes cs) with
  | nil =>
    rw [hlines] at hflatten
    cases cs with
    | nil => exact ⟨nofun, List.isChain_nil⟩
    | cons c cs =>
      have hnil : charset.charBytes c = [] := (List.append_eq_nil_iff.1 hflatten.symm).1
      exact absurd hnil (charset.charBytes_ne_nil c)
  | cons first rest =>
    rw [hlines] at hflatten
    rw [splitAfterNewline_mark hlines, mapM_eq_ok_iff, List.forall₂_cons_left_iff] at h
    obtain ⟨text, more, hfirst, hrest, rfl⟩ := h
    obtain ⟨-, rfl⟩ := decode_mark_iff.1 hfirst
    -- the bytes behind the first line are those of its texts, so that no mark is among them
    have hmarks : ∀ line ∈ rest, charset.markLength line = 0 := by
      have hlength := length_flatten_of_forall₂ hrest
      have hbytes : charset.textBytes text ++ rest.flatten
          = charset.textBytes text ++ charset.textBytes more.flatten := by
        rw [← List.flatten_cons, hflatten, ← hcs]
        exact List.flatMap_append
      rw [List.append_cancel_left hbytes] at hlength
      have hsum : (rest.map charset.markLength).sum = 0 := by omega
      intro line hline
      exact List.sum_eq_zero_iff_forall_eq_nat.1 hsum _ (List.mem_map_of_mem hline)
    have hmap : Text.splitAfterNewline (charset.textBytes (text :: more).flatten)
        = (text :: more).map charset.textBytes := by
      rw [hcs, hlines, (eq_map_of_forall₂ hrest hmarks).1, List.map_cons]
    have hwhole : ∀ c ∈ cs, 10 ∉ (charset.charBytes c).dropLast := by
      intro c hc
      rw [← hcs] at hc
      exact Text.newline_not_mem_of_lines hmap hc
    refine ⟨hwhole, Text.forall_mem_tail_cutLines_iff.1 fun line hline => ?_⟩
    have htail : rest = (Text.cutLines charset.charBytes cs).tail.map charset.textBytes := by
      rw [List.map_tail, ← splitAfterNewline_textBytes hwhole, hlines, List.tail_cons]
    refine markLength_textBytes_eq_zero_iff.1 (hmarks _ ?_)
    rw [htail]
    exact List.mem_map_of_mem hline

/-- **Reading the lines of a written text gives that text exactly if it is one that is read line by
line.** -/
theorem exists_decoded_lines_iff (hhas : ∀ c ∈ cs, charset.Has c) :
    (∃ texts, (Text.splitAfterNewline (charset.mark ++ charset.textBytes cs)).mapM charset.decode
      = .ok texts ∧ texts.flatten = cs) ↔ charset.ReadsInLines cs := by
  constructor
  · rintro ⟨texts, htexts, hcs⟩
    exact readsInLines_of_decoded htexts hcs
  · intro h
    exact h.exists_decoded hhas

/-- In UTF-8, Latin-1 and ASCII **all bytes are read line by line as they are read as a whole**. -/
theorem decode_eq_ok_iff_lines (hset : charset ∈ [utf8, latin1, ascii]) {bs : Bytes} :
    charset.decode bs = .ok cs ↔
      ∃ texts, (Text.splitAfterNewline bs).mapM charset.decode = .ok texts ∧
        texts.flatten = cs := by
  constructor
  · intro h
    obtain ⟨hhas, rfl⟩ := (decode_unmarked_iff (markLength_of_mem hset bs)).1 h
    have hdecoded := (readsInLines_of_mem hset cs).exists_decoded hhas
    rwa [mark_of_mem hset, List.nil_append] at hdecoded
  · rintro ⟨texts, htexts, rfl⟩
    obtain ⟨hlines, hhas⟩ :=
      eq_map_of_forall₂ (mapM_eq_ok_iff.1 htexts) fun line _ => markLength_of_mem hset line
    refine (decode_unmarked_iff (markLength_of_mem hset bs)).2 ⟨hhas, ?_⟩
    rw [textBytes_flatten, ← hlines, Text.flatten_splitAfterNewline]

end Lines

end Charset
end RubySource
