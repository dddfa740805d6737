import FiniteAutomata.Proofs.Text.Trim

/-! # Where lines end

Which characters end a line, and how many, does not matter to what stands on the lines: writing
every carriage return as a line feed leaves the lines as they are (`lines_unifyNewlines`). As long
as empty lines do not count, a text may even be cut at every line break, although a carriage return
and a line feed are one line end (`filterMap_lines`). So a text that is cut at a line break has the
lines of the two parts (`filterMap_lines_append`), and what holds of a text can be shown line by
line (`induction_on_lines`). -/

namespace FiniteAutomata.Text

/-- Induction on a text line by line: it is one line, or a line with the break that ends it and a
text below. -/
@[elab_as_elim] theorem induction_on_lines {motive : List Char → Prop} (s : List Char)
    (last : ∀ line, Unbroken line → motive line)
    (below : ∀ line c rest, Unbroken line → isLineBreak c = true → motive rest →
      motive (line ++ c :: rest)) : motive s := by
  -- what has been seen of the first line stands in front
  have hall : ∀ s line, Unbroken line → motive (line ++ s) := by
    intro s
    induction s with
    | nil => exact fun line hline => (List.append_nil line).symm ▸ last line hline
    | cons c s ih =>
      intro line hline
      cases hc : isLineBreak c with
      | true => exact below line c s hline hc (ih [] unbroken_nil)
      | false =>
        have hmore : Unbroken (line ++ [c]) := by simp [hline, hc]
        simpa using ih (line ++ [c]) hmore
  exact hall s [] unbroken_nil

/-! ### Line ends -/

theorem lines_break {c : Char} (s : List Char) (hc : isLineBreak c = true)
    (h : ∀ rest, c = '\r' → s ≠ '\n' :: rest) : lines (c :: s) = [] :: lines s := by
  rw [lines, if_pos hc]
  exact fun rest hr hs => h rest hr hs

/-- **Writing every line end as a line feed leaves the lines as they are.** -/
theorem lines_unifyNewlines (s : List Char) : lines (unifyNewlines s) = lines s := by
  fun_induction unifyNewlines s with
  | case1 => rfl
  | case2 rest ih => simp [lines, isLineBreak, ih]
  | case3 c rest hnext ih =>
    split_ifs with hc
    · subst hc
      rw [lines_break rest (by decide) fun rest' _ hs => hnext rest' rfl hs]
      simp [lines, isLineBreak, ih]
    · rw [lines, lines, ih]
      · exact fun rest' hr => absurd hr hc
      · exact fun rest' hr => absurd hr hc

/-! ### Lines that count -/

section Keep

variable {α : Type} {keep : List Char → Option α}

/-- Two ways to cut a text that agree on its first piece and, of the others, on those that count;
the second one may leave out a piece that is empty and the only one. -/
def CutAlike (keep : List Char → Option α) (pieces pieces' : List (List Char)) : Prop :=
  ∃ head tail tail', pieces = head :: tail ∧
    (pieces' = head :: tail' ∨ pieces' = [] ∧ head = [] ∧ tail' = []) ∧
    tail.filterMap keep = tail'.filterMap keep

theorem CutAlike.filterMap_eq (hnil : keep [] = none) {pieces pieces' : List (List Char)}
    (h : CutAlike keep pieces pieces') : pieces.filterMap keep = pieces'.filterMap keep := by
  obtain ⟨head, tail, tail', rfl, rfl | ⟨rfl, rfl, rfl⟩, htails⟩ := h
  · rw [List.filterMap_cons, List.filterMap_cons, htails]
  · rw [List.filterMap_cons, hnil]
    exact htails

theorem cutAlike_lines (hnil : keep [] = none) (s : List Char) :
    CutAlike keep (s.splitOnP isLineBreak) (lines s) := by
  fun_induction lines s with
  | case1 => exact ⟨[], [], [], by simp, Or.inr ⟨rfl, rfl, rfl⟩, rfl⟩
  | case2 rest ih =>
    -- the line feed is one more place to cut, after an empty piece
    refine ⟨[], [] :: rest.splitOnP isLineBreak, lines rest, ?_, Or.inl rfl, ?_⟩
    · simp [List.splitOnP_cons_eq_if_modifyHead, isLineBreak]
    · rw [List.filterMap_cons, hnil]
      exact ih.filterMap_eq hnil
  | case3 c rest _ hc ih =>
    refine ⟨[], rest.splitOnP isLineBreak, lines rest, ?_, Or.inl rfl, ih.filterMap_eq hnil⟩
    simp [List.splitOnP_cons_eq_if_modifyHead, hc]
  | case4 c rest _ hc ih =>
    obtain ⟨head, tail, tail', hs, hl, htails⟩ := ih
    refine ⟨c :: head, tail, tail', ?_, Or.inl ?_, htails⟩
    · simp [List.splitOnP_cons_eq_if_modifyHead, hc, hs]
    · rcases hl with hl | ⟨hl, rfl, rfl⟩ <;> rw [hl] <;> rfl

/-- **The lines that count** are the pieces that count between all line breaks, as long as empty
ones do not. -/
theorem filterMap_lines (hnil : keep [] = none) (s : List Char) :
    (lines s).filterMap keep = (s.splitOnP isLineBreak).filterMap keep :=
  ((cutAlike_lines hnil s).filterMap_eq hnil).symm

/-- A text cut at a line break has the lines of the two parts. -/
theorem filterMap_lines_append (hnil : keep [] = none) {c : Char} (hc : isLineBreak c = true)
    (s t : List Char) : (lines (s ++ c :: t)).filterMap keep =
      (lines s).filterMap keep ++ (lines t).filterMap keep := by
  rw [filterMap_lines hnil, filterMap_lines hnil, filterMap_lines hnil,
    List.splitOnP_append_cons s t hc, List.filterMap_append]

/-- A text without line breaks is one line, and nothing if it is empty. -/
theorem filterMap_lines_unbroken (hnil : keep [] = none) {s : List Char} (h : Unbroken s) :
    (lines s).filterMap keep = (keep s).toList := by
  have hs : s.splitOnP isLineBreak = [s] :=
    List.splitOnP_eq_singleton fun c hc => by simp [h c hc]
  rw [filterMap_lines hnil, hs]
  cases hk : keep s <;> simp [hk]

end Keep

end FiniteAutomata.Text
