import FiniteAutomata.Text.Basic
import Mathlib.Data.List.TakeWhile
import Mathlib.Tactic.SplitIfs

/-! # Trimmed and solid texts

A text is its own trimming exactly if no blank stands at its ends (`trim_eq_self_iff`), and blanks
that are added there change nothing about what trimming leaves (`trim_append_blanks`,
`trim_blanks_append`). A text is `Solid` if it is moreover not empty and holds no line break: such a
text comes back unchanged when it is printed on a line and the line is cut again. What trimming
leaves of a line is solid or empty (`solid_trim`), and the lines of a text hold no line break
(`unbroken_of_mem_lines`). -/

namespace FiniteAutomata.Text

/-! ### Trimming -/

theorem not_blank_of_head?_trimLeft {s : List Char} {c : Char} (h : (trimLeft s).head? = some c) :
    isBlank c = false := by
  have := List.head?_dropWhile_not isBlank s
  rw [trimLeft] at h
  rwa [h] at this

theorem trimRight_eq (s : List Char) : trimRight s = (trimLeft s.reverse).reverse := rfl

theorem trimLeft_eq_self {s : List Char} (h : ∀ c, s.head? = some c → isBlank c = false) :
    trimLeft s = s := by
  cases s with
  | nil => rfl
  | cons c s => exact trimLeft_of_not_blank s (h c rfl)

theorem trimRight_eq_self {s : List Char} (h : ∀ c, s.getLast? = some c → isBlank c = false) :
    trimRight s = s := by
  rw [trimRight_eq, trimLeft_eq_self, List.reverse_reverse]
  simpa using h

theorem prefix_trimRight (s : List Char) : trimRight s <+: s := by
  have h := List.dropWhile_suffix (l := s.reverse) isBlank
  rw [← List.reverse_prefix, List.reverse_reverse] at h
  exact h

theorem not_blank_of_getLast?_trim {s : List Char} {c : Char} (h : (trim s).getLast? = some c) :
    isBlank c = false := by
  rw [trim, trimRight_eq, List.getLast?_reverse] at h
  exact not_blank_of_head?_trimLeft h

theorem not_blank_of_head?_trim {s : List Char} {c : Char} (h : (trim s).head? = some c) :
    isBlank c = false := by
  obtain ⟨rest, hr⟩ := prefix_trimRight (trimLeft s)
  refine not_blank_of_head?_trimLeft (s := s) ?_
  rw [trim] at h
  rw [← hr, List.head?_append, h]
  rfl

/-- **A text is its own trimming** exactly if no blank stands at either end. -/
theorem trim_eq_self_iff {s : List Char} : trim s = s ↔
    (∀ c, s.head? = some c → isBlank c = false) ∧
      ∀ c, s.getLast? = some c → isBlank c = false := by
  constructor
  · intro h
    refine ⟨fun c hc => not_blank_of_head?_trim (s := s) (by rwa [h]),
      fun c hc => not_blank_of_getLast?_trim (s := s) (by rwa [h])⟩
  · rintro ⟨hl, hr⟩
    rw [trim, trimLeft_eq_self hl, trimRight_eq_self hr]

@[simp] theorem trim_trim (s : List Char) : trim (trim s) = trim s :=
  trim_eq_self_iff.mpr ⟨fun _ => not_blank_of_head?_trim, fun _ => not_blank_of_getLast?_trim⟩

theorem trimLeft_suffix (s : List Char) : trimLeft s <:+ s := List.dropWhile_suffix _

theorem mem_of_mem_trim {s : List Char} {c : Char} (h : c ∈ trim s) : c ∈ s :=
  (trimLeft_suffix s).subset ((prefix_trimRight _).subset h)

theorem length_trim_le (s : List Char) : (trim s).length ≤ s.length :=
  (prefix_trimRight _).length_le.trans (trimLeft_suffix s).length_le

theorem trimLeft_cons_blank {c : Char} (s : List Char) (h : isBlank c = true) :
    trimLeft (c :: s) = trimLeft s := by simp [trimLeft, h]

theorem trim_cons_blank {c : Char} (s : List Char) (h : isBlank c = true) :
    trim (c :: s) = trim s := by rw [trim, trimLeft_cons_blank s h, trim]

theorem trimLeft_eq_nil_of_trim_eq_nil {s : List Char} (h : trim s = []) : trimLeft s = [] := by
  by_contra hne
  obtain ⟨c, rest, hc⟩ := List.exists_cons_of_ne_nil hne
  have hb : isBlank c = false := not_blank_of_head?_trimLeft (s := s) (by rw [hc]; rfl)
  rw [trim, hc, trimRight_eq, List.reverse_eq_nil_iff, trimLeft, List.dropWhile_eq_nil_iff] at h
  have := h c (by simp)
  simp [hb] at this

/-- A text whose left end is no blank keeps its first character when it is trimmed. -/
theorem head?_trim {s : List Char} {c : Char} (h : (trimLeft s).head? = some c) :
    (trim s).head? = some c := by
  have hne : trim s ≠ [] := by
    intro he
    rw [trimLeft_eq_nil_of_trim_eq_nil he] at h
    simp at h
  obtain ⟨d, rest, hd⟩ := List.exists_cons_of_ne_nil hne
  obtain ⟨tail, ht⟩ := prefix_trimRight (trimLeft s)
  rw [← trim, hd] at ht
  rw [← ht] at h
  rw [hd]
  exact h

/-- What trimming drops on the right are blanks. -/
theorem exists_blanks_trimRight (s : List Char) :
    ∃ blanks, (∀ c ∈ blanks, isBlank c = true) ∧ s = trimRight s ++ blanks := by
  refine ⟨(s.reverse.takeWhile isBlank).reverse, fun c hc => ?_, ?_⟩
  · exact List.all_eq_true.mp (List.all_takeWhile (p := isBlank)) c (List.mem_reverse.mp hc)
  · rw [trimRight, ← List.reverse_append, List.takeWhile_append_dropWhile, List.reverse_reverse]

/-- Blanks on the right are trimmed. -/
theorem trimRight_append_blanks (s : List Char) {blanks : List Char}
    (h : ∀ c ∈ blanks, isBlank c = true) : trimRight (s ++ blanks) = trimRight s := by
  rw [trimRight, trimRight, List.reverse_append,
    List.dropWhile_append_of_pos fun c hc => h c (List.mem_reverse.mp hc)]

theorem trim_append_blanks (s : List Char) {blanks : List Char}
    (h : ∀ c ∈ blanks, isBlank c = true) : trim (s ++ blanks) = trim s := by
  rw [trim, trim, trimLeft, trimLeft, List.dropWhile_append]
  split_ifs with hs
  · rw [List.isEmpty_iff.mp hs, List.dropWhile_eq_nil_iff.mpr h]
  · exact trimRight_append_blanks _ h

theorem trim_blanks_append {blanks : List Char} (h : ∀ c ∈ blanks, isBlank c = true)
    (s : List Char) : trim (blanks ++ s) = trim s := by
  rw [trim, trimLeft, List.dropWhile_append_of_pos h, ← trimLeft, ← trim]

/-- Trimming on the right goes no further than a part of which something is left. -/
theorem trimRight_append {t : List Char} (s : List Char) (h : trimRight t ≠ []) :
    trimRight (s ++ t) = s ++ trimRight t := by
  have hne : (t.reverse.dropWhile isBlank).isEmpty = false := by simpa [trimRight] using h
  rw [trimRight, List.reverse_append, List.dropWhile_append, hne]
  simp [trimRight]

/-! ### Solid texts -/

/-- A text whose characters are no line breaks. -/
def Unbroken (s : List Char) : Prop := ∀ c ∈ s, isLineBreak c = false

/-- A text that a line can hold as it is: not empty, without blanks at its ends and without line
breaks. -/
structure Solid (s : List Char) : Prop where
  nonempty : s ≠ []
  trimmed : trim s = s
  unbroken : Unbroken s

@[simp] theorem unbroken_nil : Unbroken [] := by simp [Unbroken]

@[simp] theorem unbroken_cons {c : Char} {s : List Char} :
    Unbroken (c :: s) ↔ isLineBreak c = false ∧ Unbroken s := by simp [Unbroken]

@[simp] theorem unbroken_append {s t : List Char} :
    Unbroken (s ++ t) ↔ Unbroken s ∧ Unbroken t := by
  simp [Unbroken, or_imp, forall_and]

instance (s : List Char) : Decidable (Unbroken s) :=
  decidable_of_iff (s.all (!isLineBreak ·) = true) (by simp [Unbroken])

instance (s : List Char) : Decidable (Solid s) :=
  decidable_of_iff (s ≠ [] ∧ trim s = s ∧ Unbroken s)
    ⟨fun h => ⟨h.1, h.2.1, h.2.2⟩, fun h => ⟨h.nonempty, h.trimmed, h.unbroken⟩⟩

theorem Unbroken.trim {s : List Char} (h : Unbroken s) : Unbroken (trim s) :=
  fun c hc => h c (mem_of_mem_trim hc)

/-- What trimming leaves of a text without line breaks is solid, unless it is empty. -/
theorem solid_trim {s : List Char} (h : Unbroken s) (hne : trim s ≠ []) : Solid (trim s) :=
  ⟨hne, trim_trim s, h.trim⟩

namespace Solid

variable {s t : List Char}

theorem head (h : Solid s) : ∃ c rest, s = c :: rest ∧ isBlank c = false := by
  obtain ⟨c, rest, rfl⟩ := List.exists_cons_of_ne_nil h.nonempty
  exact ⟨c, rest, rfl, (trim_eq_self_iff.mp h.trimmed).1 c rfl⟩

theorem trimLeft_eq (h : Solid s) : trimLeft s = s :=
  trimLeft_eq_self (trim_eq_self_iff.mp h.trimmed).1

/-- Two solid texts with something between them that holds no line break are a solid text. -/
theorem append {m : List Char} (hs : Solid s) (hm : Unbroken m) (ht : Solid t) :
    Solid (s ++ m ++ t) := by
  obtain ⟨c, rest, rfl, hc⟩ := hs.head
  refine ⟨by simp, trim_eq_self_iff.mpr ⟨?_, ?_⟩, ?_⟩
  · intro d hd
    simp only [List.cons_append, List.head?_cons, Option.some.injEq] at hd
    rwa [← hd]
  · intro d hd
    rw [List.getLast?_append, Option.or_of_isSome (by simpa using ht.nonempty)] at hd
    exact (trim_eq_self_iff.mp ht.trimmed).2 d hd
  · exact unbroken_append.mpr ⟨unbroken_append.mpr ⟨hs.unbroken, hm⟩, ht.unbroken⟩

end Solid

/-- A text without any blank is solid, unless it is empty. -/
theorem solid_of_not_blank {s : List Char} (hne : s ≠ []) (h : ∀ c ∈ s, isBlank c = false) :
    Solid s := by
  refine ⟨hne, trim_eq_self_iff.mpr ⟨fun c hc => h c (List.mem_of_head? hc),
    fun c hc => h c (List.mem_of_getLast? hc)⟩, fun c hc => ?_⟩
  by_contra hb
  have hblank := isBlank_of_isLineBreak (by simpa using hb)
  rw [h c hc] at hblank
  exact Bool.false_ne_true hblank

/-! ### Lines -/

theorem mem_consHead {c : Char} {pieces : List (List Char)} {piece : List Char}
    (h : piece ∈ consHead c pieces) :
    piece = [c] ∨ (∃ p ∈ pieces, piece = c :: p) ∨ piece ∈ pieces := by
  cases pieces with
  | nil => exact Or.inl (List.mem_singleton.mp h)
  | cons p ps =>
    rcases List.mem_cons.mp h with rfl | h
    · exact Or.inr (Or.inl ⟨p, List.mem_cons_self, rfl⟩)
    · exact Or.inr (Or.inr (List.mem_cons_of_mem _ h))

/-- The lines of a text hold no line break. -/
theorem unbroken_of_mem_lines {s line : List Char} (h : line ∈ lines s) : Unbroken line := by
  fun_induction lines s generalizing line with
  | case1 => simp at h
  | case2 rest ih =>
    rcases List.mem_cons.mp h with rfl | h
    · exact unbroken_nil
    · exact ih h
  | case3 c rest _ hc ih =>
    rcases List.mem_cons.mp h with rfl | h
    · exact unbroken_nil
    · exact ih h
  | case4 c rest _ hc ih =>
    rcases mem_consHead h with rfl | ⟨p, hp, rfl⟩ | h
    · simpa using hc
    · exact unbroken_cons.mpr ⟨by simpa using hc, ih hp⟩
    · exact ih h

/-- A line that a line feed ends is the first line of the text. -/
theorem lines_append_newline : ∀ {line : List Char}, Unbroken line → ∀ rest,
    lines (line ++ '\n' :: rest) = line :: lines rest
  | [], _, rest => by simp [lines, isLineBreak]
  | c :: line, h, rest => by
    obtain ⟨hc, hline⟩ := unbroken_cons.mp h
    have ih := lines_append_newline hline rest
    have hr : c ≠ '\r' := by
      rintro rfl
      exact absurd hc (by decide)
    rw [List.cons_append, lines, ih]
    · simp [hc, consHead]
    · rintro _ rfl _
      exact hr rfl

/-- Lines that line feeds end are the first lines of the text. -/
theorem lines_flatMap_append {ls : List (List Char)} (h : ∀ line ∈ ls, Unbroken line)
    (rest : List Char) : lines ((ls.flatMap fun line => line ++ ['\n']) ++ rest) = ls ++ lines rest := by
  induction ls with
  | nil => rfl
  | cons line ls ih =>
    rw [List.flatMap_cons, List.append_assoc, List.append_assoc, List.singleton_append,
      lines_append_newline (h line List.mem_cons_self),
      ih fun l hl => h l (List.mem_cons_of_mem _ hl), List.cons_append]

/-- Lines that line feeds end are the lines of the text. -/
theorem lines_flatMap_newline {ls : List (List Char)} (h : ∀ line ∈ ls, Unbroken line) :
    lines (ls.flatMap fun line => line ++ ['\n']) = ls := by
  have hlines := lines_flatMap_append h []
  rwa [List.append_nil, lines, List.append_nil] at hlines

end FiniteAutomata.Text
