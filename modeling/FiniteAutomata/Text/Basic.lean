/-! # Texts as lists of characters

Sets of characters, blanks, line breaks, trimming, and splitting a text at a character or at another
text. Reading an automaton goes line by line, and each line is cut by these operations only. -/

namespace FiniteAutomata.Text

/-! ### Sets of characters -/

/-- Whether a code point lies in one of some ranges, which are sorted and apart from each other;
ranges above it are not looked at. -/
def inRanges (n : Nat) : List (Nat × Nat) → Bool
  | [] => false
  | (lo, hi) :: rest => if n < lo then false else if n ≤ hi then true else inRanges n rest

/-! ### Blanks and line breaks -/

/-- The code points that count as blank: controls from tab to carriage return and from file to
unit separator, the spaces of all widths, and the line and paragraph separators. -/
def isBlank (c : Char) : Bool :=
  let n := c.toNat
  (9 ≤ n && n ≤ 13) || (28 ≤ n && n ≤ 32) || n == 0x85 || n == 0xA0 || n == 0x1680 ||
    (0x2000 ≤ n && n ≤ 0x200A) || n == 0x2028 || n == 0x2029 || n == 0x202F || n == 0x205F ||
    n == 0x3000

/-- The characters that end a line. -/
def isLineBreak (c : Char) : Bool :=
  let n := c.toNat
  (10 ≤ n && n ≤ 13) || (28 ≤ n && n ≤ 30) || n == 0x85 || n == 0x2028 || n == 0x2029

/-- Adds a character in front of the first piece. -/
def consHead (c : Char) : List (List Char) → List (List Char)
  | [] => [[c]]
  | piece :: pieces => (c :: piece) :: pieces

/-- The lines of a text without their line breaks. A carriage return followed by a line feed is
one line break, and nothing follows the last line break of a text that ends in one. -/
def lines : List Char → List (List Char)
  | [] => []
  | '\r' :: '\n' :: rest => [] :: lines rest
  | c :: rest => if isLineBreak c then [] :: lines rest else consHead c (lines rest)

/-- Writes every line end as a line feed: a carriage return, alone or with a line feed after it,
becomes one. -/
def unifyNewlines : List Char → List Char
  | [] => []
  | '\r' :: '\n' :: rest => '\n' :: unifyNewlines rest
  | c :: rest => (if c = '\r' then '\n' else c) :: unifyNewlines rest

/-! ### Trimming -/

/-- Drops the blanks at the left end. -/
def trimLeft (s : List Char) : List Char := s.dropWhile isBlank

/-- Drops the blanks at the right end. -/
def trimRight (s : List Char) : List Char := (s.reverse.dropWhile isBlank).reverse

/-- Drops the blanks at both ends. -/
def trim (s : List Char) : List Char := trimRight (trimLeft s)

/-! ### Splitting and joining -/

/-- The pieces of a text between the occurrences of a character. -/
def splitOn (sep : Char) : List Char → List (List Char)
  | [] => [[]]
  | c :: rest => if c = sep then [] :: splitOn sep rest else consHead c (splitOn sep rest)

/-- The text before the first occurrence of a character and the text after it. -/
def splitFirst? (sep : Char) : List Char → Option (List Char × List Char)
  | [] => none
  | c :: rest =>
    if c = sep then some ([], rest)
    else (splitFirst? sep rest).map fun p => (c :: p.1, p.2)

/-- The pieces of a text between the occurrences of a non-empty separator, found from left to
right without overlap; the number counts the characters of a found separator still to pass. -/
def splitOnTextFrom (sep : List Char) : Nat → List Char → List (List Char)
  | _, [] => [[]]
  | 0, c :: rest =>
    if sep.isPrefixOf (c :: rest) then [] :: splitOnTextFrom sep (sep.length - 1) rest
    else consHead c (splitOnTextFrom sep 0 rest)
  | skip + 1, _ :: rest => splitOnTextFrom sep skip rest

/-- The pieces of a text between the occurrences of a non-empty separator. -/
def splitOnText (sep s : List Char) : List (List Char) := splitOnTextFrom sep 0 s

/-- The pieces one after the other with a separator between each two. -/
def join (sep : List Char) : List (List Char) → List Char
  | [] => []
  | [piece] => piece
  | piece :: pieces => piece ++ sep ++ join sep pieces

/-- Writes one text in place of each occurrence of another. -/
def replace (old new s : List Char) : List Char := join new (splitOnText old s)

/-- The trimmed pieces between commas, without the empty ones. -/
def commaItems (s : List Char) : List (List Char) :=
  ((splitOn ',' s).map trim).filter (! ·.isEmpty)

/-! ### Laws -/

@[simp] theorem trimLeft_nil : trimLeft [] = [] := rfl

theorem trimLeft_of_not_blank {c : Char} (s : List Char) (h : isBlank c = false) :
    trimLeft (c :: s) = c :: s := by simp [trimLeft, h]

theorem isBlank_of_isLineBreak {c : Char} (h : isLineBreak c = true) : isBlank c = true := by
  simp only [isLineBreak, isBlank, Bool.or_eq_true, Bool.and_eq_true, decide_eq_true_eq,
    beq_iff_eq] at h ⊢
  omega

theorem consHead_ne_nil (c : Char) (l : List (List Char)) : consHead c l ≠ [] := by
  cases l <;> simp [consHead]

theorem splitOn_ne_nil (sep : Char) (s : List Char) : splitOn sep s ≠ [] := by
  cases s with
  | nil => simp [splitOn]
  | cons c rest =>
    by_cases h : c = sep
    · simp [splitOn, h]
    · simpa [splitOn, h] using consHead_ne_nil c _

/-- Joining the pieces with the separator gives the text back. -/
theorem join_splitOn (sep : Char) (s : List Char) : join [sep] (splitOn sep s) = s := by
  induction s with
  | nil => rfl
  | cons c rest ih =>
    by_cases h : c = sep
    · subst h
      cases hs : splitOn c rest with
      | nil => exact absurd hs (splitOn_ne_nil c rest)
      | cons p ps => rw [hs] at ih; simp [splitOn, hs, join, ih]
    · cases hs : splitOn sep rest with
      | nil => exact absurd hs (splitOn_ne_nil sep rest)
      | cons p ps =>
        rw [hs] at ih
        cases ps <;> simp_all [splitOn, consHead, join]

end FiniteAutomata.Text
