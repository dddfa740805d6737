import FiniteAutomata.Text.Digit

/-! # Cursors

A settings file is scanned character by character. A cursor is what is left of it together with the
place where that starts: how many characters come before it, the line and the column. A byte order
mark takes no column. -/

namespace FiniteAutomata.Yaml

/-! ### Kinds of characters -/

/-- Whether a character ends a line. -/
def isBreak (c : Char) : Bool :=
  c = '\n' || c = '\r' || c = '\u0085' || c = '\u2028' || c = '\u2029'

/-- Whether a character is a space or ends a line. -/
def isSpaceOrBreak (c : Char) : Bool := c = ' ' || isBreak c

/-- Whether a character is a space or a tab. -/
def isWhite (c : Char) : Bool := c = ' ' || c = '\t'

/-- Whether a character parts words: a space, a tab, or one that ends a line. -/
def isGap (c : Char) : Bool := isWhite c || isBreak c

/-- Whether a character may stand in a name: a letter, a digit, a hyphen or an underscore. -/
def isNameChar (c : Char) : Bool := c.isAlphanum || c = '-' || c = '_'

/-- The value of hexadecimal digits; none if there is another character. -/
def hexNumber? (s : List Char) : Option Nat :=
  s.foldl (fun n c => n.bind fun n => (Text.hexValue? c).map (16 * n + ·)) (some 0)

/-- Whether a character may stand in a settings file. -/
def isAllowed (c : Char) : Bool :=
  let n := c.toNat
  n = 9 || n = 10 || n = 13 || (0x20 ≤ n && n ≤ 0x7E) || n = 0x85 || (0xA0 ≤ n && n ≤ 0xFFFD) ||
    0x10000 ≤ n

/-! ### Cursors -/

/-- What is left of a text and where it starts. -/
structure Cursor where
  rest : List Char
  index : Nat := 0
  line : Nat := 0
  column : Nat := 0
deriving DecidableEq, Repr, Inhabited

namespace Cursor

/-- The next character, if there is one. -/
def head? (s : Cursor) : Option Char := s.rest.head?

/-- Whether the next character is the given one. -/
def starts (s : Cursor) (c : Char) : Bool := s.head? = some c

/-- Whether the text ends or the next character has a property. -/
def stops (s : Cursor) (p : Char → Bool) : Bool := s.head?.all p

/-- The cursor after one character; of a carriage return and a line feed only the second ends the
line. -/
def step (s : Cursor) : Cursor :=
  match s.rest with
  | [] => s
  | c :: rest =>
    if isBreak c && ! (c = '\r' && rest.head? = some '\n') then
      { rest, index := s.index + 1, line := s.line + 1, column := 0 }
    else
      { s with rest, index := s.index + 1
               column := if c = '\uFEFF' then s.column else s.column + 1 }

/-- The cursor after some characters. -/
def skip (s : Cursor) : Nat → Cursor
  | 0 => s
  | n + 1 => s.step.skip n

/-- The characters up to the first one without a property, and the cursor after them. -/
def takeWhile (s : Cursor) (p : Char → Bool) : List Char × Cursor :=
  let taken := s.rest.takeWhile p
  (taken, s.skip taken.length)

/-- The cursor after the characters up to the first one without a property. -/
def skipWhile (s : Cursor) (p : Char → Bool) : Cursor := (s.takeWhile p).2

/-- The cursor after the rest of the line. -/
def skipLine (s : Cursor) : Cursor := s.skipWhile (! isBreak ·)

/-- The cursor after a comment, if one starts here. -/
def skipComment (s : Cursor) : Cursor := if s.starts '#' then s.skipLine else s

/-- The line break at the front, if there is one, and the cursor after it. Most are read as a line
feed. -/
def takeBreak (s : Cursor) : Option Char × Cursor :=
  match s.rest with
  | '\r' :: '\n' :: _ => (some '\n', s.skip 2)
  | c :: _ =>
    if isBreak c then (some (if c = '\u2028' || c = '\u2029' then c else '\n'), s.step)
    else (none, s)
  | [] => (none, s)

/-- The cursor after the rest of a line that holds no more than spaces and a comment. -/
def idleLine? (s : Cursor) : Option Cursor :=
  let s := (s.skipWhile (· = ' ')).skipComment
  if s.stops isBreak then some s.takeBreak.2 else none

/-- Whether a marker stands here, followed by a gap or by nothing. -/
def hasMarker (s : Cursor) (marker : String) : Bool :=
  marker.toList.isPrefixOf s.rest && (s.rest.drop marker.length).head?.all isGap

/-- Whether a marker of the start or of the end of a document stands here. -/
def isAtSeparator (s : Cursor) : Bool := s.hasMarker "---" || s.hasMarker "..."

end Cursor

end FiniteAutomata.Yaml
