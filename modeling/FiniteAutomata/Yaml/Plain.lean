import FiniteAutomata.Yaml.Cursor

/-! # Plain scalars

A scalar without quotes goes on over spaces and line breaks, as long as its lines are indented, up to
a colon or a hash sign that stands for itself, or inside brackets up to a mark of theirs. Line breaks
are folded as between quotes. -/

namespace FiniteAutomata.Yaml

/-- The characters that part the items of a collection in brackets. -/
def isFlowMark (c : Char) : Bool := c = ',' || c = '[' || c = ']' || c = '\x7b' || c = '\x7d'

/-- Whether a colon before a text stands between a key and a value. -/
def isValueColon (inFlow : Bool) (after : List Char) : Bool :=
  after.head?.all fun c => isGap c || (inFlow && isFlowMark c)

/-- The number of characters of the word at the front of a text. -/
def wordLength (inFlow : Bool) : List Char → Nat
  | [] => 0
  | c :: rest =>
    if isGap c || (c = ':' && isValueColon inFlow rest) || (inFlow && (isFlowMark c || c = '?')) then 0
    else wordLength inFlow rest + 1

/-- The line breaks at the front with the spaces around them; none if a separator of documents
follows one of them. `fuel` bounds the number of characters. -/
def plainBreaks : (fuel : Nat) → Cursor → Option (List Char) × Cursor
  | 0, s => (some [], s)
  | fuel + 1, s =>
    if s.starts ' ' then plainBreaks fuel s.step
    else
      match s.takeBreak with
      | (none, s) => (some [], s)
      | (some c, s) =>
        if s.isAtSeparator then (none, s)
        else
          match plainBreaks fuel s with
          | (breaks, s) => (breaks.map (c :: ·), s)

/-- What stands between two words of a plain scalar. -/
structure PlainGap where
  text : List Char
  endsLine : Bool
  cursor : Cursor
deriving DecidableEq, Repr

/-- The gap at the front; it has no text if no word can follow. -/
def plainGap (s : Cursor) : PlainGap :=
  let (spaces, s) := s.takeWhile (· = ' ')
  match s.takeBreak with
  | (none, s) => ⟨spaces, false, s⟩
  | (some c, s) =>
    if s.isAtSeparator then ⟨[], true, s⟩
    else
      match plainBreaks (s.rest.length + 1) s with
      | (none, s) => ⟨[], true, s⟩
      | (some breaks, s) =>
        if c ≠ '\n' then ⟨c :: breaks, true, s⟩
        else if breaks.isEmpty then ⟨[' '], true, s⟩
        else ⟨breaks, true, s⟩

/-- Reads words from one on. What was read stands in `acc`, last character first, and what parts it
from the next word in `before`; `fuel` bounds the number of words. The result says whether a line
ended after the last word. -/
def plainFrom (inFlow : Bool) (indent : Int) : (fuel : Nat) → (acc : List Char) → (before : PlainGap) →
    List Char × Bool × Cursor
  | 0, acc, before => (acc.reverse, before.endsLine, before.cursor)
  | fuel + 1, acc, before =>
    let s := before.cursor
    let length := if s.starts '#' then 0 else wordLength inFlow s.rest
    if length = 0 then (acc.reverse, before.endsLine, s)
    else
      let acc := (before.text ++ s.rest.take length).reverse ++ acc
      let gap := plainGap (s.skip length)
      if gap.text.isEmpty || gap.cursor.starts '#' || (! inFlow && gap.cursor.column < indent) then
        (acc.reverse, gap.endsLine, gap.cursor)
      else plainFrom inFlow indent fuel acc gap

/-- The text of the plain scalar at the front, whether a line ended after it, and the cursor after
it. Outside of brackets its lines start at the column `indent` or further right. -/
def readPlain (inFlow : Bool) (indent : Int) (s : Cursor) : List Char × Bool × Cursor :=
  plainFrom inFlow indent (s.rest.length + 1) [] ⟨[], false, s⟩

/-- Whether a character starts no plain scalar. -/
def isIndicator (c : Char) : Bool :=
  isFlowMark c || c = '-' || c = '?' || c = ':' || c = '#' || c = '&' || c = '*' || c = '!' ||
    c = '|' || c = '>' || c = '\'' || c = '"' || c = '%' || c = '@' || c = '\x60'

/-- Whether a plain scalar starts here. -/
def startsPlain (inFlow : Bool) (s : Cursor) : Bool :=
  match s.rest with
  | [] => false
  | c :: rest =>
    (! isGap c && ! isIndicator c) ||
      (! rest.head?.all isGap && (c = '-' || (! inFlow && (c = '?' || c = ':'))))

end FiniteAutomata.Yaml
