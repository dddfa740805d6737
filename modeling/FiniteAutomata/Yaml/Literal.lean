import FiniteAutomata.Yaml.Cursor
import FiniteAutomata.Yaml.Fault

/-! # Block scalars

A block scalar is the lines that are indented below it, as they stand or folded into one. Its header
may say how deep they are indented and what becomes of the line breaks at its end: all but one are
dropped, or all, or none. -/

namespace FiniteAutomata.Yaml

/-- What becomes of the line breaks at the end of a block scalar. -/
inductive Chomping where
  | clip
  | strip
  | keep
deriving DecidableEq, Repr

/-- What the header of a block scalar says. -/
structure BlockHeader where
  chomping : Chomping := .clip
  indent : Option Nat := none
deriving DecidableEq, Repr

/-- The chomping that a sign stands for. -/
def Chomping.ofSign? (c : Char) : Option Chomping :=
  if c = '+' then some .keep else if c = '-' then some .strip else none

/-- The sign at the front, if there is one. -/
def takeChomping (s : Cursor) : Option Chomping × Cursor :=
  match s.head?.bind Chomping.ofSign? with
  | some c => (some c, s.step)
  | none => (none, s)

/-- The digit at the front, if there is one; zero is none that is allowed. -/
def takeIndent (s : Cursor) : Except Fault (Option Nat × Cursor) :=
  match s.head? with
  | some c =>
    if c = '0' then .error .malformed
    else if c.isDigit then .ok (some (c.toNat - '0'.toNat), s.step)
    else .ok (none, s)
  | none => .ok (none, s)

/-- The header of a block scalar, with its line; the sign and the digit may come in any order. -/
def readHeader (s : Cursor) : Except Fault (BlockHeader × Cursor) := do
  let (before, s) := takeChomping s
  let (indent, s) ← takeIndent s
  let (chomping, s) := if before.isNone && indent.isSome then takeChomping s else (before, s)
  if ! s.stops isSpaceOrBreak then throw .malformed
  match s.idleLine? with
  | some s => return ({ chomping := chomping.getD .clip, indent }, s)
  | none => throw .malformed

/-- The line breaks at the front with the spaces before them, and the deepest column that a space
leads to; `fuel` bounds the number of characters. -/
def findIndent : (fuel : Nat) → (deepest : Nat) → Cursor → List Char × Nat × Cursor
  | 0, deepest, s => ([], deepest, s)
  | fuel + 1, deepest, s =>
    if s.starts ' ' then findIndent fuel (max deepest s.step.column) s.step
    else
      match s.takeBreak with
      | (none, s) => ([], deepest, s)
      | (some c, s) =>
        match findIndent fuel deepest s with
        | (breaks, deepest, s) => (c :: breaks, deepest, s)

/-- Skips spaces up to a column. -/
def skipToColumn (column : Nat) (s : Cursor) : Cursor :=
  s.skip (min (column - s.column) (s.rest.takeWhile (· = ' ')).length)

/-- The line breaks at the front, each with the spaces before it up to a column; `fuel` bounds how
many. -/
def blockBreaks (column : Nat) : (fuel : Nat) → Cursor → List Char × Cursor
  | 0, s => ([], s)
  | fuel + 1, s =>
    let s := skipToColumn column s
    match s.takeBreak with
    | (none, s) => ([], s)
    | (some c, s) =>
      match blockBreaks column fuel s with
      | (breaks, s) => (c :: breaks, s)

/-- Whether a line of a block scalar starts here. -/
def isBlockLine (column : Nat) (s : Cursor) : Bool := s.column = column && ! s.rest.isEmpty

/-- What the break between two lines of a folded scalar becomes: a space, if no line break follows,
unless one of the lines starts with a blank. -/
def foldedBreak (lineBreak : Option Char) (indented : Bool) (breaks : List Char) (next : Cursor) :
    List Char :=
  if lineBreak = some '\n' && ! indented && ! next.head?.any isWhite then
    if breaks.isEmpty then [' '] else []
  else lineBreak.toList

/-- Reads lines from one on. What was read stands in `acc`, last character first, and the line breaks
before the line in `breaks`; `fuel` bounds the number of lines. -/
def blockLines (folded : Bool) (column : Nat) (chomping : Chomping) :
    (fuel : Nat) → (acc breaks : List Char) → (last : Option Char) → Cursor → List Char × Cursor
  | 0, acc, _, _, s => (acc.reverse, s)
  | fuel + 1, acc, breaks, last, s =>
    if isBlockLine column s then
      let indented := s.head?.any isWhite
      let (line, s) := s.takeWhile (! isBreak ·)
      let (lineBreak, s) := s.takeBreak
      let acc := (breaks ++ line).reverse ++ acc
      let (breaks, s) := blockBreaks column (s.rest.length + 1) s
      if isBlockLine column s then
        let between := if folded then foldedBreak lineBreak indented breaks s else lineBreak.toList
        blockLines folded column chomping fuel (between.reverse ++ acc) breaks none s
      else finish acc breaks lineBreak s
    else finish acc breaks last s
where
  /-- Ends a scalar after its last line. -/
  finish (acc breaks : List Char) (last : Option Char) (s : Cursor) : List Char × Cursor :=
    match chomping with
    | .strip => (acc.reverse, s)
    | .clip => (acc.reverse ++ last.toList, s)
    | .keep => (acc.reverse ++ last.toList ++ breaks, s)

/-- The text of the block scalar at the front, in a block at the given column. -/
def readBlockScalar (folded : Bool) (indent : Int) (s : Cursor) :
    Except Fault (List Char × Cursor) := do
  let (header, s) ← readHeader s.step
  let least := (max (indent + 1) 1).toNat
  let fuel := s.rest.length + 1
  match header.indent with
  | some n =>
    let column := least + n - 1
    let (breaks, s) := blockBreaks column fuel s
    return blockLines folded column header.chomping fuel [] breaks none s
  | none =>
    let (breaks, deepest, s) := findIndent fuel 0 s
    return blockLines folded (max least deepest) header.chomping fuel [] breaks none s

end FiniteAutomata.Yaml
