import FiniteAutomata.Yaml.Cursor
import FiniteAutomata.Yaml.Fault

/-! # Quoted scalars

A scalar between quotes may go on over lines: a single line break counts as a space, and of several
each but the first one stays; blanks around them do not count. Between single quotes a quote is
written twice; between double quotes a backslash starts an escape. -/

namespace FiniteAutomata.Yaml

/-! ### Line breaks -/

/-- The line breaks at the front, with the blanks around them; `fuel` bounds how many. A separator of
documents may not start a line. -/
def quotedBreaks : (fuel : Nat) → Cursor → Except Fault (List Char × Cursor)
  | 0, s => .ok ([], s)
  | fuel + 1, s =>
    if s.isAtSeparator then .error .malformed
    else
      let s := s.skipWhile isWhite
      match s.takeBreak with
      | (some c, s) => (quotedBreaks fuel s).map fun (breaks, s) => (c :: breaks, s)
      | (none, s) => .ok ([], s)

/-- What a line break stands for with those that follow it: alone a space. -/
def foldBreaks (first : Char) (others : List Char) : List Char :=
  if first ≠ '\n' then first :: others
  else if others.isEmpty then [' ']
  else others

/-- What the blanks and line breaks at the front stand for, with something after them. -/
def quotedGap (s : Cursor) : Except Fault (List Char × Cursor) :=
  let (blanks, s) := s.takeWhile isWhite
  if s.rest.isEmpty then .error .malformed
  else
    match s.takeBreak with
    | (some c, s) =>
      (quotedBreaks (s.rest.length + 1) s).map fun (breaks, s) => (foldBreaks c breaks, s)
    | (none, s) => .ok (blanks, s)

/-! ### Escapes -/

/-- What escapes of one letter stand for. -/
def escapes : List (Char × Char) :=
  [('0', '\x00'), ('a', '\x07'), ('b', '\x08'), ('t', '\t'), ('\t', '\t'), ('n', '\n'), ('v', '\x0b'),
   ('f', '\x0c'), ('r', '\r'), ('e', '\x1b'), (' ', ' '), ('"', '"'), ('/', '/'), ('\\', '\\'),
   ('N', '\u0085'), ('_', '\u00a0'), ('L', '\u2028'), ('P', '\u2029')]

/-- The numbers of digits of the escapes that spell a code point. -/
def codeEscapes : List (Char × Nat) := [('x', 2), ('u', 4), ('U', 8)]

/-- The character with a code point; half a pair of code units is none. -/
def charOfCode (n : Nat) : Except Fault Char :=
  if 0x80000000 ≤ n then .error .oversizedCodePoint
  else if 0x110000 ≤ n then .error .codePoint
  else if 0xD800 ≤ n && n ≤ 0xDFFF then .error .halfPair
  else .ok (Char.ofNat n)

/-- The character whose code point some hexadecimal digits spell. -/
def readCode (digits : Nat) (s : Cursor) : Except Fault (List Char × Cursor) :=
  let code := s.rest.take digits
  match hexNumber? code with
  | some n =>
    if code.length = digits then (charOfCode n).map fun c => ([c], s.skip digits)
    else .error .malformed
  | none => .error .malformed

/-- What an escape stands for; the cursor is after its backslash. -/
def readEscape (s : Cursor) : Except Fault (List Char × Cursor) :=
  match s.head? with
  | none => .error .malformed
  | some c =>
    match escapes.lookup c, codeEscapes.lookup c with
    | some e, _ => .ok ([e], s.step)
    | none, some digits => readCode digits s.step
    | none, none =>
      match s.takeBreak with
      | (some _, s) => quotedBreaks (s.rest.length + 1) s
      | (none, _) => .error .malformed

/-! ### Scalars -/

/-- Reads up to the closing quote. What was read stands in `acc`, last character first; `fuel` bounds
the number of parts. -/
def quotedFrom (quote : Char) : (fuel : Nat) → (acc : List Char) → Cursor →
    Except Fault (List Char × Cursor)
  | 0, _, _ => .error .malformed
  | fuel + 1, acc, s =>
    match s.rest with
    | [] => .error .malformed
    | c :: rest =>
      if c = quote then
        if quote = '\'' && rest.head? = some quote then quotedFrom quote fuel (c :: acc) (s.skip 2)
        else .ok (acc.reverse, s.step)
      else if c = '\\' && quote = '"' then do
        let (part, s) ← readEscape s.step
        quotedFrom quote fuel (part.reverse ++ acc) s
      else if isGap c then do
        let (part, s) ← quotedGap s
        quotedFrom quote fuel (part.reverse ++ acc) s
      else quotedFrom quote fuel (c :: acc) s.step

/-- The text of the quoted scalar at the front. -/
def readQuoted (s : Cursor) : Except Fault (List Char × Cursor) :=
  match s.rest with
  | quote :: rest => quotedFrom quote (rest.length + 1) [] s.step
  | [] => .error .malformed

end FiniteAutomata.Yaml
