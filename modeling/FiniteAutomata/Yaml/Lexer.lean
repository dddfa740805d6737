import FiniteAutomata.Yaml.Literal
import FiniteAutomata.Yaml.Plain
import FiniteAutomata.Yaml.Quoted
import FiniteAutomata.Yaml.Tag

/-! # Tokens

Indentation is turned into tokens that open and close blocks. Whether a node is a key of a mapping is
known only once the colon after it is found; the tokens that say so are then put in front of it.
Until then the node is remembered as a possible key, one on each level of brackets, and its token is
held back. A key has to stand on one line and may not be longer than 1024 characters.

Tokens are made when they are asked for, no sooner, so that a fault that lies further on does not
hide what is wrong before it. -/

namespace FiniteAutomata.Yaml

/-- A token of a settings file. -/
inductive Token where
  | streamEnd
  | directive (d : Directive)
  | documentStart
  | documentEnd
  | blockSequence
  | blockMapping
  | blockEnd
  | openList
  | closeList
  | openMap
  | closeMap
  | entry
  | comma
  | key
  | value
  | alias (name : String)
  | anchor (name : String)
  | tag (t : TagText)
  | scalar (text : String) (isPlain : Bool)
deriving DecidableEq, Repr, Inhabited

/-- Where a possible key stands: the number of its token and its place. One at the column of a block
has to be a key. -/
structure PossibleKey where
  level : Nat
  number : Nat
  isRequired : Bool
  index : Nat
  line : Nat
  column : Nat
deriving DecidableEq, Repr

/-- The state of making tokens: the tokens made and not yet taken, how many were taken, how many
brackets are open, the possible keys, the columns of the open blocks, innermost first, and whether a
key may start here. -/
structure Lexer where
  cursor : Cursor
  queue : List Token := []
  taken : Nat := 0
  level : Nat := 0
  keys : List PossibleKey := []
  indents : List Nat := []
  allowsKey : Bool := true
  isDone : Bool := false
deriving DecidableEq, Repr, Inhabited

namespace Lexer

/-- The column of the innermost block, -1 outside of all. -/
def indent (x : Lexer) : Int := (x.indents.head?.map Int.ofNat).getD (-1)

/-- Whether brackets are open. -/
def inFlow (x : Lexer) : Bool := x.level ≠ 0

/-- Adds tokens to the queue. -/
def push (x : Lexer) (ts : List Token) : Lexer := { x with queue := x.queue ++ ts }

/-- The lexer after some characters. -/
def skip (x : Lexer) (n : Nat) : Lexer := { x with cursor := x.cursor.skip n }

/-! ### Possible keys -/

/-- Whether a possible key can be none any more. -/
def isStale (x : Lexer) (k : PossibleKey) : Bool :=
  k.line ≠ x.cursor.line || 1024 < x.cursor.index - k.index

/-- Drops the possible keys with a property, none of which may have to be a key. -/
def dropKeys (x : Lexer) (p : PossibleKey → Bool) : Except Fault Lexer :=
  if x.keys.any fun k => p k && k.isRequired then .error .malformed
  else .ok { x with keys := x.keys.filter fun k => ! p k }

/-- Drops the possible keys that can be none any more. -/
def dropStaleKeys (x : Lexer) : Except Fault Lexer := x.dropKeys x.isStale

/-- Drops the possible key on the current level. -/
def dropKey (x : Lexer) : Except Fault Lexer := x.dropKeys (·.level = x.level)

/-- Remembers that a key may start here. -/
def saveKey (x : Lexer) : Except Fault Lexer :=
  if x.allowsKey then do
    let x ← x.dropKey
    let key : PossibleKey :=
      { level := x.level, number := x.taken + x.queue.length
        isRequired := ! x.inFlow && x.indent = x.cursor.column
        index := x.cursor.index, line := x.cursor.line, column := x.cursor.column }
    return { x with keys := key :: x.keys }
  else .ok x

/-! ### Blocks -/

/-- Closes the blocks that are deeper than a column. -/
def closeBlocks (x : Lexer) (column : Int) : Lexer :=
  if x.inFlow then x
  else
    let deeper := x.indents.takeWhile fun (i : Nat) => column < (i : Int)
    { x.push (deeper.map fun _ => .blockEnd) with indents := x.indents.drop deeper.length }

/-- The lexer with a block at a column, and whether it is new. -/
def openBlock (x : Lexer) (column : Nat) : Lexer × Bool :=
  if x.indent < column then ({ x with indents := column :: x.indents }, true) else (x, false)

/-- Opens a block here unless it is open, with the token that starts it. -/
def openBlockHere (x : Lexer) (start : Token) : Lexer :=
  match x.openBlock x.cursor.column with
  | (x, true) => x.push [start]
  | (x, false) => x

/-! ### Space and comments -/

/-- Skips spaces, comments and line breaks; `fuel` bounds the number of lines. Outside of brackets a
key may start on a new line. -/
def skipSpace (x : Lexer) : (fuel : Nat) → Lexer
  | 0 => x
  | fuel + 1 =>
    match ((x.cursor.skipWhile (· = ' ')).skipComment).takeBreak with
    | (some _, s) => skipSpace { x with cursor := s, allowsKey := x.allowsKey || ! x.inFlow } fuel
    | (none, s) => { x with cursor := s }

/-- Skips a byte order mark at the front of the text. -/
def skipMark (x : Lexer) : Lexer :=
  if x.cursor.index = 0 && x.cursor.starts '\uFEFF' then x.skip 1 else x

/-! ### Making tokens -/

/-- Ends the tokens. -/
def endStream (x : Lexer) : Except Fault Lexer := do
  let x ← (x.closeBlocks (-1)).dropKey
  return { x.push [.streamEnd] with allowsKey := false, keys := [], isDone := true }

/-- Makes the token of a directive. -/
def makeDirective (x : Lexer) : Except Fault Lexer := do
  let x ← (x.closeBlocks (-1)).dropKey
  let (d, s) ← readDirective x.cursor
  return { x.push [.directive d] with cursor := s, allowsKey := false }

/-- Makes the token of a separator of documents. -/
def makeSeparator (x : Lexer) (t : Token) : Except Fault Lexer := do
  let x ← (x.closeBlocks (-1)).dropKey
  return { (x.skip 3).push [t] with allowsKey := false }

/-- Makes the token of an opening bracket. -/
def makeOpening (x : Lexer) (t : Token) : Except Fault Lexer := do
  let x ← x.saveKey
  return { (x.skip 1).push [t] with level := x.level + 1, allowsKey := true }

/-- Makes the token of a closing bracket. -/
def makeClosing (x : Lexer) (t : Token) : Except Fault Lexer := do
  let x ← x.dropKey
  return { (x.skip 1).push [t] with level := x.level - 1, allowsKey := false }

/-- Makes the token of a comma. -/
def makeComma (x : Lexer) : Except Fault Lexer := do
  let x ← x.dropKey
  return { (x.skip 1).push [.comma] with allowsKey := true }

/-- Makes the token of a dash. -/
def makeEntry (x : Lexer) : Except Fault Lexer := do
  if ! x.inFlow && ! x.allowsKey then throw .malformed
  let x := if x.inFlow then x else x.openBlockHere .blockSequence
  let x ← ({ x with allowsKey := true } : Lexer).dropKey
  return (x.skip 1).push [.entry]

/-- Makes the token of a question mark. -/
def makeKey (x : Lexer) : Except Fault Lexer := do
  if ! x.inFlow && ! x.allowsKey then throw .malformed
  let x := if x.inFlow then x else x.openBlockHere .blockMapping
  let x ← ({ x with allowsKey := ! x.inFlow } : Lexer).dropKey
  return (x.skip 1).push [.key]

/-- Puts the tokens of a key in front of the token with a number. -/
def insertKey (x : Lexer) (k : PossibleKey) : Lexer :=
  let place := k.number - x.taken
  let (x, isNew) := if x.inFlow then (x, false) else x.openBlock k.column
  let start := if isNew then [.blockMapping, .key] else [.key]
  { x with queue := x.queue.take place ++ start ++ x.queue.drop place }

/-- Makes the token of a colon; if there is a possible key before it, it is one. -/
def makeValue (x : Lexer) : Except Fault Lexer := do
  match x.keys.find? (·.level = x.level) with
  | some k =>
    let x := { x with keys := x.keys.filter (·.level ≠ x.level) }
    return { ((x.insertKey k).skip 1).push [.value] with allowsKey := false }
  | none =>
    if ! x.inFlow && ! x.allowsKey then throw .malformed
    let x := if x.inFlow then x else x.openBlockHere .blockMapping
    return { (x.skip 1).push [.value] with allowsKey := ! x.inFlow }

/-- Makes the token of an anchor or of a reference to one. -/
def makeName (x : Lexer) (make : String → Token) : Except Fault Lexer := do
  let x ← x.saveKey
  let (name, s) ← readAnchor x.cursor
  return { x.push [make name] with cursor := s, allowsKey := false }

/-- Makes the token of a tag. -/
def makeTag (x : Lexer) : Except Fault Lexer := do
  let x ← x.saveKey
  let (t, s) ← readTag x.cursor
  return { x.push [.tag t] with cursor := s, allowsKey := false }

/-- Makes the token of a block scalar. -/
def makeBlockScalar (x : Lexer) (folded : Bool) : Except Fault Lexer := do
  let x ← x.dropKey
  let (text, s) ← readBlockScalar folded x.indent x.cursor
  return { x.push [.scalar (String.ofList text) false] with cursor := s, allowsKey := true }

/-- Makes the token of a quoted scalar. -/
def makeQuoted (x : Lexer) : Except Fault Lexer := do
  let x ← x.saveKey
  let (text, s) ← readQuoted x.cursor
  return { x.push [.scalar (String.ofList text) false] with cursor := s, allowsKey := false }

/-- Makes the token of a plain scalar; if a line ends after it, a key may start there. -/
def makePlain (x : Lexer) : Except Fault Lexer := do
  let x ← x.saveKey
  let (text, endsLine, s) := readPlain x.inFlow (x.indent + 1) x.cursor
  return { x.push [.scalar (String.ofList text) true] with cursor := s, allowsKey := endsLine }

/-- Makes the next token, and those that it brings with it. -/
def make (x : Lexer) : Except Fault Lexer := do
  let x := x.skipMark
  let x ← (x.skipSpace (x.cursor.rest.length + 1)).dropStaleKeys
  let x := x.closeBlocks x.cursor.column
  match x.cursor.rest with
  | [] => x.endStream
  | c :: rest =>
    let s := x.cursor
    let isMark := x.inFlow || rest.head?.all isGap
    if c = '%' && s.column = 0 then x.makeDirective
    else if s.column = 0 && s.hasMarker "---" then x.makeSeparator .documentStart
    else if s.column = 0 && s.hasMarker "..." then x.makeSeparator .documentEnd
    else if c = '[' then x.makeOpening .openList
    else if c = '\x7b' then x.makeOpening .openMap
    else if c = ']' then x.makeClosing .closeList
    else if c = '\x7d' then x.makeClosing .closeMap
    else if c = ',' then x.makeComma
    else if c = '-' && rest.head?.all isGap then x.makeEntry
    else if c = '?' && isMark then x.makeKey
    else if c = ':' && isMark then x.makeValue
    else if c = '*' then x.makeName .alias
    else if c = '&' then x.makeName .anchor
    else if c = '!' then x.makeTag
    else if c = '|' && ! x.inFlow then x.makeBlockScalar false
    else if c = '>' && ! x.inFlow then x.makeBlockScalar true
    else if c = '\'' || c = '"' then x.makeQuoted
    else if startsPlain x.inFlow s then x.makePlain
    else throw .malformed

/-! ### Taking tokens -/

/-- Whether the token at the front of the queue may still turn out to be a key. -/
def isHeldBack (x : Lexer) : Bool := x.keys.any (·.number = x.taken)

/-- Makes tokens until the one at the front is known; `fuel` bounds how many. -/
def fill (x : Lexer) : (fuel : Nat) → Except Fault Lexer
  | 0 => .ok x
  | fuel + 1 => do
    if x.isDone then return x
    if x.queue.isEmpty then (← x.make).fill fuel
    else
      let x ← x.dropStaleKeys
      if x.isHeldBack then (← x.make).fill fuel else return x

/-- The next token, and the lexer that has made it. -/
def peek (x : Lexer) : Except Fault (Token × Lexer) := do
  let x ← x.fill (x.cursor.rest.length + 2)
  return (x.queue.headD .streamEnd, x)

/-- The lexer after the token at the front. -/
def drop (x : Lexer) : Lexer := { x with queue := x.queue.tail, taken := x.taken + 1 }

end Lexer

end FiniteAutomata.Yaml
