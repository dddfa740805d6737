import FiniteAutomata.Yaml.Form
import FiniteAutomata.Yaml.Lexer

/-! # Documents

A settings file holds one document at most. Its tokens are put together to nodes: what is left out
stands for nothing, a sequence may stand at the same column as the key before it, and a pair between
brackets is a mapping of its own. An anchor may be given once, and refers to its node from where that
starts. Collections may not lie too deep in each other. -/

namespace FiniteAutomata.Yaml

/-- The state of composing nodes: the tokens, what the handles of tags stand for, how many nodes were
started, how many more collections may open inside of each other, the anchors given so far, and the
nodes with an anchor that are complete. -/
structure Composer where
  lexer : Lexer
  handles : List (String × String) := []
  count : Nat := 0
  room : Nat := maxDepth
  names : List String := []
  anchors : List (String × Node) := []

namespace Composer

/-- The next token. -/
def peek (c : Composer) : Except Fault (Token × Composer) :=
  c.lexer.peek.map fun (t, lexer) => (t, { c with lexer })

/-- The composer after the next token. -/
def drop (c : Composer) : Composer := { c with lexer := c.lexer.drop }

/-! ### Properties -/

/-- What may stand in front of the content of a node. -/
structure Properties where
  anchor : Option String := none
  tag : Option TagText := none
deriving DecidableEq, Repr

/-- The anchor at the front, if there is one. -/
def takeAnchor (c : Composer) : Except Fault (Option String × Composer) := do
  match ← c.peek with
  | (.anchor name, c) => return (some name, c.drop)
  | (_, c) => return (none, c)

/-- The tag at the front, if there is one. -/
def takeTag (c : Composer) : Except Fault (Option TagText × Composer) := do
  match ← c.peek with
  | (.tag t, c) => return (some t, c.drop)
  | (_, c) => return (none, c)

/-- The properties at the front: an anchor and a tag in any order. -/
def takeProperties (c : Composer) : Except Fault (Properties × Composer) := do
  let (anchor, c) ← c.takeAnchor
  let (tag, c) ← c.takeTag
  if anchor.isNone && tag.isSome then
    let (anchor, c) ← c.takeAnchor
    return ({ anchor, tag }, c)
  else return ({ anchor, tag }, c)

/-- A tag written out; one that is a mark alone says nothing. -/
def fullTag (c : Composer) (t : TagText) : Except Fault String :=
  match t.handle with
  | none => .ok t.suffix
  | some handle =>
    match c.handles.lookup handle with
    | some start => .ok (start ++ t.suffix)
    | none => .error .malformed

/-- The kind that a tag stands for; without one, or with one that is a mark alone, another one. -/
def kindOr (other : Kind) (tag : Option String) : Kind :=
  match tag with
  | none => other
  | some tag => if tag = "!" then other else Kind.ofTag tag

/-- Numbers the next node and notes its anchor, which may be given once. -/
def declare (c : Composer) (anchor : Option String) : Except Fault (Nat × Composer) :=
  let number := c.count + 1
  match anchor with
  | none => .ok (number, { c with count := number })
  | some name =>
    if name ∈ c.names then .error .malformed
    else .ok (number, { c with count := number, names := name :: c.names })

/-- Keeps a node that is complete. -/
def keep (c : Composer) (anchor : Option String) (n : Node) : Node × Composer :=
  match anchor with
  | none => (n, c)
  | some name => (n, { c with anchors := (name, n) :: c.anchors })

/-- A scalar node. The kind of one that is plain, or whose tag is a mark alone, follows from its
form. -/
def scalar (c : Composer) (anchor tag : Option String) (text : String) (isPlain : Bool) :
    Except Fault (Node × Composer) := do
  let (number, c) ← c.declare anchor
  let form := if isPlain || tag = some "!" then kindOf text else .text
  return c.keep anchor (.scalar number (kindOr form tag) text)

/-! ### Nodes -/

/-- Where a node stands: outside of brackets, after a key outside of brackets, or inside. -/
inductive Place where
  | block
  | afterKey
  | flow
deriving DecidableEq, Repr

/-- The token at the front after the comma before it, which only the first item or pair of a collection
in brackets has not. -/
def passComma (c : Composer) (isFirst : Bool) : Except Fault (Token × Composer) := do
  match isFirst, ← c.peek with
  | true, found => return found
  | false, (.comma, c) => c.drop.peek
  | false, _ => throw .malformed

/-- The composer after a collection opens, unless too many are open already. -/
def descend (c : Composer) : Except Fault Composer :=
  match c.room with
  | 0 => .error .tooDeep
  | room + 1 => .ok { c with room }

/-- The composer after a collection closes. -/
def ascend (c : Composer) : Composer := { c with room := c.room + 1 }

mutual

/-- The node at the front; `fuel` bounds the number of nodes and parts to come. -/
def node (place : Place) : (fuel : Nat) → Composer → Except Fault (Node × Composer)
  | 0, _ => .error .malformed
  | fuel + 1, c => do
    let (t, c) ← c.peek
    if let .alias name := t then
      if name ∈ c.names then return (.alias name, c.drop) else throw .malformed
    let (p, c) ← c.takeProperties
    let tag ← p.tag.mapM c.fullTag
    let (t, c) ← c.peek
    if let .scalar text isPlain := t then
      c.drop.scalar p.anchor tag text (isPlain && tag.isNone)
    else if t = .openList || t = .openMap || (t = .blockSequence && place ≠ .flow) ||
        (t = .blockMapping && place ≠ .flow) || (t = .entry && place = .afterKey) then
      let (number, c) ← c.declare p.anchor
      let (n, c) ← collection number tag t fuel (← c.descend)
      return c.ascend.keep p.anchor n
    else if p.anchor.isSome || tag.isSome then c.scalar p.anchor tag "" tag.isNone
    else throw .malformed

/-- The collection that a token starts; a sequence at the column of a key starts with its first
item. -/
def collection (number : Nat) (tag : Option String) (start : Token) :
    (fuel : Nat) → Composer → Except Fault (Node × Composer)
  | 0, _ => .error .malformed
  | fuel + 1, c =>
    let sequence := fun (items, c) => (.sequence number (kindOr .sequence tag) items, c)
    let mapping := fun (pairs, c) => (.mapping number (kindOr .mapping tag) pairs, c)
    match start with
    | .openList => sequence <$> flowItems fuel [] c.drop
    | .openMap => mapping <$> flowPairs fuel [] c.drop
    | .blockSequence => sequence <$> blockItems fuel [] c.drop
    | .blockMapping => mapping <$> blockPairs fuel [] c.drop
    | _ => sequence <$> indentlessItems fuel [] c

/-- The node at the front, or nothing before tokens that close its place. -/
def nodeOrNull (place : Place) (closing : List Token) : (fuel : Nat) → Composer →
    Except Fault (Node × Composer)
  | 0, _ => .error .malformed
  | fuel + 1, c => do
    let (t, c) ← c.peek
    if closing.contains t then return (.null, c) else node place fuel c

/-- The items of a block sequence up to its end; those before them come last first. -/
def blockItems : (fuel : Nat) → List Node → Composer → Except Fault (List Node × Composer)
  | 0, _, _ => .error .malformed
  | fuel + 1, before, c => do
    let (t, c) ← c.peek
    if t = .entry then
      let (item, c) ← nodeOrNull .block [.entry, .blockEnd] fuel c.drop
      blockItems fuel (item :: before) c
    else if t = .blockEnd then return (before.reverse, c.drop)
    else throw .malformed

/-- The items of a sequence at the column of a key. -/
def indentlessItems : (fuel : Nat) → List Node → Composer → Except Fault (List Node × Composer)
  | 0, _, _ => .error .malformed
  | fuel + 1, before, c => do
    let (t, c) ← c.peek
    if t = .entry then
      let (item, c) ← nodeOrNull .block [.entry, .key, .value, .blockEnd] fuel c.drop
      indentlessItems fuel (item :: before) c
    else return (before.reverse, c)

/-- The value after a key, nothing without a colon. -/
def valueNode (place : Place) (closing : List Token) : (fuel : Nat) → Composer →
    Except Fault (Node × Composer)
  | 0, _ => .error .malformed
  | fuel + 1, c => do
    let (t, c) ← c.peek
    if t = .value then nodeOrNull place closing fuel c.drop else return (.null, c)

/-- The pairs of a block mapping up to its end. -/
def blockPairs : (fuel : Nat) → Pairs → Composer → Except Fault (Pairs × Composer)
  | 0, _, _ => .error .malformed
  | fuel + 1, before, c => do
    let (t, c) ← c.peek
    if t = .key then
      let (key, c) ← nodeOrNull .afterKey [.key, .value, .blockEnd] fuel c.drop
      let (value, c) ← valueNode .afterKey [.key, .value, .blockEnd] fuel c
      blockPairs fuel ((key, value) :: before) c
    else if t = .blockEnd then return (before.reverse, c.drop)
    else throw .malformed

/-- The items of a list in brackets up to its end. A pair among them is a mapping of its own. -/
def flowItems : (fuel : Nat) → List Node → Composer → Except Fault (List Node × Composer)
  | 0, _, _ => .error .malformed
  | fuel + 1, before, c => do
    let (t, c) ← c.peek
    if t = .closeList then return (before.reverse, c.drop)
    let (t, c) ← c.passComma before.isEmpty
    if t = .closeList then return (before.reverse, c.drop)
    else if t = .key then
      let (number, c) ← c.declare none
      let c ← c.descend
      let (key, c) ← nodeOrNull .flow [.value, .comma, .closeList] fuel c.drop
      let (value, c) ← valueNode .flow [.comma, .closeList] fuel c
      flowItems fuel (.mapping number .mapping [(key, value)] :: before) c.ascend
    else
      let (item, c) ← node .flow fuel c
      flowItems fuel (item :: before) c

/-- The pairs of a mapping in brackets up to its end. -/
def flowPairs : (fuel : Nat) → Pairs → Composer → Except Fault (Pairs × Composer)
  | 0, _, _ => .error .malformed
  | fuel + 1, before, c => do
    let (t, c) ← c.peek
    if t = .closeMap then return (before.reverse, c.drop)
    let (t, c) ← c.passComma before.isEmpty
    if t = .closeMap then return (before.reverse, c.drop)
    else if t = .key then
      let (key, c) ← nodeOrNull .flow [.value, .comma, .closeMap] fuel c.drop
      let (value, c) ← valueNode .flow [.comma, .closeMap] fuel c
      flowPairs fuel ((key, value) :: before) c
    else
      let (key, c) ← node .flow fuel c
      flowPairs fuel ((key, .null) :: before) c

end

/-! ### The document -/

/-- What handles of tags stand for unless a directive says otherwise. -/
def usualHandles : List (String × String) := [("!", "!"), ("!!", coreTag)]

/-- Reads directives; `fuel` bounds how many. The version may be given once and has to start with
one, and the meaning of a handle may be given once. -/
def directives (hasVersion : Bool) : (fuel : Nat) → Composer → Except Fault Composer
  | 0, c => .ok c
  | fuel + 1, c => do
    match ← c.peek with
    | (.directive (.version major), c) =>
      if hasVersion || major ≠ 1 then throw .malformed else directives true fuel c.drop
    | (.directive (.handle name start), c) =>
      if (c.handles.lookup name).isSome then throw .malformed
      else directives hasVersion fuel { c.drop with handles := (name, start) :: c.handles }
    | (.directive .other, c) => directives hasVersion fuel c.drop
    | (_, c) => return { c with handles := c.handles ++ usualHandles }

/-- Skips marks that end a document; `fuel` bounds how many. -/
def skipEnds : (fuel : Nat) → Composer → Except Fault (Token × Composer)
  | 0, c => c.peek
  | fuel + 1, c => do
    match ← c.peek with
    | (.documentEnd, c) => skipEnds fuel c.drop
    | (t, c) => return (t, c)

/-- The root of a document, with the head that announces it if there is one. -/
def root (fuel : Nat) (c : Composer) : Except Fault (Node × Composer) := do
  let (t, c) ← c.peek
  match t with
  | .directive _ | .documentStart =>
    let c ← c.directives false fuel
    match ← c.peek with
    | (.documentStart, c) =>
      let (t, c) ← c.drop.peek
      match t with
      | .directive _ | .documentStart | .documentEnd | .streamEnd => return (.null, c)
      | _ => node .block fuel c
    | _ => throw .malformed
  | _ => node .block fuel { c with handles := usualHandles }

/-- The only document, if there is one. -/
def document? (fuel : Nat) (c : Composer) : Except Fault (Option Document) := do
  let (t, c) ← c.peek
  if t = .streamEnd then return none
  let (root, c) ← c.root fuel
  let (t, c) ← c.skipEnds fuel
  if t = .streamEnd then return some ⟨root, c.anchors, c.count⟩ else throw .malformed

end Composer

/-- The document that a text holds, if it holds one. -/
def compose (text : List Char) : Except Fault (Option Document) :=
  if text.all isAllowed then
    Composer.document? (8 * text.length + 16) { lexer := { cursor := { rest := text } } }
  else .error .malformed

end FiniteAutomata.Yaml
