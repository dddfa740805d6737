import FiniteAutomata.Yaml.Cursor
import FiniteAutomata.Yaml.Fault
import FiniteAutomata.Text.Utf8

/-! # Names, tags and directives

Apart from its content a node may have an anchor, under which it can be referred to, and a tag, which
says what it stands for. A tag is written out between angle brackets, or is short for a longer one
that starts with what its handle stands for. Directives at the head of a document give its version
and the meaning of handles. -/

namespace FiniteAutomata.Yaml

/-! ### Anchors -/

/-- Whether a character may follow the name of an anchor. -/
def endsName (c : Char) : Bool :=
  isGap c || c = '?' || c = ':' || c = ',' || c = ']' || c = '\x7d' || c = '%' || c = '@' || c = '\x60'

/-- The name of an anchor; the cursor is at the mark before it. -/
def readAnchor (s : Cursor) : Except Fault (String × Cursor) :=
  let (name, s) := s.step.takeWhile isNameChar
  if name.isEmpty || ! s.stops endsName then .error .malformed else .ok (String.ofList name, s)

/-! ### Tags -/

/-- Whether a character may stand in a tag. -/
def isTagChar (c : Char) : Bool :=
  isNameChar c || c = ';' || c = '/' || c = '?' || c = ':' || c = '@' || c = '&' || c = '=' || c = '+' ||
    c = '$' || c = ',' || c = '.' || c = '!' || c = '~' || c = '*' || c = '\'' || c = '(' || c = ')' ||
    c = '[' || c = ']'

/-- The bytes that escapes of two hexadecimal digits at the front spell; `fuel` bounds how many. -/
def tagBytes : (fuel : Nat) → Cursor → Except Fault (List Nat × Cursor)
  | 0, s => .ok ([], s)
  | fuel + 1, s =>
    if s.starts '%' then
      match s.rest.drop 1 |>.take 2, hexNumber? (s.rest.drop 1 |>.take 2) with
      | [_, _], some byte => (tagBytes fuel (s.skip 3)).map fun (bytes, s) => (byte :: bytes, s)
      | _, _ => .error .malformed
    else .ok ([], s)

/-- The text of a tag or of a part of one, which may be empty; `fuel` bounds the number of parts. -/
def tagText : (fuel : Nat) → Cursor → Except Fault (List Char × Cursor)
  | 0, s => .ok ([], s)
  | fuel + 1, s => do
    let (plain, s) := s.takeWhile isTagChar
    if s.starts '%' then
      let (bytes, s) ← tagBytes (s.rest.length + 1) s
      let escaped ← (Text.decode bytes).mapError fun _ => .malformed
      let (more, s) ← tagText fuel s
      return (plain ++ escaped ++ more, s)
    else return (plain, s)

/-- The text of a tag or of a part of one. -/
def readTagText (s : Cursor) : Except Fault (String × Cursor) :=
  if s.stops fun c => ! isTagChar c && c ≠ '%' then .error .malformed
  else (tagText (s.rest.length + 1) s).map fun (text, s) => (String.ofList text, s)

/-- The handle of a tag: a mark alone, or a name between two of them. -/
def readHandle (s : Cursor) : Except Fault (String × Cursor) :=
  if ! s.starts '!' then .error .malformed
  else
    let s := s.step
    if s.starts ' ' then .ok ("!", s)
    else
      let (name, s) := s.takeWhile isNameChar
      if s.starts '!' then .ok ("!" ++ String.ofList name ++ "!", s.step) else .error .malformed

/-- A tag as it is written: its handle, if it has one, and the rest. -/
structure TagText where
  handle : Option String
  suffix : String
deriving DecidableEq, Repr

/-- The tag at the front. -/
def readTag (s : Cursor) : Except Fault (TagText × Cursor) := do
  let next := s.step
  let (tag, s) ←
    if next.starts '<' then do
      let (suffix, s) ← readTagText next.step
      if ! s.starts '>' then throw .malformed
      pure ((⟨none, suffix⟩ : TagText), s.step)
    else if next.stops isGap then pure ((⟨none, "!"⟩ : TagText), next)
    else do
      let hasHandle := (next.rest.takeWhile (! isSpaceOrBreak ·)).contains '!'
      let (handle, s) ← if hasHandle then readHandle s else pure ("!", next)
      let (suffix, s) ← readTagText s
      pure ((⟨some handle, suffix⟩ : TagText), s)
  if s.stops isSpaceOrBreak then return (tag, s) else throw .malformed

/-! ### Directives -/

/-- What a directive says: the version of the format, what a handle stands for, or something of no
interest. -/
inductive Directive where
  | version (major : Int)
  | handle (name start : String)
  | other
deriving DecidableEq, Repr

/-- The number at the front. -/
def readVersionNumber (s : Cursor) : Except Fault (Int × Cursor) :=
  let (digits, s) := s.takeWhile (·.isDigit)
  match Decimal.readInt digits with
  | .ok n => .ok (n, s)
  | .error (.oversized n) => .error (.oversizedInteger n)
  | .error .unreadable => .error .malformed

/-- The version that a directive gives. -/
def readVersion (s : Cursor) : Except Fault (Directive × Cursor) := do
  let (major, s) ← readVersionNumber (s.skipWhile (· = ' '))
  if ! s.starts '.' then throw .malformed
  let (_, s) ← readVersionNumber s.step
  if s.stops isSpaceOrBreak then return (.version major, s) else throw .malformed

/-- The meaning of a handle that a directive gives. -/
def readHandleMeaning (s : Cursor) : Except Fault (Directive × Cursor) := do
  let (name, s) ← readHandle (s.skipWhile (· = ' '))
  if ! s.starts ' ' then throw .malformed
  let (start, s) ← readTagText (s.skipWhile (· = ' '))
  if s.stops isSpaceOrBreak then return (.handle name start, s) else throw .malformed

/-- The directive at the front, with its line. -/
def readDirective (s : Cursor) : Except Fault (Directive × Cursor) := do
  let (name, s) := s.step.takeWhile isNameChar
  if name.isEmpty || ! s.stops isSpaceOrBreak then throw .malformed
  let (directive, s) ←
    if name = "YAML".toList then readVersion s
    else if name = "TAG".toList then readHandleMeaning s
    else pure (.other, s.skipLine)
  match s.idleLine? with
  | some s => return (directive, s)
  | none => throw .malformed

end FiniteAutomata.Yaml
