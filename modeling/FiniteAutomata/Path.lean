import FiniteAutomata.Text.Basic

/-! # Paths of files

Parts of a path are separated by slashes. Empty parts and single dots mean nothing and are dropped
when a path is written out; double dots stay. A path that starts with a slash is absolute. -/

namespace FiniteAutomata

/-- A path: whether it starts at a root, which may be written with one slash or two, and its
parts. -/
structure Path where
  root : List Char
  parts : List (List Char)
deriving DecidableEq, Repr

namespace Path

open Text

/-- The root at the front of a path: exactly two slashes are a root of their own. -/
def rootOf : List Char → List Char
  | '/' :: '/' :: '/' :: _ => ['/']
  | '/' :: '/' :: _ => ['/', '/']
  | '/' :: _ => ['/']
  | _ => []

/-- The path that a text spells. -/
def ofText (text : String) : Path where
  root := rootOf text.toList
  parts := (splitOn '/' text.toList).filter fun part => part ≠ [] && part ≠ ['.']

/-- A path written out; one without parts and root is a dot. -/
def text (p : Path) : String :=
  let body := p.root ++ join ['/'] p.parts
  if body.isEmpty then "." else String.ofList body

/-- The path of the directory that holds a path. -/
def parent (p : Path) : Path := { p with parts := p.parts.dropLast }

/-- A path below another one; an absolute path stays as it is. -/
def below (base p : Path) : Path :=
  if p.root.isEmpty then { base with parts := base.parts ++ p.parts } else p

end Path

end FiniteAutomata
