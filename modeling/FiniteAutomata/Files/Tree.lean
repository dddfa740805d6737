import FiniteAutomata.Files.Basic
import FiniteAutomata.Path

/-! # Trees of files

Files and directories stand at places, the names on the way from the root. A path is followed name
by name from the working directory or from the root; two dots lead back to the directory above. A
file can be written where its directory exists, and a directory can be made with all those above
it. -/

namespace FiniteAutomata.Files

/-- A place: the names on the way from the root. -/
abbrev Place := List (List Char)

/-- A tree of files: the files at their places, and the places of directories; a directory that
holds a file or a directory of the tree need not be listed itself. -/
structure Tree where
  files : List (Place × ByteArray) := []
  directories : List Place := []

/-- The most bytes that a name may have. -/
def maxName : Nat := 255

/-- The bytes that a path has to stay below. -/
def maxPath : Nat := 4096

/-- The place that a path leads to from a directory, if it leads anywhere. -/
def placeOf (directory : Place) (path : Path) : Place :=
  path.parts.foldl
    (fun place name => if name = ['.', '.'] then place.dropLast else place ++ [name])
    (if path.root.isEmpty then directory else [])

/-- The path of a place from the root. -/
def pathOf (place : Place) : Path := { root := ['/'], parts := place }

namespace Tree

/-- Whether a directory stands at a place. -/
def hasDirectory (t : Tree) (place : Place) : Bool :=
  place.isEmpty || t.directories.any place.isPrefixOf ||
    t.files.any fun e => place.isPrefixOf e.1 && place.length < e.1.length

/-- What stands at a place. -/
def entry (t : Tree) (place : Place) : Found :=
  if t.hasDirectory place then .directory
  else ((t.files.lookup place).map .file).getD .missing

/-- What is found by following names from a directory. -/
def follow (t : Tree) (place : Place) : List (List Char) → Found
  | [] => .directory
  | name :: rest =>
    if name = ['.', '.'] then t.follow place.dropLast rest
    else if maxName < (String.ofList name).utf8ByteSize then .tooLong
    else
      match t.entry (place ++ [name]) with
      | .directory => t.follow (place ++ [name]) rest
      | .file content => if rest.isEmpty then .file content else .blocked
      | found => found

/-- What stands at a path as it is seen from a directory. -/
def look (t : Tree) (directory : Place) (path : Path) : Found :=
  if path.text.toList.contains (Char.ofNat 0) then .unnameable
  else if maxPath ≤ path.text.utf8ByteSize then .tooLong
  else t.follow (if path.root.isEmpty then directory else []) path.parts

/-- The place of a file that can be written at a path. -/
def target (t : Tree) (directory : Place) (path : Path) : Except Fault Place :=
  match t.look directory path with
  | .file _ => .ok (placeOf directory path)
  | .directory => .error (.isDirectory path.text)
  | .blocked => .error (.notDirectory path.text)
  | .tooLong => .error (.tooLong path.text)
  | .unnameable => .error .unnameable
  | .missing =>
    if t.look directory path.parent = .directory then .ok (placeOf directory path)
    else .error (.missing path.text)

/-- The tree if a directory stands at a path, a fault if anything else stands in its way, and what
is said for the case that nothing does. -/
def havingDirectory (t : Tree) (directory : Place) (path : Path) (ifMissing : Except Fault Tree) :
    Except Fault Tree :=
  match t.look directory path with
  | .directory => .ok t
  | .file _ => .error (.taken path.text)
  | .blocked => .error (.notDirectory path.text)
  | .tooLong => .error (.tooLong path.text)
  | .unnameable => .error .unnameable
  | .missing => ifMissing

/-- The tree with the directory of the first `count` names of a path, and all those above it. -/
def makeDirectories (t : Tree) (directory : Place) (path : Path) :
    (count : Nat) → Except Fault Tree
  | 0 => .ok t
  | count + 1 =>
    let part := { path with parts := path.parts.take (count + 1) }
    t.havingDirectory directory part do
      let above ← t.makeDirectories directory path count
      above.havingDirectory directory part
        (.ok { above with directories := placeOf directory part :: above.directories })

/-- The tree with a directory at a path. -/
def withDirectory (t : Tree) (directory : Place) (path : Path) : Except Fault Tree :=
  t.makeDirectories directory path path.parts.length

/-- The tree with a file at a place, empty unless there is one; no directory may stand there. -/
def withFile (t : Tree) (place : Place) : Except Fault Tree :=
  match t.entry place with
  | .directory => .error (.isDirectory (pathOf place).text)
  | .file _ => .ok t
  | _ => .ok { t with files := t.files ++ [(place, ByteArray.empty)] }

end Tree

end FiniteAutomata.Files
