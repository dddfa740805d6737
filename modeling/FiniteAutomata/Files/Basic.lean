import FiniteAutomata.Text.Quoted

/-! # Files

What can stand at a path, and why a file there cannot be read or written. Where a file is looked for
and nothing can be there, it is missing; only a directory in its place and a name that is too long
are faults. -/

namespace FiniteAutomata.Files

/-- Contents are compared byte by byte. -/
instance (priority := high) decidableEqContent : DecidableEq ByteArray := ByteArray.decEq

/-- What stands at a path: a file with its content, a directory, or nothing, because the entry is
missing, because a file is on the way, because a name is too long, or because a name holds the null
character. -/
inductive Found where
  | file (content : ByteArray)
  | directory
  | missing
  | blocked
  | tooLong
  | unnameable
deriving DecidableEq

/-- Why a path cannot be used. -/
inductive Fault where
  | missing (path : String)
  | taken (path : String)
  | notDirectory (path : String)
  | isDirectory (path : String)
  | tooLong (path : String)
  | unnameable
deriving DecidableEq, Repr

/-- The text of the report on a path. -/
def Fault.message : Fault → String
  | .missing path => "[Errno 2] No such file or directory: " ++ Text.quote path
  | .taken path => "[Errno 17] File exists: " ++ Text.quote path
  | .notDirectory path => "[Errno 20] Not a directory: " ++ Text.quote path
  | .isDirectory path => "[Errno 21] Is a directory: " ++ Text.quote path
  | .tooLong path => "[Errno 36] File name too long: " ++ Text.quote path
  | .unnameable => "embedded null byte"

namespace Found

/-- Whether something stands at a path. -/
def isThere : Found → Bool
  | .file _ | .directory => true
  | _ => false

/-- The content to read at a path, if anything stands there. -/
def content? (path : String) : Found → Except Fault (Option ByteArray)
  | .file content => .ok (some content)
  | .missing | .blocked | .unnameable => .ok none
  | .directory => .error (.isDirectory path)
  | .tooLong => .error (.tooLong path)

end Found

end FiniteAutomata.Files
