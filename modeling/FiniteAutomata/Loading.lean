import FiniteAutomata.Diagram.Import
import FiniteAutomata.Files.Basic
import FiniteAutomata.Json.Reader
import FiniteAutomata.Listing.Reader
import FiniteAutomata.Text.Utf8

/-! # Loading programs from files

A program comes from the bytes of a file that holds a listing or a diagram. A file may be missing or
unreadable, its bytes may spell no text, and the text may go beyond the limits of its reader; what
else can go wrong is what the text itself is refused for. -/

namespace FiniteAutomata

/-- Why a file gives no program. -/
inductive LoadError where
  | notFound (path : String)
  | unreadable (e : Files.Fault)
  | undecodable (e : Text.Utf8Error)
  | listing (e : Listing.Error)
  | badJson (path : String) (e : Json.Error)
  | beyond (limit : Json.Limit)
  | diagram (e : Diagram.Error)
deriving DecidableEq, Repr

/-- The text of the report on a file. -/
def LoadError.message : LoadError → String
  | .notFound path => s!"File \"{path}\" not found"
  | .unreadable e => e.message
  | .undecodable e => e.message
  | .listing e => e.message
  | .badJson path e => s!"Invalid JSON in {path}: " ++ e.message
  | .beyond limit => limit.message
  | .diagram e => e.message

/-- What kind of fault a file has. -/
inductive LoadError.Kind where
  | missing
  | unreadable
  | undecodable
  | malformedListing
  | malformedDiagram
  | beyond
  | inconsistent
deriving DecidableEq, Repr

/-- The kind of a fault. -/
def LoadError.kind : LoadError → LoadError.Kind
  | .notFound _ => .missing
  | .unreadable _ => .unreadable
  | .undecodable _ => .undecodable
  | .listing (.line _) => .malformedListing
  | .listing (.inconsistent _) => .inconsistent
  | .badJson _ _ => .malformedDiagram
  | .beyond _ => .beyond
  | .diagram (.drafting _) => .malformedDiagram
  | .diagram (.inconsistent _) => .inconsistent

namespace Listing

/-- The text of a listing in a file, which may start with a byte order mark. -/
def fileText (path : String) (content : Option ByteArray) : Except LoadError String :=
  match content with
  | none => .error (.notFound path)
  | some bytes => (Text.readMarkedBytes bytes).mapError .undecodable

/-- The program of a listing in a file; a missing file has no content. -/
def load (path : String) (content : Option ByteArray) : Except LoadError Program := do
  let text ← fileText path content
  (parse text).mapError .listing

end Listing

namespace Diagram

/-- The data of a diagram in a file. -/
def fileDatum (path : String) (content : Option ByteArray) : Except LoadError Datum :=
  match content with
  | none => .error (.notFound path)
  | some bytes => do
    let text ← (Text.readBytes bytes).mapError .undecodable
    (Json.read text).mapError fun e =>
      match e.reason with
      | .beyond limit => .beyond limit
      | _ => .badJson path e

/-- The program of a diagram in a file; a missing file has no content. -/
def load (path : String) (content : Option ByteArray) (asked : Option String) (mode : Mode) :
    Except LoadError Program := do
  let datum ← fileDatum path content
  (convert datum asked mode).mapError .diagram

end Diagram

end FiniteAutomata
