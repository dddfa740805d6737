import FiniteAutomata.Files.Basic
import FiniteAutomata.Options.Reader
import FiniteAutomata.Text.Utf8
import FiniteAutomata.Yaml.Reader

/-! # Options from settings files

A settings file holds a mapping from names of options to values; a hyphen in a name counts as an
underscore. A file may be asked for by its path, else the first that exists of the usual places is
taken, and without one all options have their defaults. -/

namespace FiniteAutomata.Options

/-- Why no options could be had. -/
inductive Error where
  | notFound (path : String)
  | unreadable (e : Files.Fault)
  | undecodable (e : Text.Utf8Error)
  | badYaml (path : String)
  | noValue (e : Yaml.Fault)
  | notMapping (path : String)
  | invalid (path : String) (findings : List Finding)
  | invalidOverrides (findings : List Finding)
deriving DecidableEq, Repr

/-- The text of the report on options. -/
def Error.message : Error → String
  | .notFound path => s!"Config file \"{path}\" not found"
  | .unreadable e => e.message
  | .undecodable e => e.message
  | .badYaml path => s!"Invalid YAML in {path}"
  | .noValue e => e.message
  | .notMapping path => s!"Config file {path} must contain a mapping"
  | .invalid path findings => s!"Invalid config in {path}: " ++ summary "RunOptions" findings
  | .invalidOverrides findings => "Invalid run options: " ++ summary "RunOptions" findings

/-- A name with underscores in place of hyphens. -/
def normalName (name : String) : String :=
  String.ofList (name.toList.map fun c => if c = '-' then '_' else c)

/-- Fields under their normal names: of two that coincide the later one gives the value. -/
def normalFields (fields : List (String × Datum)) : List (String × Datum) :=
  fields.foldl (fun acc e => Entries.put (normalName e.1) e.2 acc) []

/-- The options that the text of a settings file gives. -/
def ofText (path text : String) : Except Error Options :=
  match Yaml.read text with
  | .error .malformed => .error (.badYaml path)
  | .error e => .error (.noValue e)
  | .ok .null => (ofFields []).mapError (.invalid path)
  | .ok (.object fields) => (ofFields (normalFields fields)).mapError (.invalid path)
  | .ok _ => .error (.notMapping path)

/-- The options that a settings file gives; a missing file has no content. -/
def load (path : String) (content : Option ByteArray) : Except Error Options :=
  match content with
  | none => .error (.notFound path)
  | some bytes =>
    match Text.readBytes bytes with
    | .ok text => ofText path text
    | .error e => .error (.undecodable e)

/-- The options with fields put over theirs. -/
def override (o : Options) (fields : List (String × Datum)) : Except Error Options :=
  (o.merged fields).mapError .invalidOverrides

end FiniteAutomata.Options
