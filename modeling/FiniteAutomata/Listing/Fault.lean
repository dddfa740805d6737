import FiniteAutomata.Draft

/-! # Listings: what can be wrong

Each way in which a line of a listing is malformed, and the text that reports it. A report names
the line by its number and shows it without the blanks around it. -/

namespace FiniteAutomata.Listing

/-- What is wrong with a line. -/
inductive Fault where
  | namelessState
  | reservedState (name : String)
  | repeatedState (name : String)
  | expectedAssignment
  | namelessVariable
  | missingValue (key : String)
  | unclosedArray
  | textAfterArray
  | expectedTransition (state : String)
  | severalTabs
  | missingToken
  | missingDestination
  | tokenCollision (token state : String)
  | malformedCommand
  | unclosedDestinations
  | noDestinations
  | emptyDestination (position : Nat)
  | unreadableWeight (item : String) (position : Nat)
  | namelessDestination (position : Nat)
  | nonPositiveWeight (position : Nat)
  | duplicateDestination (name : String) (position : Nat)
deriving DecidableEq, Repr

/-- The text of a fault. -/
def Fault.reason : Fault → String
  | .namelessState => "state definition is missing a name"
  | .reservedState name => s!"'{name}' is reserved and cannot name a state"
  | .repeatedState name => s!"state '{name}' is defined more than once"
  | .expectedAssignment => "expected 'key = value' or a state definition 'name:'"
  | .namelessVariable => "assignment is missing a variable name"
  | .missingValue key => s!"assignment to '{key}' is missing a value"
  | .unclosedArray => "array is missing its closing ']'"
  | .textAfterArray => "unexpected text after array"
  | .expectedTransition state =>
    s!"expected 'token<TAB>destination' or a $command in state '{state}'"
  | .severalTabs => "transition must contain exactly one tab"
  | .missingToken => "transform missing token"
  | .missingDestination => "transform missing destination"
  | .tokenCollision token state => s!"token collision: '{token}' already defined in state '{state}'"
  | .malformedCommand => "malformed command, expected '$name(arg, ...)'"
  | .unclosedDestinations => "destination list is missing its closing ']'"
  | .noDestinations => "destination list is empty"
  | .emptyDestination position => s!"empty destination at position {position}"
  | .unreadableWeight item position => s!"unparsable weight in '{item}' at position {position}"
  | .namelessDestination position => s!"empty destination name at position {position}"
  | .nonPositiveWeight position => s!"weight must be positive at position {position}"
  | .duplicateDestination name position => s!"duplicate destination '{name}' at position {position}"

/-- A reason together with the line it arose in, as far as that is known. -/
def locate (reason : String) (line : Option Int) (source : Option String) : String :=
  match line, source with
  | none, _ => reason
  | some n, none => s!"line {n}: {reason}"
  | some n, some text => s!"line {n}: {reason}\n    {text}"

/-- A malformed line: its number from one on, its trimmed text, and what is wrong. -/
structure LineError where
  number : Nat
  source : String
  fault : Fault
deriving DecidableEq, Repr

/-- The text of the report on a malformed line. -/
def LineError.message (e : LineError) : String :=
  locate e.fault.reason (some e.number) (some e.source)

/-- Why a listing describes no program: a malformed line, or lines that do not fit together. -/
inductive Error where
  | line (e : LineError)
  | inconsistent (e : Inconsistency)
deriving DecidableEq, Repr

/-- The text of the report on a listing. -/
def Error.message : Error → String
  | .line e => e.message
  | .inconsistent e => e.message

end FiniteAutomata.Listing
