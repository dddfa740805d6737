import FiniteAutomata.Decimal.Numeral
import FiniteAutomata.Program
import FiniteAutomata.Text.Quoted

/-! # Drafts

A draft is a program as it is assembled: tables, commands and assignments, nothing checked.
`Draft.validate` resolves alphabet, start, accept states and mode from the assignments, and checks
that every reference is defined. The first violation found is reported, in the order: alphabet,
references, start, accept states, mode, and last what `Program.flaw?` finds. -/

namespace FiniteAutomata

/-- The parts of a program, not yet checked. -/
structure Draft where
  states : Dict String Table := ∅
  commands : Dict String (List Command) := ∅
  vars : Dict String Setting := ∅
deriving DecidableEq, Inhabited

/-! ### Violations -/

/-- Why a draft is not a program. -/
inductive Inconsistency where
  | alphabetNotArray (text : String)
  | illegalToken (symbol state : String) (alphabet : List String)
  | undefinedDestination (state destination : String) (token : Token)
  | noStart
  | startIsArray
  | reservedStart
  | undefinedStart (state : String)
  | noAccept
  | acceptNotArray (text : String)
  | emptyAccept
  | reservedAccept
  | undefinedAccept (state : String)
  | invalidMode (value : Setting)
  | flawed (flaw : Program.Flaw)
deriving DecidableEq, Repr

/-- The text of a flaw. -/
def Program.Flaw.message : Program.Flaw → String
  | .unknownStart state => s!"Start state '{state}' is not a defined state."
  | .unknownAccept state => s!"Accept state '{state}' is not a defined state."
  | .noDestination state token =>
    s!"State '{state}' has an empty destination set for '" ++ token.lexeme ++ "'."
  | .badWeight state weight destination =>
    s!"State '{state}' has non-positive weight " ++ Decimal.write weight ++ " towards '" ++
      destination.lexeme ++ "'."
  | .unknownDestination state destination =>
    s!"State '{state}' transitions to unknown state '{destination}'."

/-- The value of an assignment inside a message. -/
def Setting.shown : Setting → String
  | .literal text => text
  | .array items => Text.quoteList items

/-- The text of a violation. -/
def Inconsistency.message : Inconsistency → String
  | .alphabetNotArray text => s!"'lang' must be an array, got literal '{text}'"
  | .illegalToken symbol state alphabet =>
    s!"Illegal token '{symbol}' in state '{state}': not in declared language [" ++
      String.intercalate ", " alphabet ++ "]"
  | .undefinedDestination state destination token =>
    s!"State '{state}' references undefined state '{destination}' on token '" ++ token.lexeme ++ "'"
  | .noStart => "No start state declared (missing 'start = <state>')"
  | .startIsArray => "'start' must be a single state name, not an array"
  | .reservedStart => "Start state cannot be the null state"
  | .undefinedStart state => s!"Start state '{state}' is not a defined state"
  | .noAccept => "No accept states declared (missing 'accept = [...]')"
  | .acceptNotArray text => s!"'accept' must be an array, got literal '{text}'"
  | .emptyAccept => "'accept' must list at least one state"
  | .reservedAccept => "Accept states cannot include the null state"
  | .undefinedAccept state => s!"Accept state '{state}' is not a defined state"
  | .invalidMode value =>
    "Invalid mode '" ++ value.shown ++ "'. Must be one of: " ++
      String.intercalate ", " (Mode.all.map Mode.text)
  | .flawed _ => "Inconsistent program: 1 validation error for Program"

namespace Draft

/-! ### Resolving the assignments -/

/-- The elements of a list at their first occurrence. -/
def firstOccurrences (items : List String) : List String :=
  items.foldl (fun seen item => if item ∈ seen then seen else seen ++ [item]) []

/-- Notes the state at a token that is a name and not noted yet. -/
def noteUse (state : String) (uses : Dict String String) (token : Token) : Dict String String :=
  match token with
  | .named symbol => if symbol ∈ uses then uses else uses.insert symbol state
  | .sentinel _ => uses

/-- Each token that is a name with the first state that uses it, in order of first use. -/
def uses (d : Draft) : Dict String String :=
  d.states.entries.foldl (fun acc s => s.2.keys.foldl (noteUse s.1) acc) ∅

/-- The alphabet and whether it is declared. A declared one holds every token in use; otherwise it
is the tokens in use. -/
def resolveAlphabet (d : Draft) : Except Inconsistency (List String × Bool) :=
  match d.vars.find? "lang" with
  | none => .ok (d.uses.keys, false)
  | some (.literal text) => .error (.alphabetNotArray text)
  | some (.array alphabet) =>
    match d.uses.entries.find? fun use => use.1 ∉ alphabet with
    | some (symbol, state) => .error (.illegalToken symbol state alphabet)
    | none => .ok (firstOccurrences alphabet, true)

/-- The first destination of a set that is a name and not a drafted state. -/
def undefined? (d : Draft) (destinations : Destinations) : Option String :=
  destinations.keys.findSome? fun
    | .named name => if name ∈ d.states then none else some name
    | .sentinel _ => none

/-- Checks that every destination is drafted. -/
def checkReferences (d : Draft) : Except Inconsistency Unit :=
  let found := d.states.entries.findSome? fun s =>
    s.2.entries.findSome? fun t =>
      (d.undefined? t.2).map fun name => Inconsistency.undefinedDestination s.1 name t.1
  match found with
  | some e => .error e
  | none => .ok ()

/-- The start state: a literal that names a drafted state. -/
def resolveStart (d : Draft) : Except Inconsistency String :=
  match d.vars.find? "start" with
  | none => .error .noStart
  | some (.array _) => .error .startIsArray
  | some (.literal state) =>
    if isReserved state then .error .reservedStart
    else if state ∈ d.states then .ok state
    else .error (.undefinedStart state)

/-- Why a text in the array of accept states is not one. -/
def acceptFault? (d : Draft) (state : String) : Option Inconsistency :=
  if isReserved state then some .reservedAccept
  else if state ∈ d.states then none
  else some (.undefinedAccept state)

/-- The accept states: a non-empty array of drafted states, repetitions dropped. -/
def resolveAccept (d : Draft) : Except Inconsistency (List String) :=
  match d.vars.find? "accept" with
  | none => .error .noAccept
  | some (.literal text) => .error (.acceptNotArray text)
  | some (.array items) =>
    if items.isEmpty then .error .emptyAccept
    else
      match items.findSome? d.acceptFault? with
      | some e => .error e
      | none => .ok (firstOccurrences items)

/-- The mode: deterministic unless the assignment says otherwise. -/
def resolveMode (d : Draft) : Except Inconsistency Mode :=
  match d.vars.find? "mode" with
  | none => .ok .dfa
  | some (.literal text) =>
    match Mode.ofText? text with
    | some mode => .ok mode
    | none => .error (.invalidMode (.literal text))
  | some (.array items) => .error (.invalidMode (.array items))

/-! ### Validation -/

/-- The program a draft describes, or the first violation. -/
def validate (d : Draft) : Except Inconsistency Program := do
  let (alphabet, declared) ← d.resolveAlphabet
  d.checkReferences
  let start ← d.resolveStart
  let accept ← d.resolveAccept
  let mode ← d.resolveMode
  let p : Program :=
    { alphabet, states := d.states, start, accept, mode, commands := d.commands, vars := d.vars,
      declaresAlphabet := declared }
  match p.flaw? with
  | some flaw => throw (.flawed flaw)
  | none => return p

end Draft

end FiniteAutomata
