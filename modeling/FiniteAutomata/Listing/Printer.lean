import FiniteAutomata.Decimal.Numeral
import FiniteAutomata.Program

/-! # Listings: printing

A program is printed as a listing: first the assignments, then the block of each state with its
commands and its transitions. What the assignments leave open and a reader would not assume anyway
is added to them: a declared alphabet, start, accept states, and a mode other than the default. -/

namespace FiniteAutomata.Listing

/-- An assignment of an array. -/
def printArray (key : String) (items : List String) : String :=
  key ++ " = [" ++ String.intercalate ", " items ++ "]"

/-- An assignment of a literal. -/
def printLiteral (key value : String) : String := key ++ " = " ++ value

/-- An assignment. -/
def printSetting (key : String) : Setting → String
  | .literal text => printLiteral key text
  | .array items => printArray key items

/-- An item of a destination list from its name and the text of its weight, which is left out if the
weight is one. -/
def printItem (destination : Ref) (weight : Option String) : String :=
  match weight with
  | none => destination.lexeme
  | some text => text ++ "-" ++ destination.lexeme

/-- A destination list: the name alone if there is only one item and its weight is one. -/
def printItems : List (Ref × Option String) → String
  | [(destination, none)] => destination.lexeme
  | items => "[" ++ String.intercalate ", " (items.map fun e => printItem e.1 e.2) ++ "]"

/-- The text of a weight other than one. -/
def weightText? (weight : Float) : Option String :=
  if weight == 1 then none else some (Decimal.writeCompact weight)

/-- A destination set. -/
def printDestinations (d : Destinations) : String :=
  printItems (d.entries.map fun e => (e.1, weightText? e.2))

/-- A transition, without the tab in front of it. -/
def printTransition (token : Token) (d : Destinations) : String :=
  token.lexeme ++ "\t" ++ printDestinations d

/-- The assignments of a program, with those added that a reader needs. -/
def printVars (p : Program) : List String :=
  p.vars.entries.map (fun e => printSetting e.1 e.2) ++
    (if p.declaresAlphabet && "lang" ∉ p.vars then [printArray "lang" p.alphabet] else []) ++
    (if "start" ∉ p.vars then [printLiteral "start" p.start] else []) ++
    (if "accept" ∉ p.vars then [printArray "accept" p.accept] else []) ++
    (if "mode" ∉ p.vars && p.mode ≠ .dfa then [printLiteral "mode" p.mode.text] else [])

/-- The block of a state. -/
def printBlock (p : Program) (state : String) (table : Table) : List String :=
  (state ++ ":") ::
    (p.commandsAt (.named state)).map (fun c => "\t" ++ c.text) ++
    table.entries.map (fun e => "\t" ++ printTransition e.1 e.2)

/-- The lines of the listing of a program. -/
def printLines (p : Program) : List String :=
  printVars p ++ p.states.entries.flatMap fun e => printBlock p e.1 e.2

/-- The listing of a program; a line feed ends every line. -/
def print (p : Program) : String := String.intercalate "\n" (printLines p) ++ "\n"

end FiniteAutomata.Listing
