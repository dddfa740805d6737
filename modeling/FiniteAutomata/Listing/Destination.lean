import FiniteAutomata.Decimal.Numeral
import FiniteAutomata.Listing.Fault
import FiniteAutomata.Program
import FiniteAutomata.Text.Basic

/-! # Listings: destination sets

The right side of a transition is one destination, or a bracketed list of items separated by
commas. An item is a name, of weight one, or a weight and a name with a hyphen between them. An
item that holds a hyphen has a weight: the hyphen that ends it is the first one that is not part of
an exponent, and the name after it may hold more. -/

namespace FiniteAutomata.Listing

open Text Decimal

/-- The weight and the name of a weighted item: an optional plus sign, a numeral, a hyphen that may
have blanks around it, and the name. -/
def splitWeighted? (item : List Char) : Option (Numeral × List Char) :=
  let unsigned :=
    match item with
    | '+' :: rest => rest
    | _ => item
  match takeNumeral? unsigned with
  | none => none
  | some (weight, rest) =>
    match rest.dropWhile isBlank with
    | '-' :: name => some (weight, trim name)
    | _ => none

/-- The destination and the weight that the item at a position of a list stands for. -/
def readItem (position : Nat) (item : List Char) : Except Fault (Ref × Float) :=
  if item.isEmpty then .error (.emptyDestination position)
  else if ! item.contains '-' then .ok (.ofLexeme (String.ofList item), 1)
  else
    match splitWeighted? item with
    | none => .error (.unreadableWeight (String.ofList item) position)
    | some (weight, name) =>
      if name.isEmpty then .error (.namelessDestination position)
      else if isWeight weight.toFloat then .ok (.ofLexeme (String.ofList name), weight.toFloat)
      else .error (.nonPositiveWeight position)

/-- Adds the items of a list from a position on to a destination set; no destination may come
twice. -/
def readItems (position : Nat) (acc : Destinations) : List (List Char) → Except Fault Destinations
  | [] => .ok acc
  | item :: rest => do
    let (destination, weight) ← readItem position item
    if destination ∈ acc then throw (.duplicateDestination destination.lexeme position)
    readItems (position + 1) (acc.insert destination weight) rest

/-- The destination set that the trimmed right side of a transition stands for. -/
def readDestinations (text : List Char) : Except Fault Destinations :=
  match text with
  | '[' :: body =>
    if body.getLast? = some ']' then
      let items := (splitOn ',' body.dropLast).map trim
      if items = [[]] then .error .noDestinations else readItems 1 ∅ items
    else .error .unclosedDestinations
  | _ => .ok ((∅ : Destinations).insert (.ofLexeme (String.ofList text)) 1)

end FiniteAutomata.Listing
