/-! # Data

What a diagram, a settings file or a table of options holds before it is given a meaning: numbers,
texts, lists and objects of any depth. An object keeps its fields in order and may not hold a name
twice. -/

namespace FiniteAutomata

/-- A value of a data format. -/
inductive Datum where
  | null
  | bool (b : Bool)
  | int (n : Int)
  | float (x : Float)
  | text (s : String)
  | list (items : List Datum)
  | object (fields : List (String × Datum))
deriving Inhabited

namespace Datum

/-- The fields of an object. -/
def fields? : Datum → Option (List (String × Datum))
  | .object fields => some fields
  | _ => none

/-- The items of a list. -/
def items? : Datum → Option (List Datum)
  | .list items => some items
  | _ => none

/-- Whether a value counts as true: all do but nothing, false, zero and what is empty. -/
def isTruthy : Datum → Bool
  | .null => false
  | .bool b => b
  | .int n => n != 0
  | .float x => x != 0
  | .text s => ! s.isEmpty
  | .list items => ! items.isEmpty
  | .object fields => ! fields.isEmpty

end Datum

end FiniteAutomata
