import FiniteAutomata.Datum
import FiniteAutomata.Dict

/-! # Checking data against an expected shape

A check gives a value of the expected type or all defects found, each with the path of field names
and indexes that leads to it. Checks of several parts are combined so that the defects of all parts
are kept, in the order of the parts. -/

namespace FiniteAutomata

/-- What is wrong with a value. -/
inductive Defect where
  | missing
  | notInt
  | notFloat
  | notBool
  | unreadableBool
  | unreadableInt
  | fractionalInt
  | infiniteInt
  | oversizedInt
  | notText
  | notList
  | notRecord (record : String)
  | notOneOf (choices : List String)
  | notPositive
  | unexpectedField
  | violates (rule : String)
deriving DecidableEq, Repr

/-- Alternatives in a message: quoted, the last one after an "or". -/
def orList : List String → String
  | [] => ""
  | [a] => s!"'{a}'"
  | [a, b] => s!"'{a}' or '{b}'"
  | a :: rest => s!"'{a}', " ++ orList rest

/-- The text of a defect. -/
def Defect.message : Defect → String
  | .missing => "Field required"
  | .notInt => "Input should be a valid integer"
  | .notFloat => "Input should be a valid number"
  | .notBool => "Input should be a valid boolean"
  | .unreadableBool => "Input should be a valid boolean, unable to interpret input"
  | .unreadableInt => "Input should be a valid integer, unable to parse string as an integer"
  | .fractionalInt => "Input should be a valid integer, got a number with a fractional part"
  | .infiniteInt => "Input should be a finite number"
  | .oversizedInt => "Unable to parse input string as an integer, exceeded maximum size"
  | .notText => "Input should be a valid string"
  | .notList => "Input should be a valid list"
  | .notRecord record => s!"Input should be a valid dictionary or instance of {record}"
  | .notOneOf choices => "Input should be " ++ orList choices
  | .notPositive => "Input should be greater than 0"
  | .unexpectedField => "Extra inputs are not permitted"
  | .violates rule => s!"Value error, {rule}"

/-- A step into a value. -/
inductive PathStep where
  | field (name : String)
  | index (n : Nat)
deriving DecidableEq, Repr

/-- A defect and the path to it. -/
structure Finding where
  path : List PathStep
  defect : Defect
deriving DecidableEq, Repr

/-- How many findings there are against a record. -/
def summary (record : String) (findings : List Finding) : String :=
  let n := findings.length
  let noun := if n = 1 then "error" else "errors"
  s!"{n} validation {noun} for {record}"

/-- A value, or all that is wrong with what it was to be made of. -/
abbrev Checked (α : Type) := Except (List Finding) α

namespace Checked

variable {α β : Type}

/-- A single defect at the value itself. -/
def defect (d : Defect) : Checked α := .error [⟨[], d⟩]

/-- Applies a checked function to a checked argument; the defects of both are kept. -/
def ap (f : Checked (α → β)) (x : Checked α) : Checked β :=
  match f, x with
  | .ok f, .ok a => .ok (f a)
  | .ok _, .error e => .error e
  | .error e, .ok _ => .error e
  | .error e, .error e' => .error (e ++ e')

/-- Places the findings of a part under a step. -/
def under (step : PathStep) (x : Checked α) : Checked α :=
  x.mapError fun findings => findings.map fun f => { f with path := step :: f.path }

/-- Checks the items of a list, numbered from `n` on. -/
def items (check : Datum → Checked α) : Nat → List Datum → Checked (List α)
  | _, [] => .ok []
  | n, d :: rest =>
    ap (((check d).under (.index n)).map List.cons) (items check (n + 1) rest)

/-- Checks the field of a record; `absent` is taken if there is none. -/
def fieldOr (absent : Checked α) (name : String) (check : Datum → Checked α)
    (fields : List (String × Datum)) : Checked α :=
  (match Entries.find? name fields with
    | some d => check d
    | none => absent).under (.field name)

/-- Checks a field that a record must have. -/
def field (name : String) (check : Datum → Checked α) (fields : List (String × Datum)) :
    Checked α :=
  fieldOr (defect .missing) name check fields

/-- Checks a record by its fields. -/
def record (name : String) (check : List (String × Datum) → Checked α) (d : Datum) : Checked α :=
  match d with
  | .object fields => check fields
  | _ => defect (.notRecord name)

/-- Checks a list by its items. -/
def list (check : Datum → Checked α) (d : Datum) : Checked (List α) :=
  match d with
  | .list ds => items check 0 ds
  | _ => defect .notList

/-! ### Values that have to be of a type already -/

/-- A text. -/
def text : Datum → Checked String
  | .text s => .ok s
  | _ => defect .notText

/-- A truth value. -/
def bool : Datum → Checked Bool
  | .bool b => .ok b
  | _ => defect .notBool

/-- An integer. -/
def int : Datum → Checked Int
  | .int n => .ok n
  | _ => defect .notInt

/-- An integer or nothing. -/
def int? : Datum → Checked (Option Int)
  | .null => .ok none
  | d => (int d).map some

/-- Any number; its value is of no interest. -/
def number : Datum → Checked Unit
  | .int _ => .ok ()
  | .float _ => .ok ()
  | _ => .error [⟨[.field "int"], .notInt⟩, ⟨[.field "float"], .notFloat⟩]

/-- Any number or nothing. -/
def number? : Datum → Checked Unit
  | .null => .ok ()
  | d => number d

end Checked

end FiniteAutomata
