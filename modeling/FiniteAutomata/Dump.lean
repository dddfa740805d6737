import FiniteAutomata.Datum
import FiniteAutomata.Program

/-! # Programs as data

A program as one object: mode, alphabet, start, accept states, the tables, the commands as they are
written, and the assignments. Sentinels stand under their spelling; where a name has the same
spelling the later one takes the value and the earlier one the place. -/

namespace FiniteAutomata.Program

/-- An object from fields of which later ones replace earlier ones of the same name. -/
def objectOf (fields : List (String × Datum)) : Datum :=
  .object (fields.foldl (fun acc e => Entries.put e.1 e.2 acc) [])

/-- A list of texts as data. -/
def textsDatum (items : List String) : Datum := .list (items.map .text)

/-- A destination set as data. -/
def destinationsDatum (d : Destinations) : Datum :=
  objectOf (d.entries.map fun e => (e.1.lexeme, .float e.2))

/-- The table of a state as data. -/
def tableDatum (t : Table) : Datum :=
  objectOf (t.entries.map fun e => (e.1.lexeme, destinationsDatum e.2))

/-- The value of an assignment as data. -/
def settingDatum : Setting → Datum
  | .literal text => .text text
  | .array items => textsDatum items

/-- A program as data. -/
def toDatum (p : Program) : Datum :=
  .object
    [("mode", .text p.mode.text), ("alphabet", textsDatum p.alphabet), ("start", .text p.start),
     ("accept", textsDatum p.accept),
     ("states", .object (p.states.entries.map fun e => (e.1, tableDatum e.2))),
     ("commands",
       .object (p.commands.entries.map fun e => (e.1, textsDatum (e.2.map Command.text)))),
     ("vars", .object (p.vars.entries.map fun e => (e.1, settingDatum e.2)))]

end FiniteAutomata.Program
