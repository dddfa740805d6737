import FiniteAutomata.Datum

/-! # The journal

What happens is noted in a journal, each entry with a level, the part of the program it comes from,
the name of an event and fields. The journal takes the entries of the program and its parts, and
none of others. A console shows the entries from a level on; a file keeps all. -/

namespace FiniteAutomata.Journal

/-- How much an entry matters. -/
inductive Level where
  | debug
  | info
  | warning
  | error
  | critical
deriving DecidableEq, Repr

namespace Level

/-- The levels that can be asked for, from the least to the most important. -/
def choices : List Level := [.debug, .info, .warning, .error]

/-- The name of a level. -/
def text : Level → String
  | .debug => "debug"
  | .info => "info"
  | .warning => "warning"
  | .error => "error"
  | .critical => "critical"

/-- The name of a level as it is asked for. -/
def name : Level → String
  | .debug => "DEBUG"
  | .info => "INFO"
  | .warning => "WARNING"
  | .error => "ERROR"
  | .critical => "CRITICAL"

/-- The place of a level among all. -/
def rank : Level → Nat
  | .debug => 0
  | .info => 1
  | .warning => 2
  | .error => 3
  | .critical => 4

/-- The level that a name in upper-case letters asks for. -/
def ofName? (name : String) : Option Level := choices.find? (·.name = name)

/-- The words by which entries are noted, each with its level. -/
def words : List (String × Level) :=
  [("debug", .debug), ("info", .info), ("warning", .warning), ("warn", .warning),
   ("error", .error), ("exception", .error), ("critical", .critical), ("fatal", .critical)]

/-- The level at which a word notes an entry. -/
def ofWord? (word : String) : Option Level := words.lookup word

end Level

/-- An entry of the journal. -/
structure Entry where
  level : Level
  source : String
  event : String
  fields : List (String × Datum)

/-- The name of the program in the journal. -/
def program : String := "fsalang"

/-- Whether an entry comes from the program or a part of it. -/
def Entry.isOwn (e : Entry) : Bool :=
  e.source = program || (program ++ ".").toList.isPrefixOf e.source.toList

/-- The entries that matter at least as much as a level. -/
def shown (level : Level) (entries : List Entry) : List Entry :=
  entries.filter fun e => level.rank ≤ e.level.rank

/-- The report on a level that does not exist. -/
def unknownLevel (asked : String) : String :=
  s!"Unknown log level '{asked}'. Must be one of: " ++
    String.intercalate ", " (Level.choices.map Level.name)

/-- The names that have a meaning of their own in a file, so that fields of these names are not
kept. -/
def ownNames : List String :=
  ["event", "level", "logger", "timestamp", "exc_info"]

/-- An entry as an object of a file: its fields and then what every entry has. -/
def Entry.toDatum (e : Entry) : Datum :=
  .object (e.fields.filter (fun f => f.1 ∉ ownNames) ++
    [("event", .text e.event), ("level", .text e.level.text), ("logger", .text e.source)])

end FiniteAutomata.Journal
