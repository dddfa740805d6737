import FiniteAutomata.Listing.Destination
import FiniteAutomata.Text.Word

/-! # Listings: reading

A listing is read line by line. Lines before the first state header are assignments `key = value`;
a line `name:` opens the block of a state, which lasts to the next header; in a block a line is a
command `$name(arg, ...)` or a transition, token and destinations with a tab between them. Blank
lines and lines that start with `#` are passed over.

A reader holds what the lines so far have built. A line changes it by a handler, which checks the
line and updates the reader as it goes, and fails with the first thing that is wrong; the equations
of the handlers say what is left of the reader then. Reading may go on with another text, whatever
became of the one before. -/

namespace FiniteAutomata.Listing

open Text

/-- Which lines are expected: assignments, or the lines of a block. -/
inductive Phase where
  | general
  | state
deriving DecidableEq, Repr, Inhabited

/-- The draft built so far, which lines are expected, and the state whose block is open. -/
structure Reader where
  draft : Draft := {}
  phase : Phase := .general
  block : Option String := none
deriving DecidableEq, Inhabited

/-! ### Kinds of lines -/

/-- A trimmed line: nothing to read, a state header with the name before its colon, or something
whose meaning depends on the block it stands in. -/
inductive Line where
  | skipped
  | header (name : List Char)
  | content (text : List Char)
deriving DecidableEq, Repr

/-- Whether a trimmed line is a state header: it ends in its only colon and holds no tab. -/
def isHeader (line : List Char) : Bool :=
  line.getLast? = some ':' && line.count ':' = 1 && ! line.contains '\t'

/-- The kind of a trimmed line. -/
def Line.ofTrimmed (line : List Char) : Line :=
  if line.isEmpty || line.head? = some '#' then .skipped
  else if isHeader line then .header (trim line.dropLast)
  else .content line

/-! ### Assignments -/

/-- The items of an array that starts with a bracket; only blanks may follow the closing one. -/
def readArray (body : List Char) : Except Fault (List String) :=
  match splitFirst? ']' body with
  | none => .error .unclosedArray
  | some (items, rest) =>
    if (trim rest).isEmpty then .ok ((commaItems items).map String.ofList)
    else .error .textAfterArray

/-- The value of an assignment: an array if it starts with a bracket, else the text itself. -/
def readSetting (value : List Char) : Except Fault Setting :=
  match value with
  | '[' :: body => (readArray body).map .array
  | _ => .ok (.literal (String.ofList value))

/-- The key and the value of an assignment. -/
def readAssignment (line : List Char) : Except Fault (String × Setting) :=
  match splitFirst? '=' line with
  | none => .error .expectedAssignment
  | some (key, value) =>
    let key := trim key
    let value := trim value
    if key.isEmpty then .error .namelessVariable
    else if value.isEmpty then .error (.missingValue (String.ofList key))
    else (readSetting value).map fun s => (String.ofList key, s)

/-! ### Lines of a block -/

/-- A command: a dollar sign, a word, and possibly arguments in parentheses up to the end of the
line. -/
def readCommand? (line : List Char) : Option Command :=
  match line with
  | '$' :: rest =>
    let name := rest.takeWhile isWord
    if name.isEmpty then none
    else
      match (rest.dropWhile isWord).dropWhile isBlank with
      | [] => some ⟨String.ofList name, []⟩
      | '(' :: body =>
        if body.getLast? = some ')' then
          some ⟨String.ofList name, (commaItems body.dropLast).map String.ofList⟩
        else none
      | _ => none
  | _ => none

/-- Adds the transition that a line describes to the table of its state. The line is trimmed on the
left only, so that a token followed by a tab and nothing else is seen to lack its destination. -/
def readTransition (state : String) (table : Table) (line : List Char) : Except Fault Table :=
  match splitFirst? '\t' line with
  | none => .error (.expectedTransition state)
  | some (left, right) =>
    let token := String.ofList (trim left)
    let right := trim right
    if right.contains '\t' then .error .severalTabs
    else if (trim left).isEmpty then .error .missingToken
    else if right.isEmpty then .error .missingDestination
    else if Ref.ofLexeme token ∈ table then .error (.tokenCollision token state)
    else (readDestinations right).map (table.insert (.ofLexeme token))

/-! ### Updates of a reader -/

namespace Reader

/-- The state to which the lines of a block belong. A block is open under the name of its state. -/
def current (r : Reader) : String := r.block.getD ""

/-- The reader with another value of a variable. -/
def withVar (r : Reader) (key : String) (value : Setting) : Reader :=
  { r with draft := { r.draft with vars := r.draft.vars.insert key value } }

/-- The reader with another table of a state. -/
def withTable (r : Reader) (state : String) (table : Table) : Reader :=
  { r with draft := { r.draft with states := r.draft.states.insert state table } }

/-- The reader with one more command of a state. -/
def addCommand (r : Reader) (state : String) (c : Command) : Reader :=
  let before := (r.draft.commands.find? state).getD []
  { r with draft := { r.draft with commands := r.draft.commands.insert state (before ++ [c]) } }

/-- The reader with the block of a new state open. -/
def opened (r : Reader) (state : String) : Reader :=
  { r.withTable state ∅ with phase := .state, block := some state }

@[simp] theorem states_opened (r : Reader) (state : String) :
    (r.opened state).draft.states = r.draft.states.insert state ∅ := rfl

end Reader

/-! ### Handlers -/

/-- What handling a line does: it may update the reader, and it may fail. -/
abbrev Handler := EStateM Fault Reader Unit

namespace Handler

/-- Opens the block of a new state. -/
def openState (name : List Char) : Handler := do
  let state := String.ofList name
  let r ← get
  if name.isEmpty then throw .namelessState
  else if isReserved state then throw (.reservedState state)
  else if state ∈ r.draft.states then throw (.repeatedState state)
  else
    modify fun r => r.withTable state ∅
    modify fun r => { r with phase := .state }
    modify fun r => { r with block := some state }

/-- Reads an assignment. -/
def assign (line : List Char) : Handler := do
  let (key, value) ← MonadExcept.ofExcept (readAssignment line)
  modify fun r => r.withVar key value

/-- Reads a command of the open block. -/
def command (line : List Char) : Handler := do
  match readCommand? line with
  | none => throw .malformedCommand
  | some c => modify fun r => r.addCommand r.current c

/-- Reads a transition of the open block. -/
def transition (leftTrimmed : List Char) : Handler := do
  let r ← get
  let before := (r.draft.states.find? r.current).getD ∅
  let table ← MonadExcept.ofExcept (readTransition r.current before leftTrimmed)
  modify fun r => r.withTable r.current table

/-- Reads a line of the open block: trimmed, and trimmed on the left only. -/
def blockLine (line leftTrimmed : List Char) : Handler :=
  if line.head? = some '$' then command line else transition leftTrimmed

/-- Reads one line. -/
def line (raw : List Char) : Handler := do
  match Line.ofTrimmed (trim raw) with
  | .skipped => return
  | .header name => openState name
  | .content text =>
    match (← get).phase with
    | .general => assign text
    | .state => blockLine text (trimLeft raw)

/-! What handlers do to a reader: a handler that fails has not come to its updates. -/

variable (r : Reader)

theorem openState_eq (name : List Char) : openState name r =
    if name.isEmpty then .error .namelessState r
    else if isReserved (String.ofList name) then .error (.reservedState (String.ofList name)) r
    else if String.ofList name ∈ r.draft.states then
      .error (.repeatedState (String.ofList name)) r
    else .ok () (r.opened (String.ofList name)) := by
  change (if _ then _ else _ : Handler) r = _
  by_cases hempty : name.isEmpty
  · rw [if_pos hempty, if_pos hempty]
    rfl
  by_cases hreserved : isReserved (String.ofList name)
  · rw [if_neg hempty, if_neg hempty, if_pos hreserved, if_pos hreserved]
    rfl
  by_cases hknown : String.ofList name ∈ r.draft.states
  · rw [if_neg hempty, if_neg hempty, if_neg hreserved, if_neg hreserved, if_pos hknown,
      if_pos hknown]
    rfl
  · rw [if_neg hempty, if_neg hempty, if_neg hreserved, if_neg hreserved, if_neg hknown,
      if_neg hknown]
    rfl

theorem assign_eq (line : List Char) : assign line r =
    match readAssignment line with
    | .error fault => .error fault r
    | .ok (key, value) => .ok () (r.withVar key value) := by
  unfold assign
  cases readAssignment line <;> rfl

theorem command_eq (line : List Char) : command line r =
    match readCommand? line with
    | none => .error .malformedCommand r
    | some c => .ok () (r.addCommand r.current c) := by
  unfold command
  cases readCommand? line <;> rfl

theorem transition_eq (leftTrimmed : List Char) : transition leftTrimmed r =
    match readTransition r.current ((r.draft.states.find? r.current).getD ∅) leftTrimmed with
    | .error fault => .error fault r
    | .ok table => .ok () (r.withTable r.current table) := by
  change (MonadExcept.ofExcept _ >>= _ : Handler) r = _
  cases readTransition r.current ((r.draft.states.find? r.current).getD ∅) leftTrimmed <;> rfl

theorem line_eq (raw : List Char) : line raw r =
    match Line.ofTrimmed (trim raw), r.phase with
    | .skipped, _ => .ok () r
    | .header name, _ => openState name r
    | .content text, .general => assign text r
    | .content text, .state => blockLine text (trimLeft raw) r := by
  unfold line
  cases Line.ofTrimmed (trim raw) with
  | skipped => rfl
  | header name => rfl
  | content text =>
    change (match r.phase with
      | .general => assign text
      | .state => blockLine text _ : Handler) r = _
    cases r.phase <;> rfl

end Handler

/-! ### The reader -/

namespace Reader

/-- Reads one line, with the reader after it unless it fails. -/
def line (r : Reader) (raw : List Char) : Except Fault Reader :=
  match Handler.line raw r with
  | .ok _ next => .ok next
  | .error fault _ => .error fault

/-- Reads lines up to the first malformed one; the number is that of the first line. -/
def lines (r : Reader) (number : Nat) : List (List Char) → Reader × Option LineError
  | [] => (r, none)
  | raw :: rest =>
    match Handler.line raw r with
    | .ok _ next => next.lines (number + 1) rest
    | .error fault after => (after, some ⟨number, String.ofList (trim raw), fault⟩)

/-- Reads a text on top of what was read before, and validates the result. -/
def parse (r : Reader) (text : String) : Reader × Except Error Program :=
  match r.lines 1 (Text.lines text.toList) with
  | (after, some e) => (after, .error (.line e))
  | (after, none) => (after, after.draft.validate.mapError .inconsistent)

end Reader

/-- The program that a listing describes. -/
def parse (text : String) : Except Error Program := (Reader.parse {} text).2

end FiniteAutomata.Listing
