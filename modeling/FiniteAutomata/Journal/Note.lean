import FiniteAutomata.Dump
import FiniteAutomata.Journal.Basic
import FiniteAutomata.Loading
import FiniteAutomata.Options.File
import FiniteAutomata.Simulator.Run

/-! # What is noted in the journal

The events worth noting when programs are read, imported and run, and the notes that each of these
leaves. Notes are a view of what was done: they are computed from its outcome. -/

namespace FiniteAutomata.Journal

/-- An event worth noting. -/
inductive Note where
  | fileRead (path : String)
  | variableReassigned (key : String) (line : Nat)
  | programValidated (p : Program)
  | programParsed (p : Program)
  | linkWithoutKey (link : Nat) (source destination : String)
  | diagramImported (nodes links : Nat) (start : String)
  | runStarted (p : Program) (input : Option (List Token))
  | stepTaken (e : Event)
  | branchSpawned (e : Event) (index : Nat)
  | runFinished (steps branches accepted : Nat)
  | settingsLoaded (path : String)
  | settingsFailed (asked : Option String) (e : Options.Error)
  | modeForced (mode : Mode)
  | programPrinted (path : String) (p : Program)
  | fileMissing (report : String)
  | loadFailed (source : String) (e : LoadError)
  | runFailed (e : Stop)

/-- The name of a kind of fault. -/
def faultName : LoadError.Kind → String
  | .missing => "FileNotFoundError"
  | .unreadable => "OSError"
  | .undecodable => "UnicodeDecodeError"
  | .malformedListing => "ParseError"
  | .malformedDiagram => "GraphImportError"
  | .beyond => "ValueError"
  | .inconsistent => "ValidationError"

/-- The name of a reason to stop. -/
def stopName : Stop → String
  | .missingInput => "MissingInput"
  | .unknownToken _ _ => "UnknownToken"
  | .undefinedTransition _ _ => "UndefinedTransition"
  | .unknownCommand _ => "UnknownCommand"
  | .stepLimit _ => "StepLimitExceeded"
  | .emptyChoice => "ValueError"
  | .inputEnded => "EOFError"

/-- The fields of an event of a run. -/
def eventFields (e : Event) : List (String × Datum) :=
  [("state", .text e.state.lexeme), ("token", .text e.token.lexeme),
   ("destination", .text e.destination.lexeme)]

/-- The number of things as data. -/
def count (n : Nat) : Datum := .int n

/-- The entry that notes an event. -/
def Note.entry : Note → Entry
  | .fileRead path => ⟨.debug, "fsalang.parser", "parsing_file", [("path", .text path)]⟩
  | .variableReassigned key line =>
    ⟨.debug, "fsalang.parser", "variable_reassigned", [("key", .text key), ("line", count line)]⟩
  | .programValidated p =>
    ⟨.debug, "fsalang.validator", "program_validated",
      [("states", count p.states.size), ("alphabet", Program.textsDatum p.alphabet),
       ("mode", .text p.mode.text)]⟩
  | .programParsed p =>
    ⟨.info, "fsalang.parser", "program_parsed",
      [("states", count p.states.size), ("mode", .text p.mode.text), ("start", .text p.start),
       ("accept", Program.textsDatum p.accept)]⟩
  | .linkWithoutKey link source destination =>
    ⟨.warning, "fsalang.graph_import", "link_without_key",
      [("link", count link), ("source", .text source), ("destination", .text destination)]⟩
  | .diagramImported nodes links start =>
    ⟨.info, "fsalang.graph_import", "graph_imported",
      [("nodes", count nodes), ("links", count links), ("start", .text start)]⟩
  | .runStarted p input =>
    ⟨.info, "fsalang.interpreter", "run_started",
      [("mode", .text p.mode.text), ("start", .text p.start),
       ("tokens", (input.map fun tokens => count tokens.length).getD .null)]⟩
  | .stepTaken e => ⟨.debug, "fsalang.interpreter", "step", eventFields e⟩
  | .branchSpawned e index =>
    ⟨.debug, "fsalang.interpreter", "branch_spawned", eventFields e ++ [("branch", count index)]⟩
  | .runFinished steps branches accepted =>
    ⟨.info, "fsalang.interpreter", "run_finished",
      [("steps", count steps), ("branches", count branches), ("accepted", count accepted)]⟩
  | .settingsLoaded path => ⟨.info, "fsalang.config", "config_loaded", [("path", .text path)]⟩
  | .settingsFailed asked e =>
    ⟨.error, "fsalang.cli", "config_failed",
      [("config", (asked.map Datum.text).getD .null), ("error", .text e.message)]⟩
  | .modeForced mode => ⟨.info, "fsalang.cli", "mode_forced", [("mode", .text mode.text)]⟩
  | .programPrinted path p =>
    ⟨.info, "fsalang.printer", "program_printed",
      [("path", .text path), ("states", count p.states.size)]⟩
  | .fileMissing report =>
    ⟨.error, "fsalang.cli", "file_not_found", [("error", .text report)]⟩
  | .loadFailed source e =>
    ⟨.error, "fsalang.cli", "load_failed",
      [("source", .text source), ("error_type", .text (faultName e.kind)),
       ("error", .text e.message)]⟩
  | .runFailed e =>
    ⟨.error, "fsalang.cli", "interpreter_error", [("error_type", .text (stopName e))]⟩

/-! ### Reading and importing -/

/-- The key of an assignment that replaces an earlier one, if a line is that. -/
def reassigned? (r : Listing.Reader) (raw : List Char) : Option String :=
  match r.phase, Listing.Line.ofTrimmed (Text.trim raw) with
  | .general, .content text =>
    match Listing.readAssignment text with
    | .ok (key, _) => if key ∈ r.draft.vars then some key else none
    | .error _ => none
  | _, _ => none

/-- The notes on lines, up to the first malformed one. -/
def lineNotes (r : Listing.Reader) (number : Nat) : List (List Char) → List Note
  | [] => []
  | raw :: rest =>
    match r.line raw with
    | .error _ => []
    | .ok next =>
      (match reassigned? r raw with
        | some key => [Note.variableReassigned key number]
        | none => []) ++ lineNotes next (number + 1) rest

/-- The notes on a text that a reader reads. -/
def listingNotes (r : Listing.Reader) (text : String) : List Note :=
  lineNotes r 1 (Text.lines text.toList) ++
    match (r.parse text).2 with
    | .ok p => [.programValidated p, .programParsed p]
    | .error _ => []

/-- The note on a draft. -/
def draftNotes (d : Draft) : List Note :=
  match d.validate with
  | .ok p => [.programValidated p]
  | .error _ => []

/-- The notes on arrows from an index on. -/
def arrowNotes (index : Nat) : List Diagram.Arrow → List Note
  | [] => []
  | .unlabelled source target :: rest =>
    .linkWithoutKey index source target :: arrowNotes (index + 1) rest
  | _ :: rest => arrowNotes (index + 1) rest

/-- The notes on the links of a diagram. -/
def linkNotes (d : Diagram) : List Note :=
  match d.names with
  | .ok names => arrowNotes 0 (Diagram.resolveFrom names 0 d.links).1
  | .error _ => []

/-- The notes on a diagram. -/
def diagramNotes (d : Diagram) (asked : Option String) (mode : Mode) : List Note :=
  linkNotes d ++
    match d.toProgram asked mode with
    | .ok p =>
      [.programValidated p, .diagramImported d.nodes.length d.links.length p.start]
    | .error _ => []

/-- The notes on a record of a diagram. -/
def recordNotes (datum : Datum) (asked : Option String) (mode : Mode) : List Note :=
  match Diagram.ofDatum datum with
  | .ok d => diagramNotes d asked mode
  | .error _ => []

/-! ### Running -/

/-- The note on a branch with an index, if an event started it. -/
def branchNote? (index : Nat) (b : Branch) : Option Note :=
  b.trail.head?.map fun e => .branchSpawned e index

/-- The notes on a run of a program on an input or on none. -/
def runNotes (p : Program) (input : Option (List Token)) (r : Run) : List Note :=
  let branches := r.branches.toList
  let events :=
    match p.mode with
    | .dfa => branches.flatMap fun b => b.path.map .stepTaken
    | .nfa => branches.zipIdx.filterMap fun (b, index) => branchNote? index b
  let finish : List Note :=
    match r.stop with
    | none =>
      [.runFinished r.meter.steps branches.length (branches.filter (·.accepted)).length]
    | some _ => []
  .runStarted p input :: events ++ finish

end FiniteAutomata.Journal
