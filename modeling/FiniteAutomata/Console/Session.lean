import FiniteAutomata.Console.Ending
import FiniteAutomata.Console.Reader
import FiniteAutomata.Files.Tree
import FiniteAutomata.Journal.Note
import FiniteAutomata.Json.Writer
import FiniteAutomata.Listing.Printer
import FiniteAutomata.Random.Twister
import FiniteAutomata.Report

/-! # Sessions

A session carries out a command line: it reads the options and the program, dumps or prints the
program if told to, runs it, and reports. What a session finds around it is given to it, and what it
does is its result; nothing else happens. -/

namespace FiniteAutomata.Console

/-- What a session finds around it: the directory it is in and its home, the files, the width of the
terminal, how many prompts will be answered, and a seed for when none is asked for. -/
structure Surroundings where
  directory : String
  home : String
  files : Files.Tree := {}
  columns : Nat := 80
  prompts : Option Nat := none
  chance : Int := 0

namespace Surroundings

/-- The place of the directory that a session is in. -/
def place (w : Surroundings) : Files.Place := (Path.ofText w.directory).parts

/-- What stands at a path. -/
def look (w : Surroundings) (path : String) : Files.Found := w.files.look w.place (.ofText path)

/-- The width of the terminal; one without a width counts as usual. -/
def width (w : Surroundings) : Nat := if w.columns = 0 then 80 else w.columns

end Surroundings

/-- A file that a session writes, by its path and its place. -/
structure Written where
  path : String
  place : Files.Place
  text : String
deriving DecidableEq, Repr

/-- The file that keeps the journal: its path, its place, and the level from which on it keeps
entries. -/
structure JournalFile where
  path : String
  place : Files.Place
  level : Journal.Level
deriving DecidableEq, Repr

/-- What a session does: the lines it writes, those on errors, the file it writes, its journal with
the level that the console shows and the file that keeps it, and its end. -/
structure Session where
  lines : List String := []
  errors : List String := []
  written : Option Written := none
  notes : List Journal.Note := []
  level : Journal.Level := .warning
  journalFile : Option JournalFile := none
  ending : Ending := .exit 0

namespace Session

/-- The session after more notes. -/
def note (s : Session) (notes : List Journal.Note) : Session := { s with notes := s.notes ++ notes }

/-- The session after more lines. -/
def print (s : Session) (lines : List String) : Session := { s with lines := s.lines ++ lines }

/-- The session ended by an error that is reported. -/
def fail (s : Session) (report : String) : Session :=
  { s with errors := s.errors ++ ["error: " ++ report], ending := .exit 1 }

/-- The session ended by a wrong command line. -/
def refuse (s : Session) (m : Misuse) : Session :=
  { s with errors := s.errors ++ [usage, "fsalang: error: " ++ m.message], ending := .exit 2 }

/-- The session ended without an error. -/
def finish (s : Session) : Session := { s with ending := .exit 0 }

/-- The session broken down. -/
def breakDown (s : Session) (b : Breakdown) : Session := { s with ending := .broken b }

/-- The journal as the console shows it. -/
def consoleEntries (s : Session) : List Journal.Entry :=
  Journal.shown s.level (s.notes.map Journal.Note.entry)

/-- The journal as the file keeps it. -/
def fileEntries (s : Session) : Option (List Journal.Entry) :=
  s.journalFile.map fun file => Journal.shown file.level (s.notes.map Journal.Note.entry)

end Session

/-- A value that is given and not empty. -/
def nonEmpty (value : Option String) : Option String := value.filter (! ·.isEmpty)

/-! ### Options -/

/-- The usual places of a settings file. -/
def settingsPlaces (w : Surroundings) : List String :=
  [((Path.ofText w.directory).below (.ofText "fsalang.yaml")).text,
   ((Path.ofText w.home).below (.ofText ".config/fsalang/config.yaml")).text]

/-- The first of the usual places where something stands. -/
def findSettings (w : Surroundings) : Option String :=
  (settingsPlaces w).find? fun path => (w.look path).isThere

/-- The settings file to load: the one asked for, or the one that is found. -/
def settingsPath (w : Surroundings) (asked : Option String) : Option String :=
  match asked with
  | some path => some (Path.ofText path).text
  | none => findSettings w

/-- The options of the settings file asked for or found; without one, the defaults. -/
def loadSettings (w : Surroundings) (asked : Option String) : Except Options.Error Options :=
  match settingsPath w asked with
  | none => .ok {}
  | some path => do
    let content ← ((w.look path).content? path).mapError .unreadable
    Options.load path content

/-- The options that a command line sets itself; an option left bare has an empty value. -/
def Arguments.overrides (a : Arguments) : List (String × Datum) :=
  let flag (set : Bool) : Datum := if set then .bool true else .null
  let int (n : Given Int) : Datum :=
    match n with
    | .absent => .null
    | .bare => .list []
    | .value n => .int n
  [("ignore_lang_check", flag (nonEmpty a.loadJson).isSome), ("quiet", flag a.quiet),
   ("extra_quiet", flag a.extraQuiet), ("term_on_accept", flag a.stopOnAccept),
   ("auto_null", flag a.autoNull), ("max_steps", int a.maxSteps), ("seed", int a.seed)]

/-- The options of a session. -/
def sessionOptions (w : Surroundings) (a : Arguments) : Except Options.Error Options := do
  let o ← loadSettings w a.config.value?
  o.override a.overrides

/-- The notes on loading settings. -/
def settingsNotes (w : Surroundings) (asked : Option String) : List Journal.Note :=
  match settingsPath w asked, loadSettings w asked with
  | some path, .ok _ => [.settingsLoaded path]
  | _, _ => []

/-! ### The program -/

/-- Where the program of a session comes from: a diagram or a listing. -/
inductive Source where
  | diagram (path : String)
  | listing (path : String)
deriving DecidableEq, Repr

/-- The path of a source as it was given. -/
def Source.path : Source → String
  | .diagram path => path
  | .listing path => path

/-- The source that a command line names; a diagram comes before a listing. -/
def Arguments.source? (a : Arguments) : Option Source :=
  match nonEmpty a.loadJson, nonEmpty a.file with
  | some path, _ => some (.diagram path)
  | none, some path => some (.listing path)
  | none, none => none

/-- The program of a source. -/
def Source.load (s : Source) (w : Surroundings) (a : Arguments) : Except LoadError Program := do
  let path := (Path.ofText s.path).text
  let content ← ((w.look path).content? path).mapError .unreadable
  match s with
  | .diagram _ => Diagram.load path content a.startState.value? .dfa
  | .listing _ => Listing.load path content

/-- The diagram of a source, if it is one that can be drafted with no start state asked for. -/
def Source.drafted? (s : Source) (w : Surroundings) : Option Diagram :=
  let path := (Path.ofText s.path).text
  match s, w.look path with
  | .diagram _, .file content =>
    match (Diagram.fileDatum path content).toOption.bind fun d => (Diagram.ofDatum d).toOption with
    | some d => if (d.toDraft none .dfa).toOption.isSome then some d else none
    | none => none
  | _, _ => none

/-- The notes on loading a source. -/
def Source.notes (s : Source) (w : Surroundings) (a : Arguments) : List Journal.Note :=
  let path := (Path.ofText s.path).text
  let found := w.look path
  let content := ((found.content? path).toOption).getD none
  match s with
  | .diagram _ =>
    match Diagram.fileDatum path content with
    | .ok datum => Journal.recordNotes datum a.startState.value? .dfa
    | .error _ => []
  | .listing _ =>
    (if found.isThere then [.fileRead path] else []) ++
      match Listing.fileText path content with
      | .ok text => Journal.listingNotes {} text
      | .error _ => []

/-- The session after its program could not be loaded. -/
def Session.loadFailed (s : Session) (source : Source) (e : LoadError) : Session :=
  match Breakdown.ofLoading? e with
  | some b => s.breakDown b
  | none =>
    match e with
    | .notFound _ => (s.note [.fileMissing e.message]).fail e.message
    | _ =>
      (s.note [.loadFailed source.path e]).fail
        ("Encountered error loading \"" ++ source.path ++ "\": " ++ e.message)

/-! ### Printing and running -/

/-- The dump of a program. -/
def dumpLines (p : Program) : List String :=
  ["----- [AST] -----", Json.writeIndented p.toDatum, "----- [END AST] -----"]

/-- The session after the program is printed to a file, whose directory has to exist. -/
def Session.printProgram (s : Session) (w : Surroundings) (p : Program) (target : String) :
    Session :=
  let path := Path.ofText target
  match w.files.target w.place path with
  | .ok place =>
    let s := { s with written := some ⟨path.text, place, Listing.print p⟩ }
    ((s.note [.programPrinted path.text p]).print ["Printed automaton to: " ++ path.text]).finish
  | .error (.missing path) =>
    let report := (Files.Fault.missing path).message
    (s.note [.fileMissing report]).fail report
  | .error e => s.breakDown (.badPath e)

/-- The input that a command line gives: a token for each character, or one for each non-empty piece
between delimiters; an option left bare gives an empty input, which cannot be split. -/
def Arguments.input (a : Arguments) : Except Breakdown (Option (List Token)) :=
  match a.string, nonEmpty a.delimiter with
  | .absent, _ => .ok none
  | .bare, none => .ok (some [])
  | .bare, some _ => .error (.bare .string)
  | .value text, none => .ok (some (tokensOfText text))
  | .value text, some delimiter =>
    let pieces := Text.splitOnText delimiter.toList text.toList
    .ok (some (tokensOfLexemes ((pieces.filter (! ·.isEmpty)).map String.ofList)))

/-- The simulator of a session. -/
def simulatorFor (w : Surroundings) (p : Program) (o : Options) : Simulator :=
  { program := p, options := o, prompts := w.prompts
    draw := (Random.statesOf (o.seed.getD w.chance) o.maxSteps).draw }

/-- The session after the program is run on an input and its answers are reported. -/
def Session.runProgram (s : Session) (w : Surroundings) (a : Arguments) (p : Program)
    (o : Options) (input : Option (List Token)) : Session :=
  let r := (simulatorFor w p o).run input
  let s := (s.note (Journal.runNotes p input r)).print r.meter.lines
  match r.stop with
  | none =>
    let traced := ! o.quiet && p.mode = .dfa
    let trace :=
      if traced then (r.branches[0]?.map fun b => Report.traceLines b.path).getD [] else []
    (s.print (trace ++ Report.answerLines r.answers w.width)).finish
  | some e =>
    match Breakdown.ofStop? e with
    | some b => s.breakDown b
    | none =>
      (if a.debug then s.note [.runFailed e] else s).fail
        ("Interpreter error occurred: " ++ e.message)

/-- The session after all that is asked for is done with a program. -/
def Session.useProgram (s : Session) (w : Surroundings) (a : Arguments) (o : Options)
    (loaded : Program) : Session :=
  let p := (a.forceMode.map loaded.withMode).getD loaded
  let s := s.note (a.forceMode.map Journal.Note.modeForced).toList
  let s := if a.dumpAst then s.print (dumpLines p) else s
  match nonEmpty a.prettyPrint with
  | some target => s.printProgram w p target
  | none =>
    match a.input with
    | .ok input => s.runProgram w a p o input
    | .error b => s.breakDown b

/-! ### Whole sessions -/

/-- The level from which on the console shows entries. -/
def Arguments.consoleLevel (a : Arguments) : Except Breakdown Journal.Level :=
  if a.debug then .ok .debug
  else
    match a.logLevel with
    | .absent => .ok .warning
    | .bare => .error (.bare .logLevel)
    | .value level => .ok level

/-- The session before anything is done, and its surroundings, with the journal opened. The file of
the journal keeps all entries if its directory is named. -/
def openJournal (w : Surroundings) (a : Arguments) : Except Breakdown (Session × Surroundings) := do
  let level ← a.consoleLevel
  match a.logDir with
  | .absent => return ({ level }, w)
  | .bare => throw (.bare .logDir)
  | .value text =>
    let directory := Path.ofText text
    let path := directory.below (.ofText "fsalang.log")
    let place := Files.placeOf w.place path
    let files ← (w.files.withDirectory w.place directory).mapError .badPath
    let files ← (files.withFile place).mapError .badPath
    let journalFile : JournalFile :=
      { path := path.text, place, level := if text.isEmpty then level else .debug }
    return ({ level, journalFile }, { w with files })

/-- The session after a program is loaded from a source and all that is asked is done with it. -/
def Session.useSource (s : Session) (w : Surroundings) (a : Arguments) (o : Options)
    (source : Source) : Session :=
  match a.startState, source.drafted? w with
  | .bare, some d => (s.note (Journal.linkNotes d)).breakDown (.bare .startState)
  | _, _ =>
    let s := s.note (source.notes w a)
    match source.load w a with
    | .error e => s.loadFailed source e
    | .ok p => s.useProgram w a o p

/-- The session after its options are set and all that is asked for is done with a source. -/
def Session.useSettings (s : Session) (w : Surroundings) (a : Arguments) (source : Source) :
    Session :=
  let asked := a.config.value?
  let s := s.note (settingsNotes w asked)
  match sessionOptions w a with
  | .ok o => s.useSource w a o source
  | .error e =>
    match Breakdown.ofSettings? e with
    | some b => s.breakDown b
    | none => (s.note [.settingsFailed asked e]).fail ("Invalid configuration: " ++ e.message)

/-- The session of arguments that were understood. -/
def carryOut (w : Surroundings) (a : Arguments) : Session :=
  match openJournal w a with
  | .error b => Session.breakDown {} b
  | .ok (s, w) =>
    match a.source?, a.config with
    | none, _ => s.refuse .noAutomaton
    | some _, .bare => s.breakDown (.bare .config)
    | some source, _ => s.useSettings w a source

/-- The session of a command line. -/
def session (w : Surroundings) (texts : List String) : Session :=
  match readArguments texts with
  | .error .help => { lines := help }
  | .error .version => { lines := versionLines w.width }
  | .error (.misuse m) => Session.refuse {} m
  | .ok a => carryOut w a

end FiniteAutomata.Console
