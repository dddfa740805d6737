import FiniteAutomata.Journal.Basic
import FiniteAutomata.Program
import FiniteAutomata.Text.Quoted

/-! # Arguments of the command line

The options that the command line knows, each with its names and whether it takes a value, what a
command line asks for, and what can be wrong with one. A separator in the place of a value leaves
the option bare. -/

namespace FiniteAutomata.Console

/-- An option of the command line. -/
inductive Switch where
  | help
  | inputFile
  | string
  | delimiter
  | loadJson
  | startState
  | forceMode
  | dumpAst
  | prettyPrint
  | quiet
  | extraQuiet
  | stopOnAccept
  | autoNull
  | maxSteps
  | seed
  | config
  | logLevel
  | logDir
  | debug
  | version
deriving DecidableEq, Repr

namespace Switch

/-- All options, in the order in which they are known. -/
def all : List Switch :=
  [.help, .inputFile, .string, .delimiter, .loadJson, .startState, .forceMode, .dumpAst,
   .prettyPrint, .quiet, .extraQuiet, .stopOnAccept, .autoNull, .maxSteps, .seed, .config,
   .logLevel, .logDir, .debug, .version]

/-- The names of an option. -/
def names : Switch → List String
  | .help => ["-h", "--help"]
  | .inputFile => ["-i"]
  | .string => ["-S", "--string"]
  | .delimiter => ["-d", "--delimiter"]
  | .loadJson => ["-J", "--load-json"]
  | .startState => ["--start"]
  | .forceMode => ["--force-mode"]
  | .dumpAst => ["--dump-ast"]
  | .prettyPrint => ["-pp", "--pretty-print"]
  | .quiet => ["-q", "--quiet"]
  | .extraQuiet => ["-qq", "--Quiet"]
  | .stopOnAccept => ["-Toa", "--term-on-accept"]
  | .autoNull => ["--auto-null"]
  | .maxSteps => ["--max-steps"]
  | .seed => ["--seed"]
  | .config => ["--config"]
  | .logLevel => ["--log-level"]
  | .logDir => ["--log-dir"]
  | .debug => ["--debug"]
  | .version => ["--version"]

/-- Whether an option takes a value. -/
def takesValue : Switch → Bool
  | .help | .dumpAst | .quiet | .extraQuiet | .stopOnAccept | .autoNull | .debug | .version => false
  | _ => true

/-- What an option does. -/
def purpose : Switch → String
  | .help => "show this help message and exit"
  | .inputFile => "Automaton source file (alternative to positional)"
  | .string => "Input string"
  | .delimiter => "Split the input string into multi-character tokens"
  | .loadJson => "Load the automaton from a state-diagram JSON export"
  | .startState => "Start state name (JSON import)"
  | .forceMode => "Override the program mode"
  | .dumpAst => "Print the parsed program as JSON"
  | .prettyPrint => "Write the program back out as DSL text and exit"
  | .quiet => "Suppress the step trace"
  | .extraQuiet => "Also suppress $log output"
  | .stopOnAccept => "Terminate a branch as soon as it reaches an accept state"
  | .autoNull => "Treat missing DFA transitions as transitions to null"
  | .maxSteps => "Step budget for the whole run"
  | .seed => "Seed for weighted transition choice"
  | .config => "YAML file with run options"
  | .logLevel => "Console log level"
  | .logDir => "Directory for rotating JSON logs"
  | .debug => "Verbose logging and tracebacks"
  | .version => "show program's version number and exit"

/-- An option under all its names. -/
def title (s : Switch) : String := String.intercalate "/" s.names

/-- Every name with its option. -/
def table : List (String × Switch) := all.flatMap fun s => s.names.map fun name => (name, s)

/-- The option with a name. -/
def ofName? (name : String) : Option Switch := table.lookup name

end Switch

/-- What is given for an option that takes a value: nothing, a separator alone, or a value. -/
inductive Given (α : Type) where
  | absent
  | bare
  | value (a : α)
deriving DecidableEq, Repr

/-- The value that is given, if there is one. -/
def Given.value? {α : Type} : Given α → Option α
  | .value a => some a
  | _ => none

/-- What a command line asks for. Where nothing tells a bare option from one that is not given,
neither has a value. -/
structure Arguments where
  file : Option String := none
  inputFile : Option String := none
  string : Given String := .absent
  delimiter : Option String := none
  loadJson : Option String := none
  startState : Given String := .absent
  forceMode : Option Mode := none
  dumpAst : Bool := false
  prettyPrint : Option String := none
  quiet : Bool := false
  extraQuiet : Bool := false
  stopOnAccept : Bool := false
  autoNull : Bool := false
  maxSteps : Given Int := .absent
  seed : Given Int := .absent
  config : Given String := .absent
  logLevel : Given Journal.Level := .absent
  logDir : Given String := .absent
  debug : Bool := false
deriving DecidableEq, Repr

/-- What is wrong with a command line. -/
inductive Misuse where
  | ambiguous (argument : String) (candidates : List String)
  | missingValue (s : Switch)
  | unwantedValue (s : Switch) (value : String)
  | notInt (s : Switch) (value : String)
  | notOneOf (s : Switch) (value : String) (choices : List String)
  | unrecognized (arguments : List String)
  | noAutomaton
deriving DecidableEq, Repr

/-- The report on an option. -/
def aboutSwitch (s : Switch) (text : String) : String := "argument " ++ s.title ++ ": " ++ text

/-- The text of the report on a command line. -/
def Misuse.message : Misuse → String
  | .ambiguous argument candidates =>
    s!"ambiguous option: {argument} could match " ++ String.intercalate ", " candidates
  | .missingValue s => aboutSwitch s "expected one argument"
  | .unwantedValue s value => aboutSwitch s ("ignored explicit argument " ++ Text.quote value)
  | .notInt s value => aboutSwitch s ("invalid int value: " ++ Text.quote value)
  | .notOneOf s value choices =>
    aboutSwitch s ("invalid choice: " ++ Text.quote value ++ " (choose from " ++
      String.intercalate ", " (choices.map Text.quote) ++ ")")
  | .unrecognized arguments => "unrecognized arguments: " ++ String.intercalate " " arguments
  | .noAutomaton => "an automaton file (or -J <graph>.json) is required"

/-- Why a command line is not carried out: it asks for help or for the version, or it is wrong. -/
inductive Refusal where
  | help
  | version
  | misuse (m : Misuse)
deriving DecidableEq, Repr

/-- How the program is called. -/
def usage : String := "usage: fsalang <automaton>.dfa -S <string> [options]"

/-- The words that tell the version of the program. -/
def versionWords : List String := ["fsalang", "1.0.0"]

/-- The version of the program at a terminal of a width: on one line if there is room for it beside
a margin of two. -/
def versionLines (columns : Nat) : List String :=
  let line := String.intercalate " " versionWords
  if columns - 2 < line.length then versionWords else [line]

/-- The help on the command line. -/
def help : List String :=
  [usage, "", "Run finite automata written in the fsalang DSL", "", "options:"] ++
    Switch.all.map fun s => "  " ++ String.intercalate ", " s.names ++ "  " ++ s.purpose

end FiniteAutomata.Console
