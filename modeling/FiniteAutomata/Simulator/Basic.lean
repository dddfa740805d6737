import FiniteAutomata.Branch
import FiniteAutomata.Choice
import FiniteAutomata.Options.Basic
import FiniteAutomata.Program

/-! # Simulators

A simulator is a program together with all that its runs depend on besides the input: the options, a
source of random draws, and how many prompts will be answered. What a run has used and shown so far
stands on its meter: steps, draws, prompts, and the lines it has written. -/

namespace FiniteAutomata

/-- A program and what its runs depend on. The draw with a given number is `draw` of the number;
`prompts` is how many prompts will be answered, none meaning all of them. -/
structure Simulator where
  program : Program
  options : Options := {}
  draw : Nat → Float := fun _ => 0
  prompts : Option Nat := none

/-- What a run shows: a line of text or a prompt that waits for an answer. -/
inductive Signal where
  | line (text : String)
  | prompt
deriving DecidableEq, Repr

/-- What a run has used and shown so far. -/
structure Meter where
  steps : Nat := 0
  draws : Nat := 0
  prompts : Nat := 0
  shown : Array Signal := #[]
deriving DecidableEq, Repr, Inhabited

/-- Why a run stops before its end. -/
inductive Stop where
  | missingInput
  | unknownToken (token : String) (alphabet : List String)
  | undefinedTransition (state : String) (token : Token)
  | unknownCommand (command : Command)
  | stepLimit (limit : Nat)
  | emptyChoice
  | inputEnded
deriving DecidableEq, Repr

/-- The text of the report on a stop. -/
def Stop.message : Stop → String
  | .missingInput => "No input string supplied (DFA mode requires one)"
  | .unknownToken token alphabet =>
    s!"Received token '{token}' which does not exist in language [" ++
      String.intercalate ", " alphabet ++ "]"
  | .undefinedTransition state token =>
    s!"No transition defined from state '{state}' on token '" ++ token.lexeme ++ "'"
  | .unknownCommand command =>
    "Unknown command \"" ++ command.name ++ "\" in \"" ++ command.text ++ "\""
  | .stepLimit limit => s!"Step limit of {limit} exceeded (runaway branching?)"
  | .emptyChoice => "Cannot choose from an empty destination set"
  | .inputEnded => "EOF when reading a line"

namespace Meter

/-- The meter after a signal. -/
def emit (m : Meter) (s : Signal) : Meter := { m with shown := m.shown.push s }

/-- The lines written so far. -/
def lines (m : Meter) : List String :=
  m.shown.toList.filterMap fun
    | .line text => some text
    | .prompt => none

end Meter

namespace Simulator

/-! ### Checks before a transition -/

/-- Counts a step, if the budget allows it. -/
def tick (s : Simulator) (m : Meter) : Except Stop Meter :=
  if s.options.maxSteps ≤ m.steps then .error (.stepLimit s.options.maxSteps)
  else .ok { m with steps := m.steps + 1 }

/-- Why a token cannot be consumed: it is a name outside of the alphabet, and that is checked. -/
def tokenFault? (s : Simulator) (token : Token) : Option Stop :=
  match token with
  | .sentinel _ => none
  | .named name =>
    if s.options.ignoreAlphabet || s.program.alphabet.contains name then none
    else some (.unknownToken name s.program.alphabet)

theorem tick_eq_ok_iff {s : Simulator} {m n : Meter} :
    s.tick m = .ok n ↔ m.steps < s.options.maxSteps ∧ n = { m with steps := m.steps + 1 } := by
  unfold tick
  by_cases h : s.options.maxSteps ≤ m.steps
  · simp only [h, if_true, reduceCtorEq, false_iff, not_and]
    intro h'
    omega
  · simp only [h, if_false, Except.ok.injEq]
    constructor
    · rintro rfl
      exact ⟨by omega, rfl⟩
    · rintro ⟨_, rfl⟩
      rfl

theorem tick_eq_error_iff {s : Simulator} {m : Meter} {e : Stop} :
    s.tick m = .error e ↔ s.options.maxSteps ≤ m.steps ∧ e = .stepLimit s.options.maxSteps := by
  unfold tick
  by_cases h : s.options.maxSteps ≤ m.steps <;> simp [h, eq_comm]

theorem tokenFault?_eq_none_iff {s : Simulator} {token : Token} :
    s.tokenFault? token = none ↔
      s.options.ignoreAlphabet = true ∨ ∀ name, token = .named name → name ∈ s.program.alphabet := by
  cases token with
  | sentinel _ => simp [tokenFault?]
  | named name =>
    by_cases hi : s.options.ignoreAlphabet = true <;>
      by_cases hn : name ∈ s.program.alphabet <;> simp [tokenFault?, hi, hn]

/-! ### Commands -/

/-- Performs a command: `log` writes its arguments unless told to be extra quiet, and `pause` waits
for an answer. -/
def execute (s : Simulator) (c : Command) (m : Meter) : Meter × Option Stop :=
  if c.name = "log" then
    if s.options.extraQuiet then (m, none)
    else (m.emit (.line (String.intercalate " " c.args)), none)
  else if c.name = "pause" then
    if s.prompts.any (· ≤ m.prompts) then (m, some .inputEnded)
    else (({ m with prompts := m.prompts + 1 } : Meter).emit .prompt, none)
  else (m, some (.unknownCommand c))

/-- Performs commands one after the other. -/
def executeAll (s : Simulator) : List Command → Meter → Meter × Option Stop
  | [], m => (m, none)
  | c :: rest, m =>
    match s.execute c m with
    | (m, some e) => (m, some e)
    | (m, none) => s.executeAll rest m

/-! ### Destinations -/

/-- The destination set of a state and a token. -/
def destinations? (s : Simulator) (state : Ref) (token : Token) : Option Destinations :=
  (s.program.table state).find? token

/-- Chooses one destination of a set. -/
def choose (s : Simulator) (d : Destinations) (m : Meter) : Meter × Except Stop Ref :=
  match Choice.choose? d.entries (s.draw m.draws) with
  | none => (m, .error .emptyChoice)
  | some destination => ({ m with draws := m.draws + Choice.draws d.entries }, .ok destination)

/-- Where a state and a token lead. -/
structure Resolution where
  destinations : List Ref
  isDefined : Bool
deriving DecidableEq, Repr

/-- Resolves a state and a token: by a choice in deterministic mode, else to all destinations. What
is not defined leads to `null`. -/
def resolve (s : Simulator) (state : Ref) (token : Token) (m : Meter) :
    Meter × Except Stop Resolution :=
  match s.destinations? state token with
  | none => (m, .ok ⟨[.null], false⟩)
  | some d =>
    match s.program.mode with
    | .nfa => (m, .ok ⟨d.keys, true⟩)
    | .dfa => (s.choose d m).map id fun r => r.map fun destination => ⟨[destination], true⟩

end Simulator

end FiniteAutomata
