import FiniteAutomata.Simulator.Basic

/-! # One step of a branch

A step applies a token to a branch. It is counted, the token is checked against the alphabet, and
the commands of the state are performed; then the branch ends at a sentinel, or at an accept state
if told to, or takes a transition. In deterministic mode the branch itself moves; otherwise each
destination starts a branch of its own. A step that stops leaves the branch as it was. -/

namespace FiniteAutomata

/-- What a step makes of a branch: it ended, it moved, or it stays and others go on from it. -/
inductive Outcome where
  | ended (branch : Branch)
  | moved (branch : Branch)
  | spread (branch : Branch) (children : List Branch)
deriving DecidableEq, Repr

namespace Outcome

/-- The branch after the step. -/
def branch : Outcome → Branch
  | .ended b => b
  | .moved b => b
  | .spread b _ => b

/-- The branches that the step started. -/
def children : Outcome → List Branch
  | .ended _ => []
  | .moved _ => []
  | .spread _ cs => cs

end Outcome

namespace Simulator

/-- The branch moved by a transition of deterministic mode. -/
def move (s : Simulator) (state : String) (token : Token) (b : Branch) (m : Meter) :
    Meter × Except Stop Outcome :=
  match s.destinations? b.state token with
  | none =>
    if s.options.autoNull then (m, .ok (.moved (b.advance ⟨b.state, token, .null⟩)))
    else (m, .error (.undefinedTransition state token))
  | some d =>
    match s.choose d m with
    | (m, .error e) => (m, .error e)
    | (m, .ok destination) => (m, .ok (.moved (b.advance ⟨b.state, token, destination⟩)))

/-- Where the branches go that start from a state on a token. -/
def targets (s : Simulator) (state : Ref) (token : Token) : List Ref :=
  match s.destinations? state token with
  | none => [.null]
  | some d => d.keys

/-- The branches that start from another one on a token, one for each destination. -/
def spawns (s : Simulator) (token : Token) (b : Branch) : List Branch :=
  (s.targets b.state token).map fun destination => b.spawn ⟨b.state, token, destination⟩

/-- The branch marked as accepted if it explores and stands at an accept state. -/
def marked (s : Simulator) (exploring : Bool) (b : Branch) : Branch :=
  if exploring && s.program.accepts b.state then { b with accepted := true } else b

/-- The step of a branch whose token and commands gave no reason to stop. -/
def proceed (s : Simulator) (exploring : Bool) (token : Token) (b : Branch) (m : Meter) :
    Meter × Except Stop Outcome :=
  match b.state with
  | .sentinel _ => (m, .ok (.ended b.terminate))
  | .named state =>
    if s.program.accepts b.state && s.options.stopOnAccept then
      (m, .ok (.ended (b.conclude true)))
    else
      match s.program.mode with
      | .dfa => s.move state token (s.marked exploring b) m
      | .nfa => (m, .ok (.spread (s.marked exploring b) (s.spawns token b)))

/-- Applies a token to a branch; `exploring` says that there is no input and every accept state
counts. -/
def step (s : Simulator) (exploring : Bool) (token : Token) (b : Branch) (m : Meter) :
    Meter × Except Stop Outcome :=
  match s.tick m with
  | .error e => (m, .error e)
  | .ok m =>
    match s.tokenFault? token with
    | some e => (m, .error e)
    | none =>
      match s.executeAll (s.program.commandsAt b.state) m with
      | (m, some e) => (m, .error e)
      | (m, none) => s.proceed exploring token b m

end Simulator

end FiniteAutomata
