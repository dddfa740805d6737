import FiniteAutomata.Simulator.Run

/-! # Machines

A machine keeps the branches and the meter of a simulator between operations, so that branches can
be started, stepped and run one by one. Branches are known by their index, in the order in which
they were started. A step is an action: it changes the machine as it goes, and may stop halfway. -/

namespace FiniteAutomata

/-- The branches started so far, the meter, and whether the last run explored without an input. -/
structure Machine where
  branches : Array Branch := #[]
  meter : Meter := {}
  exploring : Bool := false
deriving DecidableEq, Repr, Inhabited

namespace Machine

/-- Adds branches; the indexes are theirs. -/
def add (m : Machine) (bs : List Branch) : Machine × List Nat :=
  ({ m with branches := m.branches ++ bs }, List.range' m.branches.size bs.length)

/-- Puts a branch in the place of another one. -/
def replace (m : Machine) (index : Nat) (b : Branch) : Machine :=
  { m with branches := m.branches.setIfInBounds index b }

/-- The branch with an index; one that was never started stands at `null`. -/
def branch (m : Machine) (index : Nat) : Branch := m.branches.getD index (.start .null)

/-- Moves a branch along an event. -/
def advance (m : Machine) (index : Nat) (e : Event) : Machine :=
  m.replace index ((m.branch index).advance e)

/-- Starts a branch that goes on from another one. -/
def spawn (m : Machine) (index : Nat) (e : Event) : Machine × List Nat :=
  m.add [(m.branch index).spawn e]

/-- Resolves a state and a token. -/
def resolve (m : Machine) (s : Simulator) (state : Ref) (token : Token) :
    Machine × Except Stop Simulator.Resolution :=
  match s.resolve state token m.meter with
  | (meter, r) => ({ m with meter }, r)

/-- Performs a command. -/
def execute (m : Machine) (s : Simulator) (c : Command) : Machine × Option Stop :=
  match s.execute c m.meter with
  | (meter, stop) => ({ m with meter }, stop)

/-! ### Steps -/

/-- What an operation does that may stop halfway: it changes the machine as it goes. -/
abbrev Action := EStateM Stop Machine

namespace Action

variable (s : Simulator)

/-- Counts a step, if the budget allows it. -/
def tick : Action Unit := do
  let m ← get
  let meter ← MonadExcept.ofExcept (s.tick m.meter)
  set { m with meter }

/-- Stops at a token that may not be consumed. -/
def check (token : Token) : Action Unit :=
  match s.tokenFault? token with
  | some e => throw e
  | none => return

/-- Performs a command. -/
def execute (c : Command) : Action Unit := do
  let (m, stop) := (← get).execute s c
  set m
  match stop with
  | some e => throw e
  | none => return

/-- Changes a branch. -/
def update (index : Nat) (f : Branch → Branch) : Action Unit :=
  modify fun m => m.replace index (f (m.branch index))

/-- Resolves a state and a token. -/
def resolve (state : Ref) (token : Token) : Action Simulator.Resolution := do
  let (m, r) := (← get).resolve s state token
  set m
  MonadExcept.ofExcept r

/-- Starts a branch that goes on from another one; the index is its own. -/
def spawn (index : Nat) (e : Event) : Action Nat :=
  modifyGet fun m => (m.branches.size, (m.spawn index e).1)

/-- The transition of a branch at a name: in deterministic mode it moves, else each destination
starts a branch. -/
def transition (token : Token) (index : Nat) (state : String) : Action (List Nat) := do
  let r ← resolve s (.named state) token
  match s.program.mode with
  | .dfa =>
    if ! r.isDefined && ! s.options.autoNull then throw (.undefinedTransition state token)
    else
      modify fun m => m.advance index ⟨.named state, token, r.destinations.headD .null⟩
      return [index]
  | .nfa => r.destinations.mapM fun destination => spawn index ⟨.named state, token, destination⟩

/-- Marks a branch as accepted if it explores and stands at an accept state. -/
def mark (state : Ref) (index : Nat) : Action Unit := do
  if s.program.accepts state && (← get).exploring then
    update index fun b => { b with accepted := true }

/-- The step of a branch whose token and commands gave no reason to stop. -/
def proceed (token : Token) (index : Nat) : Action (List Nat) := do
  match ((← get).branch index).state with
  | .sentinel _ =>
    update index Branch.terminate
    return []
  | .named state =>
    if s.program.accepts (.named state) && s.options.stopOnAccept then
      update index fun b => b.conclude true
      return []
    else
      mark s (.named state) index
      transition s token index state

/-- Applies a token to a branch; the indexes are those of the branches that go on. -/
def step (token : Token) (index : Nat) : Action (List Nat) := do
  tick s
  check s token
  (s.program.commandsAt ((← get).branch index).state).forM (execute s)
  proceed s token index

end Action

/-- Applies a token to a branch; the indexes are those of the branches that go on. -/
def step (m : Machine) (s : Simulator) (token : Token) (index : Nat) :
    Machine × Except Stop (List Nat) :=
  match (Action.step s token index).run m with
  | .ok indexes m => (m, .ok indexes)
  | .error e m => (m, .error e)

/-! ### Runs -/

/-- Runs the program on an input or on none, and keeps the branches. -/
def run (m : Machine) (s : Simulator) (input : Option (List Token)) : Machine × Option Stop :=
  let r := s.runFrom input m.meter
  let exploring :=
    match s.program.mode with
    | .dfa => m.exploring
    | .nfa => input.isNone
  ({ branches := m.branches ++ r.branches, meter := r.meter, exploring }, r.stop)

/-- The answers of all branches. -/
def answers (m : Machine) : List Answer := answersOf m.branches.toList

end Machine

end FiniteAutomata
