import FiniteAutomata.Simulator.Step

/-! # Runs

In deterministic mode a run is a walk of one branch along the input. Otherwise it goes in rounds:
each branch of the frontier is visited once, and the branches started by the visits are the next
frontier. With an input each round consumes one token; without one each visit tries every token of
the state, until no branch goes on or the budget of steps is used up.

The branches of a run stand in the order in which they were started. -/

namespace FiniteAutomata

/-- A run, finished or stopped: its branches, what it has used and shown, and why it stopped. -/
structure Run where
  branches : Array Branch
  meter : Meter
  stop : Option Stop
deriving DecidableEq, Repr

/-- The answers of a run. -/
def Run.answers (r : Run) : List Answer := answersOf r.branches.toList

namespace Simulator

/-! ### Deterministic mode -/

/-- Walks a branch along tokens, as long as it is live. -/
def walk (s : Simulator) : List Token → Branch → Meter → Meter × Branch × Option Stop
  | [], b, m => (m, b, none)
  | token :: rest, b, m =>
    if b.isLive then
      match s.step false token b m with
      | (m, .error e) => (m, b, some e)
      | (m, .ok o) => s.walk rest o.branch m
    else (m, b, none)

/-- Ends a branch that has not ended: it accepts if it stands at an accept state. -/
def settle (s : Simulator) (b : Branch) : Branch :=
  if b.terminated then b else b.conclude (s.program.accepts b.state)

/-- A run in deterministic mode. -/
def runDeterministic (s : Simulator) (input : Option (List Token)) (m : Meter) : Run :=
  match input with
  | none => ⟨#[], m, some .missingInput⟩
  | some tokens =>
    match s.walk tokens (.start (.named s.program.start)) m with
    | (m, b, some e) => ⟨#[b], m, some e⟩
    | (m, b, none) => ⟨#[s.settle b], m, none⟩

/-! ### Rounds -/

/-- What a visit makes of a branch: the branch, those started from it, and why it stopped. -/
structure Visit where
  branch : Branch
  children : List Branch
  stop : Option Stop
deriving DecidableEq, Repr

/-- Tries tokens at a branch, one after the other, until it ends. -/
def tryTokens (s : Simulator) (exploring : Bool) : List Token → Branch → Meter → Meter × Visit
  | [], b, m => (m, ⟨b.terminate, [], none⟩)
  | token :: rest, b, m =>
    match s.step exploring token b m with
    | (m, .error e) => (m, ⟨b, [], some e⟩)
    | (m, .ok o) =>
      if o.branch.terminated then (m, ⟨o.branch, o.children, none⟩)
      else
        let (m, v) := s.tryTokens exploring rest o.branch m
        (m, { v with children := o.children ++ v.children })

/-- What the branches of a frontier find to try: the next token of the input, or every token. -/
inductive Offer where
  | next (token : Token)
  | every
deriving DecidableEq, Repr

/-- The tokens to try at a state; `null` stands in where there is none. -/
def Offer.tokens (o : Offer) (p : Program) (state : Ref) : List Token :=
  match o with
  | .next token => [token]
  | .every =>
    match (p.table state).keys with
    | [] => [.null]
    | tokens => tokens

/-- Whether every accept state on the way counts. -/
def Offer.explores : Offer → Bool
  | .next _ => false
  | .every => true

/-- Visits a branch: at a sentinel it ends, else the tokens on offer are tried. -/
def visit (s : Simulator) (offer : Offer) (b : Branch) (m : Meter) : Meter × Visit :=
  if b.isStuck then (m, ⟨b.terminate, [], none⟩)
  else s.tryTokens offer.explores (offer.tokens s.program b.state) b m

/-- A round under way: the branches visited, those started, and why it stopped. -/
structure Round where
  visited : Array Branch := #[]
  started : Array Branch := #[]
  stop : Option Stop := none
deriving DecidableEq, Repr

/-- Visits the branches of a frontier in order; those after a stop stay as they are. -/
def visitAll (s : Simulator) (offer : Offer) : List Branch → Round → Meter → Meter × Round
  | [], r, m => (m, r)
  | b :: rest, r, m =>
    match s.visit offer b m with
    | (m, v) =>
      let visited := r.visited.push v.branch
      let started := r.started ++ v.children
      match v.stop with
      | some e => (m, ⟨visited ++ rest, started, some e⟩)
      | none => s.visitAll offer rest ⟨visited, started, none⟩ m

/-- One round over a frontier. -/
def round (s : Simulator) (offer : Offer) (frontier : Array Branch) (m : Meter) : Meter × Round :=
  s.visitAll offer frontier.toList {} m

/-- Ends the branches of the last frontier of a run with an input. -/
def settleAll (s : Simulator) (frontier : Array Branch) : Array Branch :=
  frontier.map fun b => if b.isStuck then b.terminate else s.settle b

/-- The rounds over the tokens of an input; `before` are the branches of earlier rounds. -/
def consume (s : Simulator) (before : Array Branch) :
    List Token → (frontier : Array Branch) → Meter → Run
  | [], frontier, m => ⟨before ++ s.settleAll frontier, m, none⟩
  | token :: rest, frontier, m =>
    match s.round (.next token) frontier m with
    | (m, ⟨visited, started, some e⟩) => ⟨before ++ visited ++ started, m, some e⟩
    | (m, ⟨visited, started, none⟩) => s.consume (before ++ visited) rest started m

/-- The rounds without an input, at most `fuel` of them. A round that starts no branch is the last
one, and every other round takes at least one step. -/
def explore (s : Simulator) (before : Array Branch) : (fuel : Nat) → (frontier : Array Branch) →
    Meter → Run
  | 0, frontier, m => ⟨before ++ frontier, m, none⟩
  | fuel + 1, frontier, m =>
    match s.round .every frontier m with
    | (m, ⟨visited, started, some e⟩) => ⟨before ++ visited ++ started, m, some e⟩
    | (m, ⟨visited, started, none⟩) =>
      if started.isEmpty then ⟨before ++ visited, m, none⟩
      else s.explore (before ++ visited) fuel started m

/-- A run in nondeterministic mode. -/
def runNondeterministic (s : Simulator) (input : Option (List Token)) (m : Meter) : Run :=
  let root := #[Branch.start (.named s.program.start)]
  match input with
  | none => s.explore #[] (s.options.maxSteps - m.steps + 1) root m
  | some tokens => s.consume #[] tokens root m

/-! ### Any mode -/

/-- A run on an input or on none, which goes on from what the meter shows. -/
def runFrom (s : Simulator) (input : Option (List Token)) (m : Meter) : Run :=
  match s.program.mode with
  | .dfa => s.runDeterministic input m
  | .nfa => s.runNondeterministic input m

/-- A run on an input or on none. -/
def run (s : Simulator) (input : Option (List Token)) : Run := s.runFrom input {}

end Simulator

end FiniteAutomata
