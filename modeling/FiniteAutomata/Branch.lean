import FiniteAutomata.Ref
import FiniteAutomata.Text.Quoted

/-! # Branches

A branch is one way in which a run has gone so far: the state it has reached, the events on the way
there, how many tokens it has consumed, and whether it has accepted or ended. Branches that part
share the events up to where they part. -/

namespace FiniteAutomata

/-- A transition taken. -/
structure Event where
  state : Ref
  token : Token
  destination : Ref
deriving DecidableEq, Repr

/-- One way in which a run has gone; `trail` holds its events, the last one first. -/
structure Branch where
  state : Ref
  trail : List Event := []
  position : Nat := 0
  accepted : Bool := false
  terminated : Bool := false
deriving DecidableEq, Repr

/-- A way that ends in acceptance: where, and how it went there. -/
structure Answer where
  state : Ref
  path : List Event
deriving DecidableEq, Repr

/-- The input that an answer has consumed, without sentinels. -/
def Answer.text (a : Answer) : String :=
  String.join (a.path.filterMap fun e => e.token.name?)

namespace Branch

/-- The branch that starts at a state. -/
def start (state : Ref) : Branch := { state }

/-- The events of a branch, the first one first. -/
def path (b : Branch) : List Event := b.trail.reverse

/-- Whether a branch goes on. -/
def isLive (b : Branch) : Bool := ! (b.accepted || b.terminated)

/-- Whether a branch stands at a sentinel, where no transition leads on. -/
def isStuck (b : Branch) : Bool := b.state.isSentinel

/-- The branch after one more event. -/
def advance (b : Branch) (e : Event) : Branch :=
  { b with state := e.destination, trail := e :: b.trail, position := b.position + 1 }

/-- A new branch that goes on from another one with an event. -/
def spawn (b : Branch) (e : Event) : Branch :=
  { state := e.destination, trail := e :: b.trail, position := b.position + 1 }

/-- The branch ended. -/
def terminate (b : Branch) : Branch := { b with terminated := true }

/-- The branch ended, accepted or not. -/
def conclude (b : Branch) (accepted : Bool) : Branch := { b with accepted, terminated := true }

/-- The answer that an accepted branch gives. -/
def toAnswer (b : Branch) : Answer := ⟨b.state, b.path⟩

/-- The marks of a branch: accepted, terminated, or neither. -/
def flags (b : Branch) : String :=
  match b.accepted, b.terminated with
  | true, true => "AT"
  | true, false => "A"
  | false, true => "T"
  | false, false => "-"

/-- A short description of a branch. -/
def description (b : Branch) : String :=
  "Branch(" ++ Text.quote b.state.lexeme ++ s!", steps={b.trail.length}, flags=" ++ b.flags ++ ")"

theorem isLive_iff {b : Branch} : b.isLive = true ↔ b.accepted = false ∧ b.terminated = false := by
  simp [isLive]

@[simp] theorem isLive_spawn (b : Branch) (e : Event) : (b.spawn e).isLive = true := rfl

@[simp] theorem isLive_terminate (b : Branch) : b.terminate.isLive = false := by
  simp [isLive, terminate]

@[simp] theorem isLive_conclude (b : Branch) (accepted : Bool) :
    (b.conclude accepted).isLive = false := by
  simp [isLive, conclude]

@[simp] theorem path_start (state : Ref) : (start state).path = [] := rfl

@[simp] theorem path_advance (b : Branch) (e : Event) : (b.advance e).path = b.path ++ [e] := by
  simp [path, advance]

@[simp] theorem path_spawn (b : Branch) (e : Event) : (b.spawn e).path = b.path ++ [e] := by
  simp [path, spawn]

end Branch

/-- The answers of branches: those of the accepted ones, in order. -/
def answersOf (branches : List Branch) : List Answer :=
  (branches.filter (·.accepted)).map Branch.toAnswer

/-- The tokens of a text, one for each character. -/
def tokensOfText (text : String) : List Token :=
  text.toList.map fun c => .named (String.singleton c)

/-- The tokens that texts stand for: reserved spellings stand for the sentinels. -/
def tokensOfLexemes (lexemes : List String) : List Token := lexemes.map Ref.ofLexeme

end FiniteAutomata
