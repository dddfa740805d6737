import FiniteAutomata.Dict
import FiniteAutomata.Ref

/-! # Programs

A program is a finite automaton with weighted destination sets, commands attached to its states,
and the assignments it was declared with. `Program.Valid` is what every program that runs satisfies:
start, accept states and destinations are defined, and each destination set is non-empty with
positive finite weights. `Program.flaw?` finds the first violation; it finds none exactly in a valid
program. -/

namespace FiniteAutomata

/-! ### Parts of a program -/

/-- How several destinations are understood: as a weighted choice or as branches to explore. -/
inductive Mode where
  | dfa
  | nfa
deriving DecidableEq, Repr, Inhabited

/-- The text of a mode in an assignment. -/
def Mode.text : Mode → String
  | .dfa => "DFA"
  | .nfa => "NFA"

/-- The mode with the given text. -/
def Mode.ofText? (text : String) : Option Mode :=
  if text = Mode.dfa.text then some .dfa
  else if text = Mode.nfa.text then some .nfa
  else none

/-- All modes. -/
def Mode.all : List Mode := [.dfa, .nfa]

/-- The weight of each destination, in order of declaration. -/
abbrev Destinations := Dict Ref Float

/-- The destination set of each token of a state, in order of declaration. -/
abbrev Table := Dict Token Destinations

/-- Something a state does each time a step leaves it. -/
structure Command where
  name : String
  args : List String
deriving DecidableEq, Repr, Inhabited

/-- A command as it is written. -/
def Command.text (c : Command) : String := "$" ++ c.name ++ "(" ++ String.intercalate ", " c.args ++ ")"

/-- The value of an assignment. -/
inductive Setting where
  | literal (text : String)
  | array (items : List String)
deriving DecidableEq, Repr, Inhabited

/-- Whether a number may be a weight. -/
def isWeight (w : Float) : Bool := 0 < w && w.isFinite

/-- A finite automaton with weights, commands and the assignments it was declared with. -/
structure Program where
  alphabet : List String
  states : Dict String Table
  start : String
  accept : List String
  mode : Mode := .dfa
  commands : Dict String (List Command) := ∅
  vars : Dict String Setting := ∅
  declaresAlphabet : Bool := false
deriving DecidableEq, Inhabited

namespace Program

/-! ### Look-up -/

/-- The table of a state; sentinels and unknown names have none. -/
def table (p : Program) : Ref → Table
  | .named name => (p.states.find? name).getD ∅
  | .sentinel _ => ∅

/-- Whether a reference is an accept state. -/
def accepts (p : Program) : Ref → Bool
  | .named name => p.accept.contains name
  | .sentinel _ => false

/-- The commands of a state. -/
def commandsAt (p : Program) : Ref → List Command
  | .named name => (p.commands.find? name).getD []
  | .sentinel _ => []

/-- The same automaton in another mode; the assignment of the mode follows. -/
def withMode (p : Program) (mode : Mode) : Program :=
  { p with mode := mode, vars := p.vars.insert "mode" (.literal mode.text) }

/-! ### Validity -/

/-- Why a program cannot run. -/
inductive Flaw where
  | unknownStart (state : String)
  | unknownAccept (state : String)
  | noDestination (state : String) (token : Token)
  | badWeight (state : String) (weight : Float) (destination : Ref)
  | unknownDestination (state destination : String)
deriving DecidableEq, Repr

/-- The flaw of one destination of a state. -/
def destinationFlaw? (p : Program) (state : String) (destination : Ref) (weight : Float) :
    Option Flaw :=
  if ! isWeight weight then some (.badWeight state weight destination)
  else
    match destination with
    | .sentinel _ => none
    | .named name => if name ∈ p.states then none else some (.unknownDestination state name)

/-- The first flaw of a destination set. -/
def destinationsFlaw? (p : Program) (state : String) (token : Token) (d : Destinations) :
    Option Flaw :=
  if d.isEmpty then some (.noDestination state token)
  else d.entries.findSome? fun e => p.destinationFlaw? state e.1 e.2

/-- The first flaw of a program: start, accept states, then the tables in order. -/
def flaw? (p : Program) : Option Flaw :=
  if p.start ∉ p.states then some (.unknownStart p.start)
  else
    match p.accept.find? (· ∉ p.states) with
    | some state => some (.unknownAccept state)
    | none =>
      p.states.entries.findSome? fun s =>
        s.2.entries.findSome? fun t => p.destinationsFlaw? s.1 t.1 t.2

/-- A destination set that a valid program may hold. -/
structure ValidDestinations (p : Program) (d : Destinations) : Prop where
  nonempty : d.entries ≠ []
  weights : ∀ e ∈ d.entries, isWeight e.2 = true
  known : ∀ e ∈ d.entries, ∀ name, e.1 = .named name → name ∈ p.states

/-- Start, accept states and destinations are defined, and destination sets are non-empty with
positive finite weights. -/
structure Valid (p : Program) : Prop where
  start : p.start ∈ p.states
  accept : ∀ state ∈ p.accept, state ∈ p.states
  destinations : ∀ s ∈ p.states.entries, ∀ t ∈ s.2.entries, p.ValidDestinations t.2

/-! ### Comparison -/

/-- Whether two tables have the same destinations with the same weights, in any order. -/
def tablesAgree (t u : Table) : Bool := t.agrees (fun d e => d.agrees (· == ·) e) u

/-- Whether two programs have the same states, tables and weights, in any order. -/
def statesAgree (p q : Program) : Bool := p.states.agrees tablesAgree q.states

/-- Whether two programs have the same commands at the same states. -/
def commandsAgree (p q : Program) : Bool := p.commands.agrees (fun a b => a = b) q.commands

/-- Whether two programs have the same assignments, in any order. -/
def varsAgree (p q : Program) : Bool := p.vars.agrees (fun a b => a = b) q.vars

/-- Whether two programs agree in every field: dictionaries in any order, lists in order. -/
def agrees (p q : Program) : Bool :=
  p.alphabet = q.alphabet && p.statesAgree q && p.start = q.start && p.accept = q.accept &&
    p.mode = q.mode && p.commandsAgree q && p.varsAgree q && p.declaresAlphabet = q.declaresAlphabet

/-! ### A program without a flaw is valid -/

theorem destinationFlaw?_eq_none_iff {p : Program} {state : String} {destination : Ref}
    {weight : Float} : p.destinationFlaw? state destination weight = none ↔
      isWeight weight = true ∧ ∀ name, destination = .named name → name ∈ p.states := by
  unfold destinationFlaw?
  by_cases hw : isWeight weight = true
  · cases destination with
    | sentinel s => simp [hw]
    | named name => by_cases hn : name ∈ p.states <;> simp [hw, hn]
  · simp [hw]

theorem destinationsFlaw?_eq_none_iff {p : Program} {state : String} {token : Token}
    {d : Destinations} :
    p.destinationsFlaw? state token d = none ↔ p.ValidDestinations d := by
  unfold destinationsFlaw?
  by_cases hd : d.isEmpty = true
  · have : d.entries = [] := by simpa [Dict.isEmpty] using hd
    simp only [hd, if_true, reduceCtorEq, false_iff]
    exact fun h => h.nonempty this
  · have hne : d.entries ≠ [] := by simpa [Dict.isEmpty] using hd
    simp only [hd, Bool.false_eq_true, if_false, List.findSome?_eq_none_iff,
      destinationFlaw?_eq_none_iff]
    exact ⟨fun h => ⟨hne, fun e he => (h e he).1, fun e he => (h e he).2⟩,
      fun h e he => ⟨h.weights e he, h.known e he⟩⟩

theorem flaw?_eq_none_iff {p : Program} : p.flaw? = none ↔ p.Valid := by
  unfold flaw?
  by_cases hs : p.start ∈ p.states
  · cases ha : p.accept.find? (· ∉ p.states) with
    | some state =>
      have h := List.find?_some ha
      have hm := List.mem_of_find?_eq_some ha
      simp only [decide_not, Bool.not_eq_eq_eq_not, Bool.not_true, decide_eq_false_iff_not] at h
      simp only [hs, not_true_eq_false, if_false, reduceCtorEq, false_iff]
      exact fun hv => h (hv.accept state hm)
    | none =>
      have h : ∀ state ∈ p.accept, state ∈ p.states := by simpa using ha
      simp only [hs, not_true_eq_false, if_false, List.findSome?_eq_none_iff,
        destinationsFlaw?_eq_none_iff]
      exact ⟨fun hd => ⟨hs, h, hd⟩, fun hv => hv.destinations⟩
  · simp only [hs, not_false_eq_true, if_true, reduceCtorEq, false_iff]
    exact fun hv => hs hv.start

instance (p : Program) : Decidable p.Valid := decidable_of_iff _ flaw?_eq_none_iff

end Program

end FiniteAutomata
