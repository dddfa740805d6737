import FiniteAutomata.Diagram.Basic
import FiniteAutomata.Draft
import FiniteAutomata.Text.Basic

/-! # From diagrams to programs

The trimmed labels of the nodes become the states, and each link with a text becomes a transition of
weight one on that text; links that share source and text collect into one destination set. The
start state is the node of the last start link unless one is asked for. What is found wrong first is
reported, in the order: labels, links, start state asked for, and then as for any draft. -/

namespace FiniteAutomata.Diagram

/-- The part that a node plays for a link. -/
inductive Role where
  | start
  | source
  | destination
deriving DecidableEq, Repr

/-- The name of a part. -/
def Role.text : Role → String
  | .start => "start"
  | .source => "source"
  | .destination => "destination"

/-- Why a diagram cannot be drafted as a program. -/
inductive ImportError where
  | malformed (findings : List Finding)
  | unlabelled (node : Nat)
  | reservedLabel (node : Nat) (name : String)
  | repeatedLabel (name : String) (node : Nat)
  | outOfBounds (role : Role) (link : Nat) (node : Int)
  | unknownStart (name : String)
deriving DecidableEq, Repr

/-- The text of an import error. -/
def ImportError.message : ImportError → String
  | .malformed findings => "Failed to validate graph: " ++ summary "Graph" findings
  | .unlabelled node => s!"Node {node} has no label"
  | .reservedLabel node name => s!"Node {node} uses reserved name '{name}'"
  | .repeatedLabel name node => s!"Duplicate state name '{name}' at node {node}"
  | .outOfBounds role link node =>
    "Out of bounds error [" ++ role.text ++
      s!"]: link {link} references undefined node at index {node}"
  | .unknownStart name => s!"Configured start state '{name}' matches no node"

/-! ### States -/

/-- The label of a node without the blanks around it. -/
def Node.name (n : Node) : String := String.ofList (Text.trim n.label.toList)

/-- The names of nodes from an index on, after the names before them. -/
def namesFrom (before : List String) (index : Nat) : List Node → Except ImportError (List String)
  | [] => .ok before
  | node :: rest =>
    let name := node.name
    if name.isEmpty then .error (.unlabelled index)
    else if isReserved name then .error (.reservedLabel index name)
    else if name ∈ before then .error (.repeatedLabel name index)
    else namesFrom (before ++ [name]) (index + 1) rest

/-- The names of the nodes. -/
def names (d : Diagram) : Except ImportError (List String) := namesFrom [] 0 d.nodes

/-! ### Links -/

/-- A link with the names of its nodes. -/
inductive Arrow where
  | start (state : String)
  | unlabelled (source target : String)
  | transition (source target : String) (token : Token)
deriving DecidableEq, Repr

/-- The name of the node that plays a part for a link. -/
def nameAt (names : List String) (role : Role) (link : Nat) (node : Int) :
    Except ImportError String :=
  match node with
  | .ofNat n =>
    match names[n]? with
    | some name => .ok name
    | none => .error (.outOfBounds role link node)
  | .negSucc _ => .error (.outOfBounds role link node)

/-- A transition on a text; a link without a text is none. -/
def Arrow.ofText (source target text : String) : Arrow :=
  let token := Text.trim text.toList
  if token.isEmpty then .unlabelled source target
  else .transition source target (.ofLexeme (String.ofList token))

/-- The arrow that the link with the given index stands for. -/
def Link.resolve (names : List String) (index : Nat) : Link → Except ImportError Arrow
  | .start node => (nameAt names .start index node).map .start
  | .between source target text => do
    let source ← nameAt names .source index source
    let target ← nameAt names .destination index target
    return Arrow.ofText source target text
  | .loop node text => do
    let state ← nameAt names .destination index node
    return Arrow.ofText state state text

/-- The arrows of links from an index on, up to the first link that refers to no node, and the error
of that one. -/
def resolveFrom (names : List String) (index : Nat) : List Link → List Arrow × Option ImportError
  | [] => ([], none)
  | link :: rest =>
    match link.resolve names index with
    | .error e => ([], some e)
    | .ok arrow =>
      let (arrows, e) := resolveFrom names (index + 1) rest
      (arrow :: arrows, e)

/-- Adds the transition of an arrow to the tables. -/
def addArrow (states : Dict String Table) : Arrow → Dict String Table
  | .transition source target token =>
    let table := (states.find? source).getD ∅
    let destinations := ((table.find? token).getD ∅).insert (.named target) 1
    states.insert source (table.insert token destinations)
  | _ => states

/-- The state that the last start link marks. -/
def lastStart? (arrows : List Arrow) : Option String :=
  arrows.foldl (fun found arrow => match arrow with | .start state => some state | _ => found) none

/-! ### Drafts and programs -/

/-- The start state asked for, if it names a node, else the one that the links mark. -/
def chooseStart (names : List String) (marked asked : Option String) :
    Except ImportError (Option String) :=
  match asked with
  | none => .ok marked
  | some name => if name ∈ names then .ok (some name) else .error (.unknownStart name)

/-- The draft with the given states, start and accept states. -/
def draftOf (states : Dict String Table) (accept : List String) (start : Option String)
    (mode : Mode) : Draft :=
  let vars := (∅ : Dict String Setting).insert "accept" (.array accept)
  let vars := (start.map fun state => vars.insert "start" (.literal state)).getD vars
  { states, vars := vars.insert "mode" (.literal mode.text) }

/-- The draft that a diagram stands for. -/
def toDraft (d : Diagram) (asked : Option String) (mode : Mode) : Except ImportError Draft := do
  let names ← d.names
  match resolveFrom names 0 d.links with
  | (_, some e) => throw e
  | (arrows, none) =>
    let start ← chooseStart names (lastStart? arrows) asked
    let empty := Dict.ofList (names.map fun name => (name, (∅ : Table)))
    let accept := ((names.zip d.nodes).filter (·.2.accepting)).map (·.1)
    return draftOf (arrows.foldl addArrow empty) accept start mode

/-- Why a diagram stands for no program. -/
inductive Error where
  | drafting (e : ImportError)
  | inconsistent (e : Inconsistency)
deriving DecidableEq, Repr

/-- The text of the report on a diagram. -/
def Error.message : Error → String
  | .drafting e => e.message
  | .inconsistent e => e.message

/-- The program that a diagram stands for. -/
def toProgram (d : Diagram) (asked : Option String) (mode : Mode) : Except Error Program := do
  let draft ← (d.toDraft asked mode).mapError .drafting
  draft.validate.mapError .inconsistent

/-- The program that a record of a diagram stands for. -/
def convert (datum : Datum) (asked : Option String) (mode : Mode) : Except Error Program := do
  let d ← (ofDatum datum).mapError fun findings => .drafting (.malformed findings)
  d.toProgram asked mode

end FiniteAutomata.Diagram
