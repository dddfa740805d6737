import FiniteAutomata.Checked

/-! # State diagrams

A diagram as a graphical editor exports it: nodes with a label and an accept flag, and links between
two nodes, from a node to itself, or marking a node as the start. Positions and curvatures have to
be numbers but mean nothing here; fields that are not known are passed over. -/

namespace FiniteAutomata

/-- A state of a diagram. -/
structure Diagram.Node where
  label : String
  accepting : Bool
deriving DecidableEq, Repr

/-- An arrow of a diagram. Nodes are given by their index. -/
inductive Diagram.Link where
  | between (source target : Int) (text : String)
  | loop (node : Int) (text : String)
  | start (node : Int)
deriving DecidableEq, Repr

/-- A state diagram. -/
structure Diagram where
  nodes : List Diagram.Node
  links : List Diagram.Link
deriving DecidableEq, Repr

namespace Diagram

open Checked

/-- The kinds of links. -/
inductive LinkKind where
  | between
  | loop
  | start
deriving DecidableEq, Repr

/-- The name of a kind of link. -/
def LinkKind.text : LinkKind → String
  | .between => "Link"
  | .loop => "SelfLink"
  | .start => "StartLink"

/-- All kinds of links. -/
def LinkKind.all : List LinkKind := [.between, .loop, .start]

/-- The kind of link that a value names. -/
def LinkKind.ofDatum (d : Datum) : Checked LinkKind :=
  let found :=
    match d with
    | .text s => LinkKind.all.find? (·.text = s)
    | _ => none
  match found with
  | some kind => .ok kind
  | none => defect (.notOneOf (LinkKind.all.map LinkKind.text))

/-- The node that a record describes. -/
def Node.ofDatum : Datum → Checked Node :=
  record "GraphNode" fun fields =>
    let make : Checked (Unit → Unit → String → Bool → Node) := .ok fun _ _ => Node.mk
    make
      |>.ap (field "x" number fields)
      |>.ap (field "y" number fields)
      |>.ap (field "text" Checked.text fields)
      |>.ap (field "isAcceptState" bool fields)

/-- The fields of a link that mean something. -/
structure LinkFields where
  kind : LinkKind
  text : String
  nodeA : Option Int
  nodeB : Option Int
  node : Option Int

/-- The fields of a link, whatever its kind needs. -/
def LinkFields.ofFields (fields : List (String × Datum)) : Checked LinkFields :=
  let optional (name : String) := fieldOr (.ok none) name int? fields
  let geometry (name : String) := fieldOr (.ok ()) name number? fields
  let make : Checked (LinkKind → String → Option Int → Option Int → Option Int → Unit → Unit →
      Unit → Unit → LinkFields) :=
    .ok fun kind text a b n _ _ _ _ => ⟨kind, text, a, b, n⟩
  make
    |>.ap (field "type" LinkKind.ofDatum fields)
    |>.ap (fieldOr (.ok "") "text" Checked.text fields)
    |>.ap (optional "nodeA")
    |>.ap (optional "nodeB")
    |>.ap (optional "node")
    |>.ap (geometry "lineAngleAdjust")
    |>.ap (geometry "anchorAngle")
    |>.ap (geometry "parallelPart")
    |>.ap (geometry "perpendicularPart")

/-- The link that fields describe, if those are present that its kind needs. -/
def LinkFields.toLink (l : LinkFields) : Checked Link :=
  match l.kind, l.nodeA, l.nodeB, l.node with
  | .between, some a, some b, _ => .ok (.between a b l.text)
  | .between, _, _, _ => defect (.violates "Link requires both nodeA and nodeB")
  | .loop, _, _, some n => .ok (.loop n l.text)
  | .start, _, _, some n => .ok (.start n)
  | kind, _, _, none => defect (.violates (kind.text ++ " requires node"))

/-- The link that a record describes. -/
def Link.ofDatum : Datum → Checked Link :=
  record "GraphLink" fun fields => LinkFields.ofFields fields >>= LinkFields.toLink

/-- The diagram that a record describes. -/
def ofDatum : Datum → Checked Diagram :=
  record "Graph" fun fields =>
    let make : Checked (List Node → List Link → Diagram) := .ok Diagram.mk
    make
      |>.ap (field "nodes" (list Node.ofDatum) fields)
      |>.ap (field "links" (list Link.ofDatum) fields)

end Diagram

end FiniteAutomata
