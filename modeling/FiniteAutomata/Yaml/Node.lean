/-! # Nodes

What a settings file holds before its scalars are read: scalars, sequences and mappings, each with
the kind of value it stands for, and references to nodes with an anchor. Nodes are numbered, since one
that is referred to is the same node everywhere. -/

namespace FiniteAutomata.Yaml

/-- The kinds of values that a node may stand for. `merge` and `default` are the kinds of keys that
mean something of their own. -/
inductive Kind where
  | null
  | bool
  | int
  | float
  | text
  | binary
  | timestamp
  | sequence
  | mapping
  | set
  | orderedMapping
  | pairs
  | merge
  | default
  | unknown
deriving DecidableEq, Repr, Inhabited

/-- What the tags of the format start with. -/
def coreTag : String := "tag:yaml.org,2002:"

/-- The kinds by the rest of their tags. -/
def Kind.names : List (String × Kind) :=
  [("null", .null), ("bool", .bool), ("int", .int), ("float", .float), ("str", .text),
   ("binary", .binary), ("timestamp", .timestamp), ("seq", .sequence), ("map", .mapping),
   ("set", .set), ("omap", .orderedMapping), ("pairs", .pairs), ("merge", .merge),
   ("value", .default)]

/-- The kind that a tag stands for. -/
def Kind.ofTag (tag : String) : Kind :=
  ((Kind.names.map fun e => (coreTag ++ e.1, e.2)).lookup tag).getD .unknown

/-- A node of a settings file, with its number. -/
inductive Node where
  | scalar (number : Nat) (kind : Kind) (text : String)
  | sequence (number : Nat) (kind : Kind) (items : List Node)
  | mapping (number : Nat) (kind : Kind) (pairs : List (Node × Node))
  | alias (name : String)
deriving Inhabited

/-- The pairs of a mapping, in order. -/
abbrev Pairs := List (Node × Node)

/-- The scalar that stands for nothing; all of them share a number. -/
def Node.null : Node := .scalar 0 .null ""

/-- The number of a node. -/
def Node.number : Node → Nat
  | .scalar number _ _ | .sequence number _ _ | .mapping number _ _ => number
  | .alias _ => 0

/-- The kind of a node. -/
def Node.kind : Node → Kind
  | .scalar _ kind _ | .sequence _ kind _ | .mapping _ kind _ => kind
  | .alias _ => .unknown

/-- How deep nodes may lie in each other, which is less than what the stack has room for. -/
def maxDepth : Nat := 400

/-- A document: its root, the nodes with an anchor, and the largest number of a node. -/
structure Document where
  root : Node
  anchors : List (String × Node)
  count : Nat

/-- The node that a node refers to. -/
def Document.resolve (d : Document) (n : Node) : Node :=
  match n with
  | .alias name => (d.anchors.lookup name).getD .null
  | n => n

end FiniteAutomata.Yaml
