import FiniteAutomata.Dict
import FiniteAutomata.Yaml.Composer
import FiniteAutomata.Yaml.Value

/-! # Reading settings files

A settings file holds a value: nothing, a mapping from names to values, or something else. All its
nodes have to stand for values, also those inside of collections whose content is of no interest; the
first one that does not is what is reported. The value of a node is made once. Collections are entered
in the order in which they are met, each one after everything around it. A mapping takes over the
pairs of those merged into it when it is entered or merged itself, and a default key of it is a plain
text from then on. Of pairs with the same key the first one gives the key and the last one the
value. -/

namespace FiniteAutomata.Yaml

/-- What is known while values are made, by the numbers of the nodes: the pairs of the mappings whose
pairs have changed, the default keys that have become plain texts, and the values made so far, where a
collection has none; and the collections that wait to be entered. -/
structure Progress where
  pairs : List (Nat × Pairs) := []
  texts : List Nat := []
  values : List (Nat × Option Value) := []
  waiting : List Node := []

/-- A step on the way to the value of a file. -/
abbrev Making := StateT Progress (Except Fault)

/-- The pairs of a mapping by now, in terms of those that it is written with. -/
def Progress.pairsOf (p : Progress) (number : Nat) (written : Pairs) : Pairs :=
  (p.pairs.lookup number).getD written

/-- The kind of a node by now. -/
def Progress.kindOf (p : Progress) (n : Node) : Kind :=
  if n.number ∈ p.texts then .text else n.kind

/-- Changes the pairs of a mapping. -/
def setPairs (number : Nat) (pairs : Pairs) : Making Unit :=
  modify fun p => { p with pairs := (number, pairs) :: p.pairs }

namespace Document

variable (d : Document)

/-! ### Merging -/

/-- The node under the first merge key of a mapping, and the other pairs. -/
def takeMerge? : Pairs → Option (Node × Pairs)
  | [] => none
  | (key, value) :: rest =>
    if (d.resolve key).kind = .merge then some (value, rest)
    else (takeMerge? rest).map fun (found, others) => (found, (key, value) :: others)

/-- The pairs that a node gives to a mapping into which it is merged: those of a mapping, or of the
mappings in a sequence, the last one first. `flatten` merges a mapping first. -/
def mergedFrom (flatten : Node → Making Pairs) (n : Node) : Making Pairs := do
  match n with
  | .mapping _ _ _ => flatten n
  | .sequence _ _ items =>
    let parts ← items.mapM fun item =>
      match d.resolve item with
      | .mapping number kind pairs => flatten (.mapping number kind pairs)
      | _ => throw .malformed
    return parts.reverse.flatten
  | _ => throw .malformed

/-- Takes the merge keys out of a mapping, one after the other, and collects the pairs that they give
it; `fuel` bounds how many there are. A mapping that is merged into itself may lose more than one on
the way. -/
def takeMerges (flatten : Node → Making Pairs) (number : Nat) (written : Pairs) :
    (fuel : Nat) → Making Pairs
  | 0 => return []
  | fuel + 1 => do
    match d.takeMerge? ((← get).pairsOf number written) with
    | none => return []
    | some (value, others) =>
      setPairs number others
      let given ← d.mergedFrom flatten (d.resolve value)
      return given ++ (← takeMerges flatten number written fuel)

/-- The pairs of a mapping after all merges, those taken over in front; default keys among them become
plain texts. `depth` bounds how deep merges go. -/
def flatten : (depth : Nat) → Node → Making Pairs
  | 0, _ => throw .tooDeep
  | depth + 1, n => do
    match n with
    | .mapping number _ written =>
      let given ← d.takeMerges (flatten depth) number written written.length
      let pairs := given ++ (← get).pairsOf number written
      setPairs number pairs
      let keys := (pairs.map fun e => d.resolve e.1).filter (·.kind = .default)
      modify fun p => { p with texts := keys.map Node.number ++ p.texts }
      return pairs
    | _ => throw .malformed

/-! ### Values of nodes -/

/-- The text of a scalar; that of a mapping is the one under its default key. `depth` bounds how deep
it lies. -/
def scalarText : (depth : Nat) → Node → Making String
  | 0, _ => throw .tooDeep
  | depth + 1, n => do
    match n with
    | .scalar _ _ text => return text
    | .mapping number _ written =>
      let p ← get
      match (p.pairsOf number written).find? fun e => p.kindOf (d.resolve e.1) = .default with
      | some (_, value) => scalarText depth (d.resolve value)
      | none => throw .malformed
    | _ => throw .malformed

/-- Whether a kind is one of collections. -/
def isCollection (kind : Kind) : Bool :=
  kind ∈ [Kind.sequence, .mapping, .set, .orderedMapping, .pairs]

/-- Makes the value of a node that has none yet; a collection has to wait. -/
def makeNew (n : Node) : Making (Option Value) := do
  let kind := (← get).kindOf n
  if isCollection kind then
    modify fun p => { p with waiting := p.waiting ++ [n] }
    return none
  else if kind ∈ [Kind.merge, .default, .unknown] then throw .malformed
  else
    let text ← d.scalarText maxDepth n
    match n, kind with
    | .mapping _ _ _, .timestamp => throw .listForTime
    | _, kind => return some (← scalarValue kind text)

/-- Makes the value of a node, if it is not a collection. -/
def make (n : Node) : Making (Option Value) := do
  let n := d.resolve n
  match (← get).values.lookup n.number with
  | some v => return v
  | none =>
    let v ← d.makeNew n
    modify fun p => { p with values := (n.number, v) :: p.values }
    return v

/-! ### Entering collections -/

/-- Makes the values of a pair of a mapping, whose key is no collection. -/
def makePair (e : Node × Node) : Making Unit := do
  if (← d.make e.1).isNone then throw .malformed
  discard (d.make e.2)

/-- Makes the values of the single pair that an item of a sequence of pairs holds. -/
def makeSingle (item : Node) : Making Unit := do
  match d.resolve item with
  | .mapping number _ written =>
    match (← get).pairsOf number written with
    | [(key, value)] => discard (d.make key); discard (d.make value)
    | _ => throw .malformed
  | _ => throw .malformed

/-- Makes the values inside of a collection. -/
def enter (n : Node) : Making Unit := do
  match n.kind, n with
  | .sequence, .sequence _ _ items => items.forM fun item => discard (d.make item)
  | .mapping, .mapping _ _ _ | .set, .mapping _ _ _ => (← d.flatten maxDepth n).forM d.makePair
  | .orderedMapping, .sequence _ _ items | .pairs, .sequence _ _ items => items.forM d.makeSingle
  | _, _ => throw .malformed

/-- Enters the collections that wait and those that are met there; `fuel` bounds how many. -/
def enterAll : (fuel : Nat) → Making Unit
  | 0 => return
  | fuel + 1 => do
    match (← get).waiting with
    | [] => return
    | n :: waiting =>
      modify fun p => { p with waiting }
      d.enter n
      enterAll fuel

/-! ### The whole file -/

/-- Whether a collection is empty. -/
def isEmptyCollection (p : Progress) (n : Node) : Bool :=
  match n with
  | .sequence _ _ items => items.isEmpty
  | .mapping number _ written => (p.pairsOf number written).isEmpty
  | _ => true

/-- The value that was made for a node. -/
def valueIn (p : Progress) (n : Node) : Value :=
  let n := d.resolve n
  ((p.values.lookup n.number).join).getD (.collection (isEmptyCollection p n))

/-- Puts a value under a key; one that is there already keeps its place. -/
def putPair (key value : Value) : List (Value × Value) → List (Value × Value)
  | [] => [(key, value)]
  | (k, v) :: rest =>
    if k.isSameKey key then (k, value) :: rest else (k, v) :: putPair key value rest

/-- A mapping as fields under the texts of its keys. -/
def fieldsIn (p : Progress) (pairs : Pairs) : Except Fault (List (String × Datum)) := do
  let values := pairs.foldl (fun acc e => putPair (d.valueIn p e.1) (d.valueIn p e.2) acc) []
  values.mapM fun e => return (← e.1.fieldName, e.2.toDatum)

/-- What a document stands for. -/
def datum : Except Fault Datum := do
  let (_, p) ← (d.make d.root *> d.enterAll d.count).run {}
  match d.root.kind, d.root with
  | .mapping, .mapping number _ written => return .object (← d.fieldsIn p (p.pairsOf number written))
  | _, root => return (d.valueIn p root).toDatum

end Document

/-- What a settings file stands for: nothing, fields, or something else. Fields may have the same
name if their keys differ. -/
def read (text : String) : Except Fault Datum := do
  match ← compose text.toList with
  | none => return .null
  | some d => d.datum

end FiniteAutomata.Yaml
