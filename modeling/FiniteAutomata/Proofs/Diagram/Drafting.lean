import FiniteAutomata.Diagram.Import
import FiniteAutomata.Proofs.Producers.Consistency

/-! # When a diagram can be drafted

What a diagram shows is read off its nodes and links alone: the labels, the edges of the links with
a text (`edges`), the state that the last start link marks (`marked?`), and the labels of the nodes
that accept. A diagram is `Drawable` if its labels can name states, its links refer to nodes, and a
start state that is asked for is one of the labels. Drafting succeeds exactly for these diagrams,
and then drafts the edges one after the other (`toDraft_cases`, `toDraft_eq_ok_iff`). -/

namespace FiniteAutomata.Diagram

/-! ### What a diagram shows -/

/-- The labels of the nodes without the blanks around them. -/
def labels (d : Diagram) : List String := d.nodes.map Node.name

/-- The label of the node with an index. -/
def labelAt? (labels : List String) : Int → Option String
  | .ofNat n => labels[n]?
  | .negSucc _ => none

/-- The indices of the nodes that a link refers to. -/
def Link.ends : Link → List Int
  | .between source target _ => [source, target]
  | .loop node _ => [node]
  | .start node => [node]

/-- A transition between states. -/
structure Edge where
  source : String
  token : Token
  target : String
deriving DecidableEq, Repr

/-- The transition on a text without the blanks around it; there is none if nothing is left. -/
def Edge.ofText? (source text target : String) : Option Edge :=
  let token := Text.trim text.toList
  if token = [] then none else some ⟨source, .ofLexeme (String.ofList token), target⟩

/-- The transition that a link between nodes, or from a node to itself, stands for. -/
def Link.edge? (labels : List String) : Link → Option Edge
  | .between source target text =>
    (labelAt? labels source).bind fun s =>
      (labelAt? labels target).bind fun t => Edge.ofText? s text t
  | .loop node text => (labelAt? labels node).bind fun s => Edge.ofText? s text s
  | .start _ => none

/-- The state that a start link marks. -/
def Link.start? (labels : List String) : Link → Option String
  | .start node => labelAt? labels node
  | _ => none

/-- The transitions of a diagram, in the order of the links. -/
def edges (d : Diagram) : List Edge := d.links.filterMap (Link.edge? d.labels)

/-- The state that the last start link marks. -/
def marked? (d : Diagram) : Option String := (d.links.filterMap (Link.start? d.labels)).getLast?

/-- The labels of the nodes that accept. -/
def acceptLabels (d : Diagram) : List String := (d.nodes.filter (·.accepting)).map Node.name

/-- The labels are non-empty, not reserved and pairwise different, every index that a link uses is
that of a node, and a start state that is asked for is one of the labels. -/
structure Drawable (d : Diagram) (asked : Option String) : Prop where
  labelled : ∀ name ∈ d.labels, name ≠ "" ∧ name ≠ "null" ∧ name ≠ "\\phi"
  distinct : d.labels.Nodup
  inRange : ∀ link ∈ d.links, ∀ i ∈ link.ends, 0 ≤ i ∧ i < d.nodes.length
  asked : ∀ name, asked = some name → name ∈ d.labels

/-! ### The ends of the edges -/

theorem mem_of_labelAt? {names : List String} {i : Int} {name : String}
    (h : labelAt? names i = some name) : name ∈ names := by
  cases i with
  | ofNat n => exact List.mem_of_getElem? h
  | negSucc n => cases h

theorem Edge.of_ofText? {source text target : String} {e : Edge}
    (h : Edge.ofText? source text target = some e) :
    e.source = source ∧ e.target = target ∧ ∃ lexeme, e.token = .ofLexeme lexeme := by
  unfold Edge.ofText? at h
  dsimp only at h
  split_ifs at h
  cases h
  exact ⟨rfl, rfl, _, rfl⟩

/-- An edge goes from a label to a label, on the token that a text stands for. -/
theorem mem_labels_of_mem_edges {d : Diagram} {e : Edge} (h : e ∈ d.edges) :
    e.source ∈ d.labels ∧ e.target ∈ d.labels ∧ ∃ lexeme, e.token = .ofLexeme lexeme := by
  obtain ⟨link, -, hlink⟩ := List.mem_filterMap.mp h
  cases link with
  | start node => cases hlink
  | loop node text =>
    obtain ⟨s, hs, hedge⟩ := Option.bind_eq_some_iff.mp hlink
    obtain ⟨hsource, htarget, htoken⟩ := Edge.of_ofText? hedge
    exact ⟨hsource ▸ mem_of_labelAt? hs, htarget ▸ mem_of_labelAt? hs, htoken⟩
  | between source target text =>
    obtain ⟨s, hs, hlink⟩ := Option.bind_eq_some_iff.mp hlink
    obtain ⟨t, ht, hedge⟩ := Option.bind_eq_some_iff.mp hlink
    obtain ⟨hsource, htarget, htoken⟩ := Edge.of_ofText? hedge
    exact ⟨hsource ▸ mem_of_labelAt? hs, htarget ▸ mem_of_labelAt? ht, htoken⟩

/-! ### Names of the nodes -/

theorem namesFrom_eq_ok_iff : ∀ {nodes : List Node} {before names : List String} {index : Nat},
    before.Nodup → (namesFrom before index nodes = .ok names ↔
      names = before ++ nodes.map Node.name ∧
        (∀ node ∈ nodes, node.name ≠ "" ∧ isReserved node.name = false) ∧
        (before ++ nodes.map Node.name).Nodup)
  | [], before, names, index, hbefore => by
    rw [namesFrom, Except.ok.injEq, List.map_nil, List.append_nil]
    exact ⟨fun h => ⟨h.symm, by simp, hbefore⟩, fun h => h.1.symm⟩
  | node :: nodes, before, names, index, hbefore => by
    unfold namesFrom
    dsimp only
    split_ifs with hempty hreserved hrepeated
    · have hname : node.name = "" := String.isEmpty_iff.mp hempty
      simp [hname]
    · simp [hreserved]
    · -- the name comes once before this node and once with it
      have hdup : ¬ (before ++ (node :: nodes).map Node.name).Nodup := by
        intro h
        exact List.disjoint_of_nodup_append h hrepeated (by simp)
      simp [-List.map_cons, hdup]
    · have hname : node.name ≠ "" ∧ isReserved node.name = false :=
        ⟨fun h => hempty (by simp [h]), by simpa using hreserved⟩
      have hnodup : (before ++ [node.name]).Nodup :=
        hbefore.append (List.nodup_singleton _) (by simpa using hrepeated)
      rw [namesFrom_eq_ok_iff hnodup, List.append_assoc, List.singleton_append, List.map_cons,
        List.forall_mem_cons]
      exact and_congr_right fun _ => and_congr_left fun _ => (and_iff_right hname).symm

/-- **The nodes have names** exactly if the labels can name states; the names are the labels. -/
theorem names_eq_ok_iff {d : Diagram} {names : List String} : d.names = .ok names ↔
    names = d.labels ∧ (∀ name ∈ d.labels, name ≠ "" ∧ name ≠ "null" ∧ name ≠ "\\phi") ∧
      d.labels.Nodup := by
  unfold Diagram.names labels
  rw [namesFrom_eq_ok_iff List.nodup_nil, List.nil_append]
  simp only [List.forall_mem_map, isReserved_eq_false_iff]

/-! ### Arrows of the links -/

/-- The transition of an arrow. -/
def Arrow.edge? : Arrow → Option Edge
  | .transition source target token => some ⟨source, token, target⟩
  | _ => none

/-- The state that an arrow marks as the start. -/
def Arrow.start? : Arrow → Option String
  | .start state => some state
  | _ => none

theorem Arrow.edge?_ofText (source target text : String) :
    (Arrow.ofText source target text).edge? = Edge.ofText? source text target := by
  unfold Arrow.ofText Edge.ofText?
  simp only [List.isEmpty_iff]
  split_ifs <;> rfl

theorem Arrow.start?_ofText (source target text : String) :
    (Arrow.ofText source target text).start? = none := by
  unfold Arrow.ofText
  dsimp only
  split_ifs <;> rfl

section Links

variable {names : List String}

theorem labelAt?_eq_none_iff {i : Int} :
    labelAt? names i = none ↔ ¬ (0 ≤ i ∧ i < names.length) := by
  cases i with
  | ofNat n => simp [labelAt?]
  | negSucc n => simp [labelAt?]

theorem nameAt_eq (role : Role) (link : Nat) (i : Int) : nameAt names role link i =
    match labelAt? names i with
    | some name => .ok name
    | none => .error (.outOfBounds role link i) := by
  cases i with
  | ofNat n => cases hname : names[n]? <;> simp [nameAt, labelAt?, hname]
  | negSucc n => rfl

/-- **A link resolves** exactly if it refers to nodes, to an arrow with its transition or its mark. -/
theorem Link.resolve_cases (names : List String) (link : Link) (index : Nat) :
    ((∀ i ∈ link.ends, 0 ≤ i ∧ i < names.length) ∧ ∃ arrow, link.resolve names index = .ok arrow ∧
        arrow.edge? = link.edge? names ∧ arrow.start? = link.start? names) ∨
      (¬ ∀ i ∈ link.ends, 0 ≤ i ∧ i < names.length) ∧ ∃ e, link.resolve names index = .error e := by
  have hsome : ∀ {i : Int} {name : String}, labelAt? names i = some name →
      0 ≤ i ∧ i < names.length := by
    intro i name h
    by_contra hrange
    rw [labelAt?_eq_none_iff.mpr hrange] at h
    cases h
  cases link with
  | start node =>
    simp only [ends, List.forall_mem_singleton, resolve, nameAt_eq, edge?, start?]
    cases hn : labelAt? names node with
    | none => exact Or.inr ⟨labelAt?_eq_none_iff.mp hn, _, rfl⟩
    | some name => exact Or.inl ⟨hsome hn, _, rfl, rfl, rfl⟩
  | loop node text =>
    simp only [ends, List.forall_mem_singleton, resolve, nameAt_eq, edge?, start?]
    cases hn : labelAt? names node with
    | none => exact Or.inr ⟨labelAt?_eq_none_iff.mp hn, _, rfl⟩
    | some name =>
      exact Or.inl ⟨hsome hn, _, rfl, Arrow.edge?_ofText .., Arrow.start?_ofText ..⟩
  | between source target text =>
    rw [ends, List.forall_mem_cons, List.forall_mem_singleton]
    simp only [resolve, nameAt_eq, edge?, start?]
    cases hs : labelAt? names source with
    | none => exact Or.inr ⟨fun h => labelAt?_eq_none_iff.mp hs h.1, _, rfl⟩
    | some s =>
      cases ht : labelAt? names target with
      | none => exact Or.inr ⟨fun h => labelAt?_eq_none_iff.mp ht h.2, _, rfl⟩
      | some t =>
        exact Or.inl ⟨⟨hsome hs, hsome ht⟩, _, rfl, Arrow.edge?_ofText .., Arrow.start?_ofText ..⟩

/-- **Links resolve** exactly if all of them refer to nodes. -/
theorem resolveFrom_cases (names : List String) : ∀ (links : List Link) (index : Nat),
    ((∀ link ∈ links, ∀ i ∈ link.ends, 0 ≤ i ∧ i < names.length) ∧ ∃ arrows,
        resolveFrom names index links = (arrows, none) ∧
          arrows.filterMap Arrow.edge? = links.filterMap (Link.edge? names) ∧
          arrows.filterMap Arrow.start? = links.filterMap (Link.start? names)) ∨
      (¬ ∀ link ∈ links, ∀ i ∈ link.ends, 0 ≤ i ∧ i < names.length) ∧
        ∃ arrows e, resolveFrom names index links = (arrows, some e)
  | [], _ => Or.inl ⟨by simp, [], rfl, rfl, rfl⟩
  | link :: links, index => by
    rw [resolveFrom, List.forall_mem_cons]
    rcases link.resolve_cases names index with
      ⟨hlink, arrow, harrow, hedge, hstart⟩ | ⟨hlink, e, he⟩
    · rcases resolveFrom_cases names links (index + 1) with
        ⟨hlinks, arrows, harrows, hedges, hstarts⟩ | ⟨hlinks, arrows, e, he⟩
      · refine Or.inl ⟨⟨hlink, hlinks⟩, arrow :: arrows, by rw [harrow, harrows], ?_, ?_⟩
        · rw [List.filterMap_cons, List.filterMap_cons, hedge, hedges]
        · rw [List.filterMap_cons, List.filterMap_cons, hstart, hstarts]
      · exact Or.inr ⟨fun h => hlinks h.2, arrow :: arrows, e, by rw [harrow, he]⟩
    · exact Or.inr ⟨fun h => hlink h.1, [], e, by rw [he]⟩

end Links

/-- The state that is marked last is that of the last start arrow. -/
theorem lastStart?_eq (arrows : List Arrow) :
    lastStart? arrows = (arrows.filterMap Arrow.start?).getLast? := by
  unfold lastStart?
  induction arrows using List.reverseRecOn with
  | nil => rfl
  | append_singleton arrows arrow ih =>
    rw [List.foldl_append, ih, List.filterMap_append, List.foldl_cons, List.foldl_nil]
    cases arrow <;> simp [Arrow.start?]

/-! ### The draft -/

/-- Adds a transition of weight one to tables. -/
def addEdge (states : Dict String Table) (e : Edge) : Dict String Table :=
  addArrow states (.transition e.source e.target e.token)

/-- The tables of states with no transitions but the given ones. -/
def tables (names : List String) (es : List Edge) : Dict String Table :=
  es.foldl addEdge (Dict.ofList (names.map fun name => (name, ∅)))

theorem foldl_addArrow (arrows : List Arrow) (states : Dict String Table) :
    arrows.foldl addArrow states = (arrows.filterMap Arrow.edge?).foldl addEdge states := by
  rw [List.foldl_filterMap]
  congr 1
  funext states arrow
  cases arrow <;> rfl

/-- The draft of what a diagram shows. -/
def drafted (d : Diagram) (asked : Option String) (mode : Mode) : Draft :=
  draftOf (tables d.labels d.edges) d.acceptLabels (asked.or d.marked?) mode

theorem acceptLabels_eq (d : Diagram) :
    ((d.labels.zip d.nodes).filter (·.2.accepting)).map (·.1) = d.acceptLabels := by
  unfold labels acceptLabels
  induction d.nodes with
  | nil => rfl
  | cons node nodes ih =>
    rw [List.map_cons, List.zip_cons_cons, List.filter_cons, List.filter_cons]
    cases node.accepting <;> simp [ih]

theorem chooseStart_eq {names : List String} {marked asked : Option String}
    (h : ∀ name, asked = some name → name ∈ names) :
    chooseStart names marked asked = .ok (asked.or marked) := by
  cases asked with
  | none => rfl
  | some name => simp [chooseStart, h name rfl]

/-- **Drafting succeeds exactly for a drawable diagram**, and drafts what it shows. -/
theorem toDraft_cases (d : Diagram) (asked : Option String) (mode : Mode) :
    (d.Drawable asked ∧ d.toDraft asked mode = .ok (d.drafted asked mode)) ∨
      ¬ d.Drawable asked ∧ ∃ e, d.toDraft asked mode = .error e := by
  have hlength : d.labels.length = d.nodes.length := List.length_map _
  unfold toDraft
  rcases hn : d.names with e | names
  · refine Or.inr ⟨fun h => ?_, e, rfl⟩
    rw [names_eq_ok_iff.mpr ⟨rfl, h.labelled, h.distinct⟩] at hn
    cases hn
  obtain ⟨rfl, hlabelled, hdistinct⟩ := names_eq_ok_iff.mp hn
  rcases resolveFrom_cases d.labels d.links 0 with
    ⟨hrange, arrows, harrows, hedges, hstarts⟩ | ⟨hrange, arrows, e, he⟩
  · rw [hlength] at hrange
    by_cases hasked : ∀ name, asked = some name → name ∈ d.labels
    · refine Or.inl ⟨⟨hlabelled, hdistinct, hrange, hasked⟩, ?_⟩
      simp only [bind, Except.bind, harrows, chooseStart_eq hasked, pure, Except.pure,
        lastStart?_eq, hstarts, foldl_addArrow, hedges, acceptLabels_eq]
      rfl
    · refine Or.inr ⟨fun h => hasked h.asked, ?_⟩
      push Not at hasked
      obtain ⟨name, rfl, hname⟩ := hasked
      refine ⟨.unknownStart name, ?_⟩
      simp only [bind, Except.bind, harrows, chooseStart, hname, if_false]
  · rw [hlength] at hrange
    exact Or.inr ⟨fun h => hrange h.inRange, e, by simp only [bind, Except.bind, he]; rfl⟩

theorem toDraft_eq_ok_iff {d : Diagram} {asked : Option String} {mode : Mode} {draft : Draft} :
    d.toDraft asked mode = .ok draft ↔ d.Drawable asked ∧ draft = d.drafted asked mode := by
  rcases toDraft_cases d asked mode with ⟨hdraw, hok⟩ | ⟨hno, e, he⟩
  · simp [hok, hdraw, eq_comm]
  · simp [he, hno]

end FiniteAutomata.Diagram
