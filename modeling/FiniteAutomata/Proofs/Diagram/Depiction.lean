import FiniteAutomata.Proofs.Diagram.Tables
import FiniteAutomata.Proofs.Producers.WellFormed

/-! # What the program of a diagram says

The draft of a drawable diagram is weighted, and coherent exactly if it has a start state and an
accept state; otherwise the one that is missing is reported (`Drawable.validate`). The program of a
diagram `Depicts` it: its tables hold the edges of the links and nothing else. As nothing else is
read off the links but the last start link, the order of the other links changes no more than the
order of tokens, destinations and alphabet (`Depicts.agrees`). `convert_depicts` says all of this
about the records of diagrams. -/

namespace FiniteAutomata.Diagram

open Draft

variable {d d' : Diagram} {asked : Option String} {mode : Mode} {p p' : Program}

/-! ### Edges and marks of the links -/

/-- Whether a link marks a start state. -/
def Link.isStart : Link → Bool
  | .start _ => true
  | _ => false

/-- A start state is asked for or marked by a link. -/
def HasStart (d : Diagram) (asked : Option String) : Prop :=
  asked = none → ∃ node, Link.start node ∈ d.links

/-- A node accepts. -/
def HasAccept (d : Diagram) : Prop := ∃ node ∈ d.nodes, node.accepting = true

theorem mem_labels_of_marked {start : String} (h : d.marked? = some start) : start ∈ d.labels := by
  obtain ⟨link, -, hlink⟩ := List.mem_filterMap.mp (List.mem_of_getLast? h)
  cases link with
  | start node => exact mem_of_labelAt? hlink
  | _ => cases hlink

theorem acceptLabels_sublist (d : Diagram) : d.acceptLabels.Sublist d.labels :=
  List.filter_sublist.map _

theorem acceptLabels_ne_nil_iff : d.acceptLabels ≠ [] ↔ d.HasAccept := by
  unfold acceptLabels HasAccept
  rw [Ne, List.map_eq_nil_iff, List.filter_eq_nil_iff]
  push Not
  rfl

/-- In a drawable diagram there is a start state exactly if one is asked for or marked. -/
theorem Drawable.isSome_start_iff (h : d.Drawable asked) :
    (asked.or d.marked?).isSome = true ↔ d.HasStart asked := by
  unfold HasStart
  cases asked with
  | some name => simp
  | none =>
    rw [Option.none_or, marked?, List.getLast?_isSome, Ne, List.filterMap_eq_nil_iff]
    push Not
    refine ⟨?_, fun hstart => ?_⟩
    · rintro ⟨link, hlink, hname⟩ -
      cases link with
      | start node => exact ⟨node, hlink⟩
      | _ => exact absurd rfl hname
    · obtain ⟨node, hnode⟩ := hstart rfl
      have hrange := h.inRange _ hnode node (List.mem_singleton_self node)
      refine ⟨_, hnode, fun hnone => labelAt?_eq_none_iff.mp hnone ?_⟩
      rwa [labels, List.length_map]

/-! ### The draft -/

theorem find?_draftOf (states : Dict String Table) (accept : List String) (start : Option String)
    (mode : Mode) :
    (draftOf states accept start mode).vars.find? "lang" = none ∧
      (draftOf states accept start mode).vars.find? "accept" = some (.array accept) ∧
      (draftOf states accept start mode).vars.find? "start" = start.map .literal ∧
      (draftOf states accept start mode).vars.find? "mode" = some (.literal mode.text) := by
  cases start <;> simp [draftOf, Dict.find?_insert]

theorem Drawable.keys_states (h : d.Drawable asked) :
    (d.drafted asked mode).states.keys = d.labels :=
  keys_tables h.distinct fun _ he => (mem_labels_of_mem_edges he).1

theorem Drawable.mem_states_iff (h : d.Drawable asked) {name : String} :
    name ∈ (d.drafted asked mode).states ↔ name ∈ d.labels := by
  rw [Dict.mem_iff_mem_keys, h.keys_states]

theorem Drawable.mem_labels_of_start (h : d.Drawable asked) {start : String}
    (hstart : asked.or d.marked? = some start) : start ∈ d.labels := by
  cases asked with
  | some name => exact h.asked start (by simpa using hstart)
  | none => exact mem_labels_of_marked (by simpa using hstart)

/-- The alphabet and the references of the draft are in order. -/
theorem Drawable.references (h : d.Drawable asked) (mode : Mode) :
    (∃ a, (d.drafted asked mode).resolveAlphabet = .ok a) ∧
      (d.drafted asked mode).checkReferences = .ok () := by
  obtain ⟨hlang, -, -, -⟩ := find?_draftOf (tables d.labels d.edges) d.acceptLabels
    (asked.or d.marked?) mode
  refine ⟨⟨_, resolveAlphabet_eq_ok_iff.mpr (Or.inl ⟨hlang, rfl, rfl⟩)⟩,
    checkReferences_eq_ok_iff.mpr fun s hs t ht x hx name hname => ?_⟩
  obtain ⟨e, he, htarget⟩ := (holds_tables d.labels d.edges).exists_target hs ht hx
  obtain rfl := Ref.named.inj (hname.symm.trans htarget)
  exact h.mem_states_iff.mpr (mem_labels_of_mem_edges he).2.1

/-- The program says what the diagram shows. Its states are the labels. A transition is that of a
link between two nodes or from a node to itself, with a text that is not blank; it has weight one,
and tokens and destinations stand in the order of the links. The accept states are the labels of
the nodes that accept; the start state is the one asked for, or else that of the last start link.
Nothing else is drafted. -/
structure Depicts (d : Diagram) (asked : Option String) (mode : Mode) (p : Program) : Prop where
  states : p.states.keys = d.labels
  transitions : ∀ source token ref, ref ∈ destinationsOn (p.table (.named source)) token ↔
    ∃ link ∈ d.links, ∃ target,
      link.edge? d.labels = some ⟨source, token, target⟩ ∧ ref = .named target
  holds : Holds p.states d.edges
  accept : p.accept = d.acceptLabels
  start : asked.or d.marked? = some p.start
  mode : p.mode = mode
  alphabet : p.alphabet = (tokenNames p.states.entries).eraseDups
  undeclared : p.declaresAlphabet = false
  draft : p.toDraft = draftOf p.states p.accept (some p.start) p.mode

/-- What a program says that the draft of a diagram describes. -/
theorem describes_draftOf {states : Dict String Table} {accept : List String}
    {start : Option String} (h : (draftOf states accept start mode).Describes p) :
    p.accept = accept.eraseDups ∧ start = some p.start ∧ p.mode = mode ∧
      p.alphabet = (tokenNames states.entries).eraseDups ∧ p.declaresAlphabet = false := by
  obtain ⟨hlang, haccept, hstart, hmode⟩ := find?_draftOf states accept start mode
  refine ⟨?_, ?_, ?_, ?_⟩
  · obtain ⟨items, hitems, heq⟩ := h.accept
    obtain rfl : accept = items := by simpa using haccept.symm.trans hitems
    exact heq
  · obtain ⟨state, hsome, heq⟩ := Option.map_eq_some_iff.mp (hstart.symm.trans h.start)
    obtain rfl := Setting.literal.inj heq
    exact hsome
  · rcases h.mode with ⟨hnone, -⟩ | hsome
    · cases hmode.symm.trans hnone
    · have htext : mode.text = p.mode.text := by simpa using hmode.symm.trans hsome
      rw [← Option.some.injEq, ← Mode.ofText?_eq_some_iff.mpr htext,
        Mode.ofText?_eq_some_iff.mpr rfl]
  · rcases h.alphabet with ⟨-, hdeclares, heq⟩ | ⟨items, hitems, -⟩
    · exact ⟨heq, hdeclares⟩
    · cases hlang.symm.trans hitems

theorem Drawable.depicts (h : d.Drawable asked) (hp : (d.drafted asked mode).Resolves p) :
    Depicts d asked mode p := by
  have hd := hp.describes
  obtain ⟨haccept, hstart, hmode, halphabet, hundeclared⟩ := describes_draftOf hd
  -- no label comes twice, so no accept state is dropped
  rw [eraseDups_eq_self_iff.mpr (h.distinct.sublist d.acceptLabels_sublist)] at haccept
  have hholds : Holds p.states d.edges := hd.states ▸ holds_tables d.labels d.edges
  refine ⟨hd.states ▸ h.keys_states, fun source token ref => ?_, hholds, haccept, hstart, hmode,
    hd.states ▸ halphabet, hundeclared, ?_⟩
  · rw [show p.table (.named source) = tableAt p.states source from rfl, hholds.mem_destinations]
    simp only [edges, List.mem_filterMap]
    constructor
    · rintro ⟨e, ⟨link, hlink, hedge⟩, rfl, rfl, rfl⟩
      exact ⟨link, hlink, e.target, hedge, rfl⟩
    · rintro ⟨link, hlink, target, hedge, rfl⟩
      exact ⟨_, ⟨link, hlink, hedge⟩, rfl, rfl, rfl⟩
  · rw [Program.toDraft, hd.states, hd.commands, hd.vars, haccept, hmode, ← hstart]
    rfl

theorem Drawable.toDraft (h : d.Drawable asked) (mode : Mode) :
    d.toDraft asked mode = .ok (d.drafted asked mode) := toDraft_eq_ok_iff.mpr ⟨h, rfl⟩

theorem Drawable.weighted (h : d.Drawable asked) : (d.drafted asked mode).Weighted := by
  intro s hs t ht
  have hset := (((proper_of_toDraft (h.toDraft mode)).states s hs).2 t ht).2
  exact ⟨hset.nonempty, fun e he => isWeight_iff.mp (hset.entries e he).2⟩

theorem Drawable.resolveStart (h : d.Drawable asked) {start : String}
    (hstart : asked.or d.marked? = some start) :
    (d.drafted asked mode).resolveStart = .ok start := by
  obtain ⟨-, -, hfind, -⟩ := find?_draftOf (tables d.labels d.edges) d.acceptLabels
    (asked.or d.marked?) mode
  have hlabel := h.mem_labels_of_start hstart
  exact resolveStart_eq_ok_iff.mpr ⟨hfind.trans (congrArg _ hstart),
    isReserved_eq_false_iff.mpr (h.labelled start hlabel).2, h.mem_states_iff.mpr hlabel⟩

/-- **What validation comes to for a drawable diagram**: what is missing is reported, the start
state before the accept states; if neither is missing there is a program, and it depicts the
diagram. -/
theorem Drawable.validate (h : d.Drawable asked) (mode : Mode) :
    (¬ d.HasStart asked → (d.drafted asked mode).validate = .error .noStart) ∧
      (d.HasStart asked → ¬ d.HasAccept →
        (d.drafted asked mode).validate = .error .emptyAccept) ∧
      (d.HasStart asked → d.HasAccept →
        ∃ p, (d.drafted asked mode).validate = .ok p ∧ Depicts d asked mode p) := by
  obtain ⟨⟨a, halphabet⟩, hreferences⟩ := h.references mode
  obtain ⟨-, haccept, hstart, hmode⟩ := find?_draftOf (tables d.labels d.edges) d.acceptLabels
    (asked.or d.marked?) mode
  rw [← h.isSome_start_iff, ← acceptLabels_ne_nil_iff, not_not]
  refine ⟨fun hnone => ?_, fun hsome hnil => ?_, fun hsome hne => ?_⟩
  · rw [Bool.not_eq_true, Option.isSome_eq_false_iff, Option.isNone_iff_eq_none] at hnone
    have hresolve : (d.drafted asked mode).resolveStart = .error .noStart := by
      rw [hnone] at hstart
      unfold Draft.resolveStart drafted
      rw [hnone, hstart]
      rfl
    simp only [Draft.validate, halphabet, hreferences, hresolve, bind, Except.bind]
  · obtain ⟨start, hstart⟩ := Option.isSome_iff_exists.mp hsome
    have hresolve : (d.drafted asked mode).resolveAccept = .error .emptyAccept := by
      unfold resolveAccept drafted
      rw [haccept, hnil]
      rfl
    simp only [Draft.validate, halphabet, hreferences, h.resolveStart hstart, hresolve, bind,
      Except.bind]
  · obtain ⟨start, hstart⟩ := Option.isSome_iff_exists.mp hsome
    have hcoherent : (d.drafted asked mode).Coherent := nonempty_parts_iff.mp ⟨{
      alphabet := a.1, declared := a.2, start, accept := d.acceptLabels.eraseDups, mode
      alphabet_eq := halphabet
      references_eq := hreferences
      start_eq := h.resolveStart hstart
      accept_eq := resolveAccept_eq_ok_iff.mpr ⟨_, haccept, hne, fun state hstate =>
        ⟨isReserved_eq_false_iff.mpr (h.labelled state (d.acceptLabels_sublist.mem hstate)).2,
          h.mem_states_iff.mpr (d.acceptLabels_sublist.mem hstate)⟩, rfl⟩
      mode_eq := resolveMode_eq_ok_iff.mpr (Or.inr hmode) }⟩
    rcases hcoherent.validate with ⟨-, p, hp⟩ | ⟨hno, -⟩
    · exact ⟨p, hp, h.depicts (validate_eq_ok_iff.mp hp)⟩
    · exact absurd h.weighted hno

/-! ### Links in another order -/

/-- The same nodes, with the links in another order in which the start links stand as before. -/
structure Rearranged (d d' : Diagram) : Prop where
  nodes : d'.nodes = d.nodes
  links : d'.links.Perm d.links
  starts : d'.links.filter Link.isStart = d.links.filter Link.isStart

namespace Rearranged

theorem labels (h : Rearranged d d') : d'.labels = d.labels := by
  rw [Diagram.labels, h.nodes, ← Diagram.labels]

theorem acceptLabels (h : Rearranged d d') : d'.acceptLabels = d.acceptLabels := by
  rw [Diagram.acceptLabels, h.nodes, ← Diagram.acceptLabels]

theorem edges (h : Rearranged d d') : d'.edges.Perm d.edges := by
  rw [Diagram.edges, h.labels]
  exact h.links.filterMap _

theorem marked (h : Rearranged d d') : d'.marked? = d.marked? := by
  -- only start links mark a state, so the others can be left out
  have hstarts : ∀ (names : List String) (links : List Link),
      links.filterMap (Link.start? names) =
        (links.filter Link.isStart).filterMap (Link.start? names) := by
    intro names links
    rw [List.filterMap_filter]
    congr 1
    funext link
    cases link <;> rfl
  rw [marked?, h.labels, hstarts, h.starts, ← hstarts, ← marked?]

theorem drawable (h : Rearranged d d') (hd : d.Drawable asked) : d'.Drawable asked where
  labelled := h.labels ▸ hd.labelled
  distinct := h.labels ▸ hd.distinct
  inRange := by
    intro link hlink i hi
    rw [h.nodes]
    exact hd.inRange link (h.links.mem_iff.mp hlink) i hi
  asked := h.labels ▸ hd.asked

theorem hasStart (h : Rearranged d d') (hd : d.HasStart asked) : d'.HasStart asked :=
  fun hnone => (hd hnone).imp fun _ hnode => h.links.mem_iff.mpr hnode

theorem hasAccept (h : Rearranged d d') (hd : d.HasAccept) : d'.HasAccept := by
  unfold HasAccept
  rwa [h.nodes]

end Rearranged

/-- Another order of the links changes no more than the order of the alphabet and within the
tables. -/
theorem Depicts.agrees (hp : Depicts d asked mode p) (hp' : Depicts d' asked mode p')
    (h : Rearranged d d') :
    p'.alphabet.Perm p.alphabet ∧ ({ p' with alphabet := p.alphabet } : Program).agrees p = true := by
  have hkeys : p'.states.keys.Perm p.states.keys := by rw [hp'.states, hp.states, h.labels]
  have haccept : p'.accept = p.accept := by rw [hp'.accept, hp.accept, h.acceptLabels]
  have hstart : p'.start = p.start := by
    rw [← Option.some.injEq, ← hp'.start, ← hp.start, h.marked]
  have hmode : p'.mode = p.mode := by rw [hp'.mode, hp.mode]
  have hcommands : p'.commands = p.commands :=
    (congrArg Draft.commands hp'.draft).trans (congrArg Draft.commands hp.draft).symm
  have hvars : p'.vars = p.vars := by
    refine (congrArg Draft.vars hp'.draft).trans ?_
    rw [haccept, hstart, hmode]
    exact (congrArg Draft.vars hp.draft).symm
  refine ⟨?_, Listing.agrees_iff.mpr ⟨rfl, hp'.holds.agrees hp.holds h.edges hkeys, hstart, haccept,
    hmode, ?_, ?_, ?_⟩⟩
  · rw [hp'.alphabet, hp.alphabet]
    refine (List.perm_ext_iff_of_nodup (nodup_eraseDups _) (nodup_eraseDups _)).mpr fun name => ?_
    rw [List.mem_eraseDups, List.mem_eraseDups, hp'.holds.mem_tokenNames, hp.holds.mem_tokenNames]
    simp only [h.edges.mem_iff]
  · rw [Program.commandsAgree, hcommands]
    exact Dict.agrees_self fun _ _ => by simp
  · rw [Program.varsAgree, hvars]
    exact Dict.agrees_self fun _ _ => by simp
  · exact hp'.undeclared.trans hp.undeclared.symm

/-! ### Records of diagrams -/

section Records

variable {datum : Datum}

theorem convert_of_not_drawable (hd : ofDatum datum = .ok d) (h : ¬ d.Drawable asked) :
    ∃ e, convert datum asked mode = .error (.drafting e) := by
  rcases toDraft_cases d asked mode with ⟨hdraw, -⟩ | ⟨-, e, he⟩
  · exact absurd hdraw h
  · exact ⟨e, by simp only [convert, hd, toProgram, he, Except.mapError, bind, Except.bind]⟩

theorem convert_of_drawable (hd : ofDatum datum = .ok d) (h : d.Drawable asked) :
    convert datum asked mode = (d.drafted asked mode).validate.mapError .inconsistent := by
  simp only [convert, hd, toProgram, h.toDraft mode, Except.mapError, bind, Except.bind]

theorem exists_depicts_of_convert (hd : ofDatum datum = .ok d) (h : d.Drawable asked)
    (hstart : d.HasStart asked) (haccept : d.HasAccept) (mode : Mode) :
    ∃ p, convert datum asked mode = .ok p ∧ Depicts d asked mode p := by
  obtain ⟨p, hp, hdepicts⟩ := (h.validate mode).2.2 hstart haccept
  exact ⟨p, by rw [convert_of_drawable hd h, hp]; rfl, hdepicts⟩

/-- **Import neither loses nor invents transitions.** A record of a diagram gives a program exactly
if the diagram is drawable, has a start state and a node that accepts. What makes it not drawable is
an error of the import, and what is missing from a drawable diagram is reported by validation. The
program depicts the diagram, and any record of the same nodes and links, in which the start links
stand in the same order, gives the same program up to the order of its dictionaries and of its
alphabet. -/
theorem convert_depicts (hd : ofDatum datum = .ok d) (asked : Option String)
    (mode : Mode) :
    ((∃ p, convert datum asked mode = .ok p) ↔
        d.Drawable asked ∧ d.HasStart asked ∧ d.HasAccept) ∧
      (¬ d.Drawable asked → ∃ e, convert datum asked mode = .error (.drafting e)) ∧
      (d.Drawable asked → ¬ d.HasStart asked →
        convert datum asked mode = .error (.inconsistent .noStart)) ∧
      (d.Drawable asked → d.HasStart asked → ¬ d.HasAccept →
        convert datum asked mode = .error (.inconsistent .emptyAccept)) ∧
      ∀ p, convert datum asked mode = .ok p → Depicts d asked mode p ∧
        ∀ datum' d', ofDatum datum' = .ok d' → Rearranged d d' →
          ∃ p', convert datum' asked mode = .ok p' ∧ p'.alphabet.Perm p.alphabet ∧
            ({ p' with alphabet := p.alphabet } : Program).agrees p = true := by
  have hundrawn : ¬ d.Drawable asked → ∃ e, convert datum asked mode = .error (.drafting e) :=
    convert_of_not_drawable hd
  have hnostart : d.Drawable asked → ¬ d.HasStart asked →
      convert datum asked mode = .error (.inconsistent .noStart) := by
    intro h hstart
    rw [convert_of_drawable hd h, (h.validate mode).1 hstart]
    rfl
  have hnoaccept : d.Drawable asked → d.HasStart asked → ¬ d.HasAccept →
      convert datum asked mode = .error (.inconsistent .emptyAccept) := by
    intro h hstart haccept
    rw [convert_of_drawable hd h, (h.validate mode).2.1 hstart haccept]
    rfl
  -- a program is given in no other case, as each of the others has its error
  have hconditions : ∀ p, convert datum asked mode = .ok p →
      d.Drawable asked ∧ d.HasStart asked ∧ d.HasAccept := by
    intro p hp
    by_cases h : d.Drawable asked
    · by_cases hstart : d.HasStart asked
      · by_cases haccept : d.HasAccept
        · exact ⟨h, hstart, haccept⟩
        · cases hp.symm.trans (hnoaccept h hstart haccept)
      · cases hp.symm.trans (hnostart h hstart)
    · obtain ⟨e, he⟩ := hundrawn h
      cases hp.symm.trans he
  refine ⟨⟨fun ⟨p, hp⟩ => hconditions p hp, fun ⟨h, hstart, haccept⟩ => ?_⟩, hundrawn, hnostart,
    hnoaccept, fun p hp => ?_⟩
  · obtain ⟨p, hp, -⟩ := exists_depicts_of_convert hd h hstart haccept mode
    exact ⟨p, hp⟩
  · obtain ⟨h, hstart, haccept⟩ := hconditions p hp
    have hdepicts : Depicts d asked mode p := by
      obtain ⟨q, hq, hdepicts⟩ := exists_depicts_of_convert hd h hstart haccept mode
      obtain rfl := Except.ok.inj (hp.symm.trans hq)
      exact hdepicts
    refine ⟨hdepicts, fun datum' d' hd' hr => ?_⟩
    obtain ⟨p', hp', hdepicts'⟩ := exists_depicts_of_convert hd' (hr.drawable h)
      (hr.hasStart hstart) (hr.hasAccept haccept) mode
    exact ⟨p', hp', hdepicts.agrees hdepicts' hr⟩

end Records

/-- A diagram with two nodes. Two links share source and text, two go between the same nodes on
the same text, one has a blank text and one a reserved text, and two links mark a start state. -/
def crossing : Diagram where
  nodes := [⟨" a ", false⟩, ⟨"b", true⟩]
  links := [.start 1, .between 0 1 "y", .loop 0 " ", .loop 1 "null", .start 0, .loop 0 " y",
    .between 0 1 "y "]

/-- The diagram of `crossing` with the links from last to first, but for the start links. -/
def crossingReversed : Diagram where
  nodes := crossing.nodes
  links := [.between 0 1 "y ", .loop 0 " y", .start 1, .loop 1 "null", .start 0, .loop 0 " ",
    .between 0 1 "y"]

/-- The record of a link. -/
def linkRecord : Link → Datum
  | .between source target text => .object
    [("type", .text "Link"), ("nodeA", .int source), ("nodeB", .int target), ("text", .text text)]
  | .loop node text => .object
    [("type", .text "SelfLink"), ("node", .int node), ("text", .text text)]
  | .start node => .object [("type", .text "StartLink"), ("node", .int node)]

/-- The record of a diagram. -/
def diagramRecord (d : Diagram) : Datum :=
  .object [("nodes", .list (d.nodes.map fun node => nodeRecord node.label node.accepting)),
    ("links", .list (d.links.map linkRecord))]

/-- The program of `crossing`. -/
def crossingProgram : Program where
  alphabet := ["y"]
  states := Dict.ofList
    [("a", Dict.ofList [(.named "y", Dict.ofList [(.named "b", 1), (.named "a", 1)])]),
      ("b", Dict.ofList [(.null, Dict.ofList [(.named "b", 1)])])]
  start := "a"
  accept := ["b"]
  mode := .nfa
  vars := Dict.ofList
    [("accept", .array ["b"]), ("start", .literal "a"), ("mode", .literal "NFA")]

theorem convert_depicts_crossing :
    ofDatum (diagramRecord crossing) = .ok crossing ∧
      ofDatum (diagramRecord crossingReversed) = .ok crossingReversed ∧
      Rearranged crossing crossingReversed ∧
      convert (diagramRecord crossing) none .nfa = .ok crossingProgram ∧
      Depicts crossing none .nfa crossingProgram ∧
      ∃ p, convert (diagramRecord crossingReversed) none .nfa = .ok p ∧
        p.alphabet.Perm crossingProgram.alphabet ∧
        ({ p with alphabet := crossingProgram.alphabet } : Program).agrees crossingProgram = true := by
  have hrecord : ofDatum (diagramRecord crossing) = .ok crossing := rfl
  have hreversed : ofDatum (diagramRecord crossingReversed) = .ok crossingReversed := rfl
  have hrearranged : Rearranged crossing crossingReversed := ⟨rfl, by decide, rfl⟩
  have hconvert : convert (diagramRecord crossing) none .nfa = .ok crossingProgram := rfl
  obtain ⟨-, -, -, -, hdepicts⟩ := convert_depicts hrecord none .nfa
  obtain ⟨hpicture, hothers⟩ := hdepicts crossingProgram hconvert
  exact ⟨hrecord, hreversed, hrearranged, hconvert, hpicture, hothers _ _ hreversed hrearranged⟩

end FiniteAutomata.Diagram
