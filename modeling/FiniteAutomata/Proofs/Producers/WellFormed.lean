import FiniteAutomata.Proofs.Listing.Sources

/-! # Sources give well-formed programs

What reading a listing and importing a diagram draft is proper: no name is reserved, destination
sets are not empty, and their weights are positive and finite (`proper_of_legible`,
`proper_of_toDraft`). Of a proper draft validation finds all flaws before its last check, and the
program that it gives is well-formed (`Program.WellFormed`). Another mode changes nothing of this
(`Sourced.proper`). -/

namespace FiniteAutomata

/-! ### Well-formed programs -/

/-- A program as every source gives it. It is valid, has accept states and lists each once, reserves
the spellings of the sentinels, attaches commands to its states only, and its alphabet is closed and
without repetitions; it is declared if `lang` is assigned, and else consists of the tokens that are
names in order of first use. -/
structure Program.WellFormed (p : Program) : Prop extends p.Valid where
  accept_ne_nil : p.accept ≠ []
  accept_nodup : p.accept.Nodup
  states : ∀ name ∈ p.states, isReserved name = false
  tokens : ∀ s ∈ p.states.entries, ∀ t ∈ s.2.entries, ∀ name, t.1 = .named name →
    isReserved name = false ∧ name ∈ p.alphabet
  targets : ∀ s ∈ p.states.entries, ∀ t ∈ s.2.entries, ∀ e ∈ t.2.entries, ∀ name,
    e.1 = .named name → isReserved name = false
  alphabet_nodup : p.alphabet.Nodup
  alphabet_undeclared : "lang" ∉ p.vars →
    p.alphabet = (p.states.entries.flatMap fun s => s.2.keys.filterMap Ref.name?).eraseDups
  declares : p.declaresAlphabet = true ↔ "lang" ∈ p.vars
  commands : ∀ name ∈ p.commands, name ∈ p.states

/-! ### Proper drafts -/

/-- A reference that its spelling stands for, so that no name is spelled like a sentinel. -/
def Ref.IsSpelled (r : Ref) : Prop := Ref.ofLexeme r.lexeme = r

theorem Ref.isSpelled_ofLexeme (text : String) : (Ref.ofLexeme text).IsSpelled := by
  rw [IsSpelled, lexeme_ofLexeme]

theorem Ref.isSpelled_named {name : String} :
    (Ref.named name).IsSpelled ↔ isReserved name = false := by
  unfold IsSpelled lexeme ofLexeme isReserved
  cases Sentinel.ofLexeme? name <;> simp

namespace Draft

/-- A destination set that is not empty, with spelled destinations and positive finite weights. -/
structure ProperDestinations (d : Destinations) : Prop where
  nonempty : d.entries ≠ []
  entries : ∀ e ∈ d.entries, e.1.IsSpelled ∧ isWeight e.2 = true

/-- A table of spelled tokens with proper destination sets. -/
def ProperTable (t : Table) : Prop := ∀ e ∈ t.entries, e.1.IsSpelled ∧ ProperDestinations e.2

/-- States with names that are not reserved and with proper tables. -/
def ProperStates (states : Dict String Table) : Prop :=
  ∀ s ∈ states.entries, isReserved s.1 = false ∧ ProperTable s.2

/-- A draft as every source gives it: its states are proper, and only they have commands. -/
structure Proper (d : Draft) : Prop where
  states : ProperStates d.states
  commands : ∀ name ∈ d.commands, name ∈ d.states

theorem properTable_empty : ProperTable ∅ := fun _ he => absurd he List.not_mem_nil

theorem ProperStates.insert {states : Dict String Table} (h : ProperStates states) {name : String}
    (hname : isReserved name = false) {table : Table} (ht : ProperTable table) :
    ProperStates (states.insert name table) := by
  rintro ⟨name', table'⟩ hs
  rcases Dict.mem_entries_insert.mp hs with ⟨rfl, rfl⟩ | ⟨-, hs⟩
  · exact ⟨hname, ht⟩
  · exact h _ hs

/-- A legible draft is proper. -/
theorem proper_of_legible {d : Draft} (h : d.Legible) : d.Proper := by
  refine ⟨fun s hs => ⟨(h.states s hs).1.unreserved, fun t ht => ?_⟩, fun name hname => ?_⟩
  · obtain ⟨htoken, hd⟩ := (h.states s hs).2 t ht
    exact ⟨htoken.spelled, hd.nonempty, fun e he => ⟨(hd.names e he).spelled, hd.weights e he⟩⟩
  · obtain ⟨cs, hcs⟩ := Dict.mem_iff_find?.mp hname
    exact Dict.mem_iff_mem_keys.mpr (h.commands _ (Dict.find?_eq_some_iff.mp hcs)).1

end Draft

/-! ### Diagrams -/

namespace Diagram

open Draft

/-- An edge between states with names that are not reserved, on a spelled token. -/
structure Edge.Proper (e : Edge) : Prop where
  source : isReserved e.source = false
  target : isReserved e.target = false
  token : e.token.IsSpelled

/-- An edge adds to the destination set of its token, or starts one, with a weight of one. -/
theorem properStates_addEdge {states : Dict String Table} (hs : ProperStates states) {e : Edge}
    (he : e.Proper) : ProperStates (addEdge states e) := by
  have htable : ProperTable ((states.find? e.source).getD ∅) := by
    cases hf : states.find? e.source with
    | none => exact properTable_empty
    | some table => exact (hs _ (Dict.find?_eq_some_iff.mp hf)).2
  have hset : ∀ x ∈ ((((states.find? e.source).getD ∅).find? e.token).getD ∅).entries,
      x.1.IsSpelled ∧ isWeight x.2 = true := by
    cases hf : ((states.find? e.source).getD ∅).find? e.token with
    | none => exact fun x hx => absurd hx List.not_mem_nil
    | some d => exact (htable _ (Dict.find?_eq_some_iff.mp hf)).2.entries
  refine hs.insert he.source ?_
  rintro ⟨token, d⟩ hmem
  rcases Dict.mem_entries_insert.mp hmem with ⟨rfl, rfl⟩ | ⟨-, hmem⟩
  · refine ⟨he.token, List.ne_nil_of_mem (Dict.mem_entries_insert.mpr (Or.inl ⟨rfl, rfl⟩)), ?_⟩
    rintro ⟨destination, weight⟩ hmem
    rcases Dict.mem_entries_insert.mp hmem with ⟨rfl, rfl⟩ | ⟨-, hmem⟩
    · exact ⟨Ref.isSpelled_named.mpr he.target, Listing.isWeight_one⟩
    · exact hset _ hmem
  · exact htable _ hmem

theorem properStates_foldl : ∀ {es : List Edge} {states : Dict String Table},
    ProperStates states → (∀ e ∈ es, e.Proper) → ProperStates (es.foldl addEdge states)
  | [], _, hs, _ => hs
  | e :: es, states, hs, he => by
    rw [List.foldl_cons]
    exact properStates_foldl (properStates_addEdge hs (he e List.mem_cons_self)) fun e' hmem =>
      he e' (List.mem_cons_of_mem _ hmem)

/-- **The draft of a diagram is proper.** -/
theorem proper_of_toDraft {d : Diagram} {asked : Option String} {mode : Mode} {draft : Draft}
    (h : d.toDraft asked mode = .ok draft) : draft.Proper := by
  obtain ⟨hdraw, rfl⟩ := toDraft_eq_ok_iff.mp h
  have hunreserved : ∀ name ∈ d.labels, isReserved name = false := fun name hname =>
    isReserved_eq_false_iff.mpr (hdraw.labelled name hname).2
  have hlabels : ProperStates (Dict.ofList (d.labels.map fun name => (name, (∅ : Table)))) := by
    intro s hs
    obtain ⟨name, hname, rfl⟩ := List.mem_map.mp (Dict.mem_of_mem_ofList hs)
    exact ⟨hunreserved name hname, properTable_empty⟩
  have hedges : ∀ e ∈ d.edges, e.Proper := by
    intro e he
    obtain ⟨hsource, htarget, lexeme, htoken⟩ := mem_labels_of_mem_edges he
    exact ⟨hunreserved _ hsource, hunreserved _ htarget, htoken ▸ Ref.isSpelled_ofLexeme lexeme⟩
  refine ⟨properStates_foldl hlabels hedges, ?_⟩
  intro name hname
  cases hname

end Diagram

/-! ### Sources -/

open Listing

variable {p : Program}

/-- **What a source drafts is proper**, also in another mode. -/
theorem Listing.Sourced.proper (h : Sourced p) : p.toDraft.Proper := by
  induction h with
  | parsed h => exact Draft.proper_of_legible (legible_of_parse h).parts
  | imported h =>
    obtain ⟨diagram, -, hd⟩ := Diagram.exists_diagram_of_convert h
    obtain ⟨draft, hdraft, hres⟩ := Diagram.exists_draft_of_toProgram hd
    exact toDraft_of_resolves hres ▸ Diagram.proper_of_toDraft hdraft
  | withMode _ mode ih => exact ⟨ih.states, ih.commands⟩

/-- **A program with a proper draft that gives it is well-formed.** -/
theorem Program.wellFormed_of_resolves (hd : p.toDraft.Proper) (h : p.toDraft.Resolves p) :
    p.WellFormed := by
  obtain ⟨hnonempty, hnodup, -⟩ := Draft.resolveAccept_ok h.accept
  obtain ⟨halphabet, hdeclares, hundeclared⟩ := Draft.resolveAlphabet_ok h.alphabet
  have hstates : ∀ name ∈ p.states, isReserved name = false := fun name hname => by
    obtain ⟨table, htable⟩ := Dict.mem_iff_find?.mp hname
    exact (hd.states _ (Dict.find?_eq_some_iff.mp htable)).1
  refine ⟨flaw?_eq_none_iff.mp h.unflawed, hnonempty, hnodup, hstates, ?_, ?_, halphabet,
    hundeclared, hdeclares, hd.commands⟩
  · intro s hs t ht name hname
    have hspelled := ((hd.states s hs).2 t ht).1
    rw [hname] at hspelled
    exact ⟨Ref.isSpelled_named.mp hspelled,
      h.mem_alphabet hs (List.mem_map.mpr ⟨t, ht, hname⟩)⟩
  · intro s hs t ht e he name hname
    have hspelled := (((hd.states s hs).2 t ht).2.entries e he).1
    rw [hname] at hspelled
    exact Ref.isSpelled_named.mp hspelled

/-- What a source drafts is never rejected by the last check of validation. -/
theorem Draft.Proper.validate_ne_flawed {d : Draft} (hd : d.Proper) (flaw : Program.Flaw) :
    d.validate ≠ .error (.flawed flaw) :=
  Draft.validate_ne_flawed (fun s hs t ht =>
    ⟨((hd.states s hs).2 t ht).2.nonempty, fun e he =>
      (((hd.states s hs).2 t ht).2.entries e he).2⟩) flaw

theorem parse_ne_flawed (text : String) (flaw : Program.Flaw) :
    parse text ≠ .error (.inconsistent (.flawed flaw)) := by
  intro h
  unfold parse Reader.parse at h
  rcases hr : Reader.lines {} 1 (Text.lines text.toList) with ⟨r, _ | e⟩
  · have hcons := Reader.consistent_lines Reader.consistent_empty
      (fun raw hraw => Text.unbroken_of_mem_lines hraw) hr
    rw [hr] at h
    rcases hv : r.draft.validate with e | q
    · simp only [hv, Except.mapError, Except.error.injEq, Error.inconsistent.injEq] at h
      subst h
      exact (Draft.proper_of_legible hcons.legible).validate_ne_flawed flaw hv
    · simp [hv, Except.mapError] at h
  · simp [hr] at h

theorem Diagram.convert_ne_flawed (datum : Datum) (asked : Option String) (mode : Mode)
    (flaw : Program.Flaw) : convert datum asked mode ≠ .error (.inconsistent (.flawed flaw)) := by
  intro h
  unfold convert toProgram at h
  rcases hd : ofDatum datum with e | d
  · simp [hd, bind, Except.bind, Except.mapError] at h
  rcases hdraft : d.toDraft asked mode with e | draft
  · simp [hd, hdraft, bind, Except.bind, Except.mapError] at h
  rcases hv : draft.validate with e | q
  · simp only [hd, hdraft, hv, bind, Except.bind, Except.mapError, Except.error.injEq,
      Error.inconsistent.injEq] at h
    subst h
    exact (proper_of_toDraft hdraft).validate_ne_flawed flaw hv
  · simp [hd, hdraft, hv, bind, Except.bind, Except.mapError] at h

/-- **Every source gives well-formed programs**: what a listing or a diagram describes, in whatever
mode. Neither is ever rejected by the last check, which looks for flaws in the program itself. -/
theorem sources_wellFormed :
    (∀ p, Sourced p → p.WellFormed) ∧
      (∀ text flaw, parse text ≠ .error (.inconsistent (.flawed flaw))) ∧
      ∀ datum asked mode flaw,
        Diagram.convert datum asked mode ≠ .error (.inconsistent (.flawed flaw)) := by
  refine ⟨fun p hp => ?_, parse_ne_flawed, Diagram.convert_ne_flawed⟩
  exact Program.wellFormed_of_resolves hp.proper hp.resolves_and_ordered.1

/-- The record of a node at the origin. -/
def nodeRecord (label : String) (accepting : Bool) : Datum :=
  .object [("x", .int 0), ("y", .int 0), ("text", .text label), ("isAcceptState", .bool accepting)]

/-- The record of a diagram with two nodes, in which two links share source and text. -/
def twoNodes : Datum :=
  .object
    [("nodes", .list [nodeRecord " a " false, nodeRecord "b" true]),
      ("links", .list
        [.object [("type", .text "StartLink"), ("node", .int 0)],
          .object [("type", .text "Link"), ("nodeA", .int 0), ("nodeB", .int 1),
            ("text", .text "y")],
          .object [("type", .text "SelfLink"), ("node", .int 0), ("text", .text "x")],
          .object [("type", .text "SelfLink"), ("node", .int 0), ("text", .text " y")]])]

/-- The program of `twoNodes`. -/
def twoNodesProgram : Program where
  alphabet := ["y", "x"]
  states := Dict.ofList
    [("a", Dict.ofList
      [(.named "y", Dict.ofList [(.named "b", 1), (.named "a", 1)]),
        (.named "x", Dict.ofList [(.named "a", 1)])]),
      ("b", ∅)]
  start := "a"
  accept := ["b"]
  vars := Dict.ofList
    [("accept", .array ["b"]), ("start", .literal "a"), ("mode", .literal "DFA")]

theorem sources_wellFormed_twoNodes :
    Diagram.convert twoNodes none .dfa = .ok twoNodesProgram ∧
      Sourced (twoNodesProgram.withMode .nfa) ∧ (twoNodesProgram.withMode .nfa).WellFormed := by
  have hconvert : Diagram.convert twoNodes none .dfa = .ok twoNodesProgram := rfl
  have hsourced : Sourced (twoNodesProgram.withMode .nfa) := .withMode (.imported hconvert) .nfa
  exact ⟨hconvert, hsourced, sources_wellFormed.1 _ hsourced⟩

end FiniteAutomata
