import FiniteAutomata.Proofs.Producers.Validation

/-! # Which drafts are programs

A draft is `Coherent` if its assignments and references fit what is drafted, and `Weighted` if its
destination sets hold what a weighted choice needs. Validation accepts exactly the drafts that are
both, and the program says what the draft says (`validate_accepts_iff`). The parts that are resolved
one by one are in order exactly in a coherent draft (`nonempty_parts_iff`), so the last check has
something to report exactly in a coherent draft that is not weighted, and then reports it as an
inconsistency like any other. -/

namespace FiniteAutomata

theorem isReserved_eq_false_iff {text : String} :
    isReserved text = false ↔ text ≠ "null" ∧ text ≠ "\\phi" := by
  unfold isReserved Sentinel.ofLexeme? Sentinel.lexeme
  by_cases hnull : text = "null"
  · simp [hnull]
  · by_cases hphi : text = "\\phi" <;> simp [hnull, hphi]

theorem isWeight_iff {w : Float} : isWeight w = true ↔ 0 < w ∧ w.isFinite = true := by
  rw [isWeight, Bool.and_eq_true, decide_eq_true_iff]

namespace Draft

variable {d : Draft} {p : Program}

/-- What the assignments and references of a draft have to say: `lang`, if it is assigned, is an
array that holds every token that is a name; every destination that is a name is drafted; `start` is
a literal, and `accept` a non-empty array, of drafted states whose names are not reserved; and
`mode`, if it is assigned, is one of two literals. -/
structure Coherent (d : Draft) : Prop where
  alphabet : ∀ value, d.vars.find? "lang" = some value → ∃ items, value = .array items ∧
    ∀ s ∈ d.states.entries, ∀ t ∈ s.2.entries, ∀ name, t.1 = .named name → name ∈ items
  references : ∀ s ∈ d.states.entries, ∀ t ∈ s.2.entries, ∀ e ∈ t.2.entries, ∀ name,
    e.1 = .named name → name ∈ d.states
  start : ∃ state, d.vars.find? "start" = some (.literal state) ∧
    (state ≠ "null" ∧ state ≠ "\\phi") ∧ state ∈ d.states
  accept : ∃ items, d.vars.find? "accept" = some (.array items) ∧ items ≠ [] ∧
    ∀ state ∈ items, (state ≠ "null" ∧ state ≠ "\\phi") ∧ state ∈ d.states
  mode : ∀ value, d.vars.find? "mode" = some value → value = .literal "DFA" ∨ value = .literal "NFA"

/-- Every destination set is non-empty, and its weights are positive and finite. -/
def Weighted (d : Draft) : Prop :=
  ∀ s ∈ d.states.entries, ∀ t ∈ s.2.entries,
    t.2.entries ≠ [] ∧ ∀ e ∈ t.2.entries, 0 < e.2 ∧ e.2.isFinite = true

/-- A program says what a draft says: it has its states, commands and assignments as they are, the
start state and the mode that are assigned (deterministic without an assignment), the accept states
and the alphabet of the arrays without later repetitions, and, where no alphabet is assigned, the
tokens that are names in order of first use. -/
structure Describes (d : Draft) (p : Program) : Prop where
  states : p.states = d.states
  commands : p.commands = d.commands
  vars : p.vars = d.vars
  start : d.vars.find? "start" = some (.literal p.start)
  mode : d.vars.find? "mode" = none ∧ p.mode = .dfa ∨ d.vars.find? "mode" = some (.literal p.mode.text)
  accept : ∃ items, d.vars.find? "accept" = some (.array items) ∧ p.accept = items.eraseDups
  alphabet : (d.vars.find? "lang" = none ∧ p.declaresAlphabet = false ∧
      p.alphabet = (d.states.entries.flatMap fun s => s.2.keys.filterMap Ref.name?).eraseDups) ∨
    ∃ items, d.vars.find? "lang" = some (.array items) ∧ p.declaresAlphabet = true ∧
      p.alphabet = items.eraseDups

/-! ### Each part of a coherent draft is in order -/

theorem exists_resolveAlphabet_iff : (∃ a, d.resolveAlphabet = .ok a) ↔
    ∀ value, d.vars.find? "lang" = some value → ∃ items, value = .array items ∧
      ∀ s ∈ d.states.entries, ∀ t ∈ s.2.entries, ∀ name, t.1 = .named name → name ∈ items := by
  have hcovers : ∀ items, tokenNames d.states.entries ⊆ items ↔
      ∀ s ∈ d.states.entries, ∀ t ∈ s.2.entries, ∀ name, t.1 = .named name → name ∈ items := by
    intro items
    simp only [List.subset_def, mem_tokenNames, Dict.keys, Entries.keys, List.mem_map]
    constructor
    · intro h s hs t ht name hname
      exact h ⟨s, hs, t, ht, hname⟩
    · rintro h name ⟨s, hs, t, ht, hname⟩
      exact h s hs t ht name hname
  simp only [Prod.exists, resolveAlphabet_eq_ok_iff, hcovers]
  rcases d.vars.find? "lang" with _ | value
  · simp
  · cases value <;> simp

theorem exists_resolveMode_iff : (∃ mode, d.resolveMode = .ok mode) ↔
    ∀ value, d.vars.find? "mode" = some value → value = .literal "DFA" ∨ value = .literal "NFA" := by
  have hmode : ∀ value : Setting, (∃ mode : Mode, value = .literal mode.text) ↔
      value = .literal "DFA" ∨ value = .literal "NFA" := by
    intro value
    constructor
    · rintro ⟨mode, rfl⟩
      cases mode
      · exact Or.inl rfl
      · exact Or.inr rfl
    · rintro (rfl | rfl)
      · exact ⟨.dfa, rfl⟩
      · exact ⟨.nfa, rfl⟩
  simp only [resolveMode_eq_ok_iff]
  rcases d.vars.find? "mode" with _ | value
  · simp
  · simpa using hmode value

theorem nonempty_parts_iff : Nonempty d.Parts ↔ d.Coherent := by
  constructor
  · rintro ⟨q⟩
    obtain ⟨hstart, hfree, hstate⟩ := resolveStart_eq_ok_iff.mp q.start_eq
    obtain ⟨items, haccept, hne, hitems, -⟩ := resolveAccept_eq_ok_iff.mp q.accept_eq
    exact {
      alphabet := exists_resolveAlphabet_iff.mp ⟨_, q.alphabet_eq⟩
      references := checkReferences_eq_ok_iff.mp q.references_eq
      start := ⟨q.start, hstart, isReserved_eq_false_iff.mp hfree, hstate⟩
      accept := ⟨items, haccept, hne, fun state hmem =>
        (hitems state hmem).imp_left isReserved_eq_false_iff.mp⟩
      mode := exists_resolveMode_iff.mp ⟨_, q.mode_eq⟩ }
  · intro h
    obtain ⟨⟨alphabet, declared⟩, halphabet⟩ := exists_resolveAlphabet_iff.mpr h.alphabet
    obtain ⟨state, hstart, hfree, hstate⟩ := h.start
    obtain ⟨items, haccept, hne, hitems⟩ := h.accept
    obtain ⟨mode, hmode⟩ := exists_resolveMode_iff.mpr h.mode
    exact ⟨{
      alphabet, declared, mode
      start := state
      accept := items.eraseDups
      alphabet_eq := halphabet
      references_eq := checkReferences_eq_ok_iff.mpr h.references
      start_eq := resolveStart_eq_ok_iff.mpr ⟨hstart, isReserved_eq_false_iff.mpr hfree, hstate⟩
      accept_eq := resolveAccept_eq_ok_iff.mpr ⟨items, haccept, hne, fun state hmem =>
        (hitems state hmem).imp_left isReserved_eq_false_iff.mpr, rfl⟩
      mode_eq := hmode }⟩

/-! ### What validation comes to -/

theorem Parts.unflawed_iff (q : d.Parts) : q.program.flaw? = none ↔ d.Weighted := by
  simp only [Program.flaw?_eq_none_iff, q.valid_iff, isWeight_iff, Weighted]

/-- What a draft has resolved to is what it says. -/
theorem Resolves.describes (h : d.Resolves p) : d.Describes p := by
  obtain ⟨items, haccept, -, -, heq⟩ := resolveAccept_eq_ok_iff.mp h.accept
  refine ⟨h.states, h.commands, h.vars, (resolveStart_eq_ok_iff.mp h.start).1,
    resolveMode_eq_ok_iff.mp h.mode, ⟨items, haccept, heq⟩, ?_⟩
  rcases resolveAlphabet_eq_ok_iff.mp h.alphabet with hnone | ⟨items, hlang, hdeclared, -, heq⟩
  · exact Or.inl hnone
  · exact Or.inr ⟨items, hlang, hdeclared, heq⟩

/-- A coherent draft gives a program if it is weighted, and else a flaw is reported. -/
theorem Coherent.validate (h : d.Coherent) :
    (d.Weighted ∧ ∃ p, d.validate = .ok p) ∨
      ¬ d.Weighted ∧ ∃ flaw, d.validate = .error (.flawed flaw) := by
  obtain ⟨q⟩ := nonempty_parts_iff.mpr h
  rw [← q.unflawed_iff, q.validate_eq]
  cases q.program.flaw? with
  | none => exact Or.inl ⟨rfl, _, rfl⟩
  | some flaw => exact Or.inr ⟨by simp, flaw, rfl⟩

/-- In a draft that is not coherent a part fails, and reports no flaw. -/
theorem validate_of_not_coherent (h : ¬ d.Coherent) :
    ∃ e, d.validate = .error e ∧ ∀ flaw, e ≠ .flawed flaw := by
  rcases parts_or_error d with hparts | ⟨e, he, hfails⟩
  · exact absurd (nonempty_parts_iff.mp hparts) h
  · refine ⟨e, he, ?_⟩
    rintro flaw rfl
    exact not_partFails_flawed d flaw hfails

/-- **Validation accepts exactly the consistent drafts**, those that are coherent and weighted. For
any other an inconsistency is reported; what the last check finds is reported as one too, and it
finds something exactly in a coherent draft that is not weighted. A program that is given says what
the draft says. -/
theorem validate_accepts_iff (d : Draft) :
    ((∃ p, d.validate = .ok p) ↔ d.Coherent ∧ d.Weighted) ∧
      ((∃ e, d.validate = .error e) ↔ ¬ (d.Coherent ∧ d.Weighted)) ∧
      ((∃ flaw, d.validate = .error (.flawed flaw)) ↔ d.Coherent ∧ ¬ d.Weighted) ∧
      ∀ p, d.validate = .ok p → d.Describes p := by
  refine ⟨?_, ?_, ?_, fun p h => (validate_eq_ok_iff.mp h).describes⟩
  all_goals
    by_cases hcoherent : d.Coherent
    · rcases hcoherent.validate with ⟨hweighted, p, hp⟩ | ⟨hweighted, flaw, hflaw⟩
      · simp [hcoherent, hweighted, hp]
      · simp [hcoherent, hweighted, hflaw]
    · obtain ⟨e, he, hne⟩ := validate_of_not_coherent hcoherent
      simp [hcoherent, he, hne]

end Draft

end FiniteAutomata
