import FiniteAutomata.Proofs.Dict
import FiniteAutomata.Proofs.Producers.Validation

/-! # Drafts in another order

Two drafts may hold the same states, commands and assignments, but the states and the commands in
another order (`Draft.Reordered`). Validation makes of both a program, or of none
(`Draft.Reordered.validate`), for every check asks about all states or about the states with certain
names. The two programs differ in these orders, and if the alphabet is not declared in its order as
well, since it is that of first use (`Program.Reordered`). -/

namespace FiniteAutomata

section Dict

variable {α β : Type*} [DecidableEq α] {d e : Dict α β}

/-- Dictionaries with the same entries are equal but for the order. -/
theorem Dict.equiv_of_entries_perm (h : d.entries.Perm e.entries) : d.Equiv e := by
  intro k
  refine Option.ext fun v => ?_
  rw [find?_eq_some_iff, find?_eq_some_iff, h.mem_iff]

theorem Dict.mem_iff_of_equiv (h : d.Equiv e) {k : α} : k ∈ d ↔ k ∈ e := by
  rw [mem_iff_find?, mem_iff_find?, h k]

end Dict

/-- Two drafts with the same assignments, states and commands, the latter two in any order. -/
structure Draft.Reordered (d d' : Draft) : Prop where
  states : d.states.entries.Perm d'.states.entries
  commands : d.commands.entries.Perm d'.commands.entries
  vars : d.vars = d'.vars

/-- Two programs that are equal but for the orders of their states, commands and alphabets. -/
structure Program.Reordered (p q : Program) : Prop where
  states : p.states.Equiv q.states
  start : p.start = q.start
  accept : p.accept = q.accept
  mode : p.mode = q.mode
  commands : p.commands.Equiv q.commands
  vars : p.vars = q.vars
  declaresAlphabet : p.declaresAlphabet = q.declaresAlphabet
  alphabet : p.alphabet.Perm q.alphabet

namespace Draft

variable {d d' : Draft} {p : Program}

theorem Reordered.symm (h : d.Reordered d') : d'.Reordered d :=
  ⟨h.states.symm, h.commands.symm, h.vars.symm⟩

theorem Reordered.mem_states (h : d.Reordered d') {state : String} :
    state ∈ d.states ↔ state ∈ d'.states :=
  Dict.mem_iff_of_equiv (Dict.equiv_of_entries_perm h.states)

theorem Reordered.mem_tokenNames (h : d.Reordered d') {name : String} :
    name ∈ tokenNames d.states.entries ↔ name ∈ tokenNames d'.states.entries := by
  simp only [Draft.mem_tokenNames, h.states.mem_iff]

/-- The alphabet is declared in both drafts, and then the same, or in none, and then it has the same
tokens. -/
theorem Reordered.resolveAlphabet (h : d.Reordered d') {alphabet : List String} {declared : Bool}
    (ha : d.resolveAlphabet = .ok (alphabet, declared)) :
    ∃ alphabet', d'.resolveAlphabet = .ok (alphabet', declared) ∧ alphabet.Perm alphabet' := by
  rcases resolveAlphabet_eq_ok_iff.mp ha with ⟨hnone, rfl, rfl⟩ | ⟨items, hlang, rfl, hsub, rfl⟩
  · refine ⟨(tokenNames d'.states.entries).eraseDups,
      resolveAlphabet_eq_ok_iff.mpr (Or.inl ⟨h.vars ▸ hnone, rfl, rfl⟩), ?_⟩
    rw [List.perm_ext_iff_of_nodup (nodup_eraseDups _) (nodup_eraseDups _)]
    intro name
    rw [List.mem_eraseDups, List.mem_eraseDups, h.mem_tokenNames]
  · have hsub' : tokenNames d'.states.entries ⊆ items :=
      fun name hname => hsub (h.mem_tokenNames.mpr hname)
    exact ⟨items.eraseDups,
      resolveAlphabet_eq_ok_iff.mpr (Or.inr ⟨items, h.vars ▸ hlang, rfl, hsub', rfl⟩),
      List.Perm.refl _⟩

theorem Reordered.checkReferences (h : d.Reordered d') (hr : d.checkReferences = .ok ()) :
    d'.checkReferences = .ok () := by
  rw [checkReferences_eq_ok_iff] at hr ⊢
  intro s hs t ht e he name hname
  exact h.mem_states.mp (hr s (h.states.mem_iff.mpr hs) t ht e he name hname)

theorem Reordered.resolveStart (h : d.Reordered d') {state : String}
    (hs : d.resolveStart = .ok state) : d'.resolveStart = .ok state := by
  rw [resolveStart_eq_ok_iff] at hs ⊢
  rwa [← h.vars, ← h.mem_states]

theorem Reordered.resolveAccept (h : d.Reordered d') {accept : List String}
    (ha : d.resolveAccept = .ok accept) : d'.resolveAccept = .ok accept := by
  obtain ⟨items, haccept, hne, hitems, heq⟩ := resolveAccept_eq_ok_iff.mp ha
  exact resolveAccept_eq_ok_iff.mpr ⟨items, h.vars ▸ haccept, hne,
    fun state hmem => (hitems state hmem).imp_right h.mem_states.mp, heq⟩

theorem Reordered.resolveMode (h : d.Reordered d') : d'.resolveMode = d.resolveMode := by
  rw [Draft.resolveMode, Draft.resolveMode, h.vars]

/-- **Validation does not depend on the order** of states and commands. -/
theorem Reordered.validate (h : d.Reordered d') (hv : d.validate = .ok p) :
    ∃ q, d'.validate = .ok q ∧ p.Reordered q := by
  have hd := validate_eq_ok_iff.mp hv
  obtain ⟨alphabet, halphabet, hperm⟩ := h.resolveAlphabet hd.alphabet
  refine ⟨{ p with alphabet, states := d'.states, commands := d'.commands }, ?_, ?_⟩
  · rw [validate_eq_ok_iff]
    have hvalid := Program.flaw?_eq_none_iff.mp hd.unflawed
    have hmem : ∀ {state}, state ∈ p.states ↔ state ∈ d'.states := hd.states ▸ h.mem_states
    refine ⟨halphabet, h.checkReferences hd.references, h.resolveStart hd.start,
      h.resolveAccept hd.accept, h.resolveMode.trans hd.mode, rfl, rfl, hd.vars.trans h.vars,
      Program.flaw?_eq_none_iff.mpr ⟨hmem.mp hvalid.start,
        fun state hs => hmem.mp (hvalid.accept state hs), fun s hs t ht => ?_⟩⟩
    have hs' : s ∈ p.states.entries := hd.states ▸ h.states.mem_iff.mpr hs
    obtain ⟨hne, hweights, hknown⟩ := hvalid.destinations s hs' t ht
    exact ⟨hne, hweights, fun e he name hname => hmem.mp (hknown e he name hname)⟩
  · exact {
      states := hd.states ▸ Dict.equiv_of_entries_perm h.states
      start := rfl
      accept := rfl
      mode := rfl
      commands := hd.commands ▸ Dict.equiv_of_entries_perm h.commands
      vars := rfl
      declaresAlphabet := rfl
      alphabet := hperm }

end Draft

end FiniteAutomata
