import FiniteAutomata.Draft
import FiniteAutomata.Proofs.Dict
import Mathlib.Data.List.Induction
import Mathlib.Data.List.Nodup
import Mathlib.Tactic.SplitIfs
import Mathlib.Tactic.Tauto

/-! # What validation establishes

A draft gives a program exactly if each of its parts resolves to the field of the program that is
named after it, and the program has no flaw (`validate_eq_ok_iff`): a part that fails is reported,
and where all are in order the last check decides (`parts_or_error`, `Parts.validate_eq`). The
alphabet of such a program is closed: it holds every token that is a name (`Resolves.mem_alphabet`).
An alphabet that is not declared consists of these tokens in order of first use (`keys_uses`).

What the parts check leaves to the last check the destination sets alone: it finds a flaw only where
one of them is empty or holds a weight that is none (`validate_ne_flawed`). -/

namespace FiniteAutomata

theorem Mode.ofText?_eq_some_iff {text : String} {mode : Mode} :
    Mode.ofText? text = some mode ↔ text = mode.text := by
  unfold Mode.ofText?
  split_ifs with hdfa hnfa
  · cases mode <;> simp [hdfa, Mode.text]
  · cases mode <;> simp [hnfa, Mode.text]
  · cases mode <;> simp [hdfa, hnfa]

namespace Draft

/-- What validation has established about the program it gives for a draft. -/
structure Resolves (d : Draft) (p : Program) : Prop where
  alphabet : d.resolveAlphabet = .ok (p.alphabet, p.declaresAlphabet)
  references : d.checkReferences = .ok ()
  start : d.resolveStart = .ok p.start
  accept : d.resolveAccept = .ok p.accept
  mode : d.resolveMode = .ok p.mode
  states : p.states = d.states
  commands : p.commands = d.commands
  vars : p.vars = d.vars
  unflawed : p.flaw? = none

/-- What the parts of a draft come to, if each of them is in order. -/
structure Parts (d : Draft) where
  alphabet : List String
  declared : Bool
  start : String
  accept : List String
  mode : Mode
  alphabet_eq : d.resolveAlphabet = .ok (alphabet, declared)
  references_eq : d.checkReferences = .ok ()
  start_eq : d.resolveStart = .ok start
  accept_eq : d.resolveAccept = .ok accept
  mode_eq : d.resolveMode = .ok mode

/-- Some part of a draft reports this. -/
def PartFails (d : Draft) (e : Inconsistency) : Prop :=
  d.resolveAlphabet = .error e ∨ d.checkReferences = .error e ∨ d.resolveStart = .error e ∨
    d.resolveAccept = .error e ∨ d.resolveMode = .error e

/-- The program that parts make up. -/
def Parts.program {d : Draft} (q : d.Parts) : Program :=
  { alphabet := q.alphabet, states := d.states, start := q.start, accept := q.accept, mode := q.mode,
    commands := d.commands, vars := d.vars, declaresAlphabet := q.declared }

/-- Where the parts are in order, the last check decides. -/
theorem Parts.validate_eq {d : Draft} (q : d.Parts) : d.validate =
    match q.program.flaw? with
    | some flaw => .error (.flawed flaw)
    | none => .ok q.program := by
  unfold validate
  rw [q.alphabet_eq, q.references_eq, q.start_eq, q.accept_eq, q.mode_eq]
  change (match q.program.flaw? with
    | some flaw => throw (.flawed flaw)
    | none => pure q.program : Except Inconsistency Program) = _
  cases q.program.flaw? <;> rfl

/-- The parts of a draft are in order, or what one of them reports is reported. -/
theorem parts_or_error (d : Draft) :
    Nonempty d.Parts ∨ ∃ e, d.validate = .error e ∧ d.PartFails e := by
  unfold validate PartFails
  rcases ha : d.resolveAlphabet with e | ⟨alphabet, declared⟩
  · exact Or.inr ⟨e, rfl, by simp⟩
  rcases hr : d.checkReferences with e | ⟨⟩
  · exact Or.inr ⟨e, rfl, by simp⟩
  rcases hs : d.resolveStart with e | start
  · exact Or.inr ⟨e, rfl, by simp⟩
  rcases hc : d.resolveAccept with e | accept
  · exact Or.inr ⟨e, rfl, by simp⟩
  rcases hm : d.resolveMode with e | mode
  · exact Or.inr ⟨e, rfl, by simp⟩
  exact Or.inl ⟨⟨alphabet, declared, start, accept, mode, ha, hr, hs, hc, hm⟩⟩

/-- **Validation gives a program exactly if every part resolves to it.** -/
theorem validate_eq_ok_iff {d : Draft} {p : Program} : d.validate = .ok p ↔ d.Resolves p := by
  constructor
  · intro h
    rcases parts_or_error d with ⟨⟨q⟩⟩ | ⟨e, he, -⟩
    · rw [q.validate_eq] at h
      split at h
      · cases h
      · next hf =>
        cases h
        exact ⟨q.alphabet_eq, q.references_eq, q.start_eq, q.accept_eq, q.mode_eq, rfl, rfl, rfl, hf⟩
    · rw [he] at h
      cases h
  · rintro ⟨ha, hr, hs, hc, hm, hstates, hcommands, hvars, hf⟩
    let q : d.Parts := ⟨_, _, _, _, _, ha, hr, hs, hc, hm⟩
    have hq : q.program = p := by
      obtain ⟨alphabet, states, start, accept, mode, commands, vars, declared⟩ := p
      dsimp only at hstates hcommands hvars
      subst hstates hcommands hvars
      rfl
    rw [q.validate_eq, hq, hf]

/-! ### The tokens in use -/

theorem mem_noteUse {state : String} {uses : Dict String String} {token : Token} {symbol : String} :
    symbol ∈ noteUse state uses token ↔ token = .named symbol ∨ symbol ∈ uses := by
  cases token with
  | sentinel x => simp [noteUse]
  | named name =>
    unfold noteUse
    dsimp only
    split_ifs with h
    · constructor
      · exact Or.inr
      · rintro (h' | h')
        · cases h'; exact h
        · exact h'
    · rw [Dict.mem_insert]
      simp [eq_comm]

theorem mem_foldl_noteUse {state symbol : String} : ∀ (tokens : List Token)
    (uses : Dict String String), symbol ∈ tokens.foldl (noteUse state) uses ↔
      Ref.named symbol ∈ tokens ∨ symbol ∈ uses
  | [], uses => by simp
  | token :: tokens, uses => by
    rw [List.foldl_cons, mem_foldl_noteUse tokens, mem_noteUse, List.mem_cons, eq_comm (a := token)]
    tauto

theorem mem_foldl_uses {symbol : String} : ∀ (states : List (String × Table))
    (uses : Dict String String),
    symbol ∈ states.foldl (fun acc s => s.2.keys.foldl (noteUse s.1) acc) uses ↔
      (∃ s ∈ states, Ref.named symbol ∈ s.2.keys) ∨ symbol ∈ uses
  | [], uses => by simp
  | s :: states, uses => by
    rw [List.foldl_cons, mem_foldl_uses states, mem_foldl_noteUse]
    simp only [List.mem_cons, exists_eq_or_imp]
    rw [or_left_comm, or_assoc]

/-- The tokens in use are those of the tables that are names. -/
theorem mem_uses {d : Draft} {symbol : String} :
    symbol ∈ d.uses ↔ ∃ s ∈ d.states.entries, Ref.named symbol ∈ s.2.keys := by
  rw [uses, mem_foldl_uses]
  simp [Dict.mem_iff_find?]

theorem mem_foldl_firstOccurrences {a : String} : ∀ (items seen : List String),
    a ∈ items.foldl (fun seen item => if item ∈ seen then seen else seen ++ [item]) seen ↔
      a ∈ seen ∨ a ∈ items
  | [], seen => by simp
  | item :: items, seen => by
    rw [List.foldl_cons, mem_foldl_firstOccurrences items]
    split_ifs with h
    · constructor
      · rintro (h' | h')
        · exact Or.inl h'
        · exact Or.inr (List.mem_cons_of_mem _ h')
      · rintro (h' | h')
        · exact Or.inl h'
        · rcases List.mem_cons.mp h' with rfl | h'
          · exact Or.inl h
          · exact Or.inr h'
    · simp only [List.mem_append, List.mem_cons, List.not_mem_nil, or_false]
      tauto

@[simp] theorem mem_firstOccurrences {a : String} {items : List String} :
    a ∈ firstOccurrences items ↔ a ∈ items := by
  rw [firstOccurrences, mem_foldl_firstOccurrences]
  simp

/-- **The alphabet is closed**: it holds every token that is a name. -/
theorem Resolves.mem_alphabet {d : Draft} {p : Program} (h : d.Resolves p) {state : String × Table}
    (hs : state ∈ p.states.entries) {name : String} (hn : Ref.named name ∈ state.2.keys) :
    name ∈ p.alphabet := by
  have hu : name ∈ d.uses := mem_uses.2 ⟨state, h.states ▸ hs, hn⟩
  have ha := h.alphabet
  unfold resolveAlphabet at ha
  cases hl : d.vars.find? "lang" with
  | none =>
    simp only [hl, Except.ok.injEq, Prod.mk.injEq] at ha
    rw [← ha.1]
    exact Dict.mem_iff_mem_keys.1 hu
  | some setting =>
    cases setting with
    | literal text => simp [hl] at ha
    | array items =>
      simp only [hl] at ha
      split at ha
      · cases ha
      · next hf =>
        simp only [Except.ok.injEq, Prod.mk.injEq] at ha
        rw [← ha.1, mem_firstOccurrences]
        obtain ⟨state', hv⟩ := Dict.mem_iff_find?.1 hu
        have := List.find?_eq_none.1 hf (name, state') (Dict.find?_eq_some_iff.1 hv)
        simpa using this

/-! ### First occurrences -/

theorem firstOccurrences_append (items : List String) (item : String) :
    firstOccurrences (items ++ [item]) =
      if item ∈ items then firstOccurrences items else firstOccurrences items ++ [item] := by
  have hmem : item ∈ firstOccurrences items ↔ item ∈ items := mem_firstOccurrences
  rw [firstOccurrences, List.foldl_append, ← firstOccurrences, List.foldl_cons, List.foldl_nil]
  simp only [hmem]

theorem nodup_firstOccurrences (items : List String) : (firstOccurrences items).Nodup := by
  induction items using List.reverseRecOn with
  | nil => exact List.nodup_nil
  | append_singleton items item ih =>
    rw [firstOccurrences_append]
    split_ifs with h
    · exact ih
    · exact ih.append (List.nodup_singleton item) (by simpa using h)

/-- The elements at their first occurrence are what is left when repetitions are erased. -/
theorem firstOccurrences_eq (items : List String) : firstOccurrences items = items.eraseDups := by
  induction items using List.reverseRecOn with
  | nil => rfl
  | append_singleton items item ih =>
    rw [firstOccurrences_append, List.eraseDups_append, ih]
    split_ifs with h <;> simp [List.removeAll, h, List.eraseDups_cons]

theorem nodup_eraseDups (items : List String) : items.eraseDups.Nodup :=
  firstOccurrences_eq items ▸ nodup_firstOccurrences items

/-- Erasing repetitions changes nothing exactly if there are none. -/
theorem eraseDups_eq_self_iff : ∀ {items : List String}, items.eraseDups = items ↔ items.Nodup
  | [] => by simp
  | item :: items => by
    constructor
    · intro h
      rw [← h]
      exact nodup_eraseDups _
    · intro h
      obtain ⟨hnot, hn⟩ := List.nodup_cons.mp h
      have hfilter : items.filter (fun b => ! b == item) = items :=
        List.filter_eq_self.mpr fun b hb => by
          have hne : b ≠ item := fun he => hnot (he ▸ hb)
          simpa using hne
      rw [List.eraseDups_cons, hfilter, eraseDups_eq_self_iff.mpr hn]

/-- The tokens of tables that are names, in order of use. -/
def tokenNames (states : List (String × Table)) : List String :=
  states.flatMap fun s => s.2.keys.filterMap Ref.name?

theorem keys_foldl_noteUse {state : String} : ∀ (tokens : List Token) (before : List String)
    {uses : Dict String String}, uses.keys = firstOccurrences before →
      (tokens.foldl (noteUse state) uses).keys =
        firstOccurrences (before ++ tokens.filterMap Ref.name?)
  | [], before, uses, h => by simpa using h
  | .sentinel x :: tokens, before, uses, h => by
    simpa [noteUse, Ref.name?, List.filterMap_cons] using keys_foldl_noteUse tokens before h
  | .named name :: tokens, before, uses, h => by
    have hkeys : (noteUse state uses (.named name)).keys = firstOccurrences (before ++ [name]) := by
      have hmem : name ∈ uses ↔ name ∈ before := by
        rw [Dict.mem_iff_mem_keys, h, mem_firstOccurrences]
      rw [firstOccurrences_append, ← h]
      unfold noteUse
      simp only [hmem]
      split_ifs with hbefore
      · rfl
      · rw [Dict.keys_insert, if_neg (fun hk => hbefore (hmem.mp (Dict.mem_iff_mem_keys.mpr hk)))]
    simpa [Ref.name?, List.filterMap_cons] using
      keys_foldl_noteUse tokens (before ++ [name]) hkeys

theorem keys_foldl_uses : ∀ (states : List (String × Table)) (before : List String)
    {uses : Dict String String}, uses.keys = firstOccurrences before →
      (states.foldl (fun acc s => s.2.keys.foldl (noteUse s.1) acc) uses).keys =
        firstOccurrences (before ++ tokenNames states)
  | [], before, uses, h => by simpa [tokenNames] using h
  | s :: states, before, uses, h => by
    have hstate : (s.2.keys.foldl (noteUse s.1) uses).keys =
        firstOccurrences (before ++ s.2.keys.filterMap Ref.name?) :=
      keys_foldl_noteUse s.2.keys before h
    simpa [tokenNames] using keys_foldl_uses states _ hstate

/-- **The tokens in use** stand in order of first use. -/
theorem keys_uses (d : Draft) : d.uses.keys = (tokenNames d.states.entries).eraseDups := by
  rw [uses, keys_foldl_uses d.states.entries [] rfl, List.nil_append, firstOccurrences_eq]

/-! ### What the parts check -/

section Parts

variable {d : Draft} {alphabet accept : List String} {declared : Bool} {state : String}
  {mode : Mode}

theorem mem_tokenNames {states : List (String × Table)} {name : String} :
    name ∈ tokenNames states ↔ ∃ s ∈ states, Ref.named name ∈ s.2.keys := by
  have hname : ∀ r : Ref, r.name? = some name ↔ r = .named name := by
    intro r
    cases r <;> simp [Ref.name?]
  simp [tokenNames, hname]

/-- **The alphabet** is that of an array that covers the tokens, repetitions dropped; without one it
consists of the tokens in order of first use. -/
theorem resolveAlphabet_eq_ok_iff : d.resolveAlphabet = .ok (alphabet, declared) ↔
    (d.vars.find? "lang" = none ∧ declared = false ∧
        alphabet = (tokenNames d.states.entries).eraseDups) ∨
      ∃ items, d.vars.find? "lang" = some (.array items) ∧ declared = true ∧
        tokenNames d.states.entries ⊆ items ∧ alphabet = items.eraseDups := by
  unfold resolveAlphabet
  rcases d.vars.find? "lang" with _ | text | items
  · simp [keys_uses, eq_comm, and_comm]
  · simp
  · -- no use outside of the array is found exactly if it covers the tokens
    have hcovers : d.uses.entries.find? (fun use => use.1 ∉ items) = none ↔
        tokenNames d.states.entries ⊆ items := by
      have hkeys : ∀ name, name ∈ tokenNames d.states.entries ↔ ∃ use ∈ d.uses.entries,
          use.1 = name := by
        intro name
        rw [← List.mem_eraseDups, ← keys_uses, Dict.keys, Entries.keys, List.mem_map]
      simp only [List.find?_eq_none, decide_not, Bool.not_eq_eq_eq_not, Bool.not_true,
        decide_eq_false_iff_not, not_not, List.subset_def, hkeys]
      exact ⟨fun h name ⟨use, hu, he⟩ => he ▸ h use hu, fun h use hu => h ⟨use, hu, rfl⟩⟩
    dsimp only
    split
    · next symbol state hf =>
      have hno : ¬ tokenNames d.states.entries ⊆ items := by
        rw [← hcovers, hf]
        exact Option.some_ne_none _
      simp [hno]
    · next hf => simp [hcovers.mp hf, firstOccurrences_eq, eq_comm, and_comm]

/-- The alphabet of a program has no repetitions, is declared if `lang` is assigned, and else
consists of the tokens in order of first use. -/
theorem resolveAlphabet_ok (h : d.resolveAlphabet = .ok (alphabet, declared)) :
    alphabet.Nodup ∧ (declared = true ↔ "lang" ∈ d.vars) ∧
      ("lang" ∉ d.vars → alphabet = (tokenNames d.states.entries).eraseDups) := by
  rw [Dict.mem_iff_find?]
  rcases resolveAlphabet_eq_ok_iff.mp h with ⟨hl, rfl, rfl⟩ | ⟨items, hl, rfl, -, rfl⟩
  · exact ⟨nodup_eraseDups _, by simp [hl], fun _ => rfl⟩
  · exact ⟨nodup_eraseDups _, by simp [hl], by simp [hl]⟩

/-- **The references** are fine exactly if every destination that is a name is drafted. -/
theorem checkReferences_eq_ok_iff : d.checkReferences = .ok () ↔
    ∀ s ∈ d.states.entries, ∀ t ∈ s.2.entries, ∀ e ∈ t.2.entries, ∀ name, e.1 = .named name →
      name ∈ d.states := by
  have hundefined : ∀ destinations : Destinations, d.undefined? destinations = none ↔
      ∀ e ∈ destinations.entries, ∀ name, e.1 = .named name → name ∈ d.states := by
    intro destinations
    rw [undefined?, List.findSome?_eq_none_iff, Dict.keys, Entries.keys]
    simp only [List.forall_mem_map]
    refine forall₂_congr fun e _ => ?_
    cases e.1 with
    | sentinel x => simp
    | named name => by_cases hn : name ∈ d.states <;> simp [hn]
  have hnone : (d.states.entries.findSome? fun s => s.2.entries.findSome? fun t =>
      (d.undefined? t.2).map fun name => Inconsistency.undefinedDestination s.1 name t.1) = none ↔
      ∀ s ∈ d.states.entries, ∀ t ∈ s.2.entries, d.undefined? t.2 = none := by
    simp only [List.findSome?_eq_none_iff, Option.map_eq_none_iff]
  simp only [hundefined] at hnone
  rw [← hnone, checkReferences]
  split
  · next e hfound => simp [hfound]
  · next hfound => simp [hfound]

/-- **The start state** is a literal that names a drafted state. -/
theorem resolveStart_eq_ok_iff : d.resolveStart = .ok state ↔
    d.vars.find? "start" = some (.literal state) ∧ isReserved state = false ∧ state ∈ d.states := by
  unfold resolveStart
  rcases d.vars.find? "start" with _ | text | items
  · simp
  · dsimp only
    split_ifs with hreserved hstate
    · simp only [Option.some.injEq, Setting.literal.injEq, false_iff]
      rintro ⟨rfl, hfree, -⟩
      rw [hreserved] at hfree
      cases hfree
    · simp only [Except.ok.injEq, Option.some.injEq, Setting.literal.injEq]
      refine ⟨?_, fun h => h.1⟩
      rintro rfl
      exact ⟨rfl, Bool.eq_false_iff.mpr hreserved, hstate⟩
    · simp only [Option.some.injEq, Setting.literal.injEq, false_iff]
      rintro ⟨rfl, -, hdrafted⟩
      exact hstate hdrafted
  · simp

theorem acceptFault?_eq_none_iff :
    d.acceptFault? state = none ↔ isReserved state = false ∧ state ∈ d.states := by
  unfold acceptFault?
  by_cases hreserved : isReserved state = true
  · simp [hreserved]
  · by_cases hstate : state ∈ d.states <;> simp [hreserved, hstate]

/-- **The accept states** are those of a non-empty array of drafted states, repetitions dropped. -/
theorem resolveAccept_eq_ok_iff : d.resolveAccept = .ok accept ↔
    ∃ items, d.vars.find? "accept" = some (.array items) ∧ items ≠ [] ∧
      (∀ state ∈ items, isReserved state = false ∧ state ∈ d.states) ∧
      accept = items.eraseDups := by
  unfold resolveAccept
  rcases d.vars.find? "accept" with _ | text | items
  · simp
  · simp
  · have hnone : items.findSome? d.acceptFault? = none ↔
        ∀ state ∈ items, isReserved state = false ∧ state ∈ d.states := by
      simp only [List.findSome?_eq_none_iff, acceptFault?_eq_none_iff]
    simp only [Option.some.injEq, Setting.array.injEq, exists_eq_left', List.isEmpty_iff, ← hnone]
    split_ifs with hempty
    · simp [hempty]
    · rw [firstOccurrences_eq]
      split
      · next e hf => simp [hf]
      · next hf => simp [hf, hempty, eq_comm]

/-- There are accept states, none twice, and all are drafted. -/
theorem resolveAccept_ok (h : d.resolveAccept = .ok accept) :
    accept ≠ [] ∧ accept.Nodup ∧ ∀ state ∈ accept, state ∈ d.states := by
  obtain ⟨items, -, hne, hitems, rfl⟩ := resolveAccept_eq_ok_iff.mp h
  obtain ⟨item, hitem⟩ := List.exists_mem_of_ne_nil items hne
  exact ⟨List.ne_nil_of_mem (List.mem_eraseDups.mpr hitem), nodup_eraseDups items,
    fun state hstate => (hitems state (List.mem_eraseDups.mp hstate)).2⟩

/-- **The mode** is that of the assignment, and deterministic without one. -/
theorem resolveMode_eq_ok_iff : d.resolveMode = .ok mode ↔
    (d.vars.find? "mode" = none ∧ mode = .dfa) ∨
      d.vars.find? "mode" = some (.literal mode.text) := by
  unfold resolveMode
  rcases d.vars.find? "mode" with _ | text | items
  · simp [eq_comm]
  · cases ht : Mode.ofText? text with
    | some m =>
      obtain rfl := Mode.ofText?_eq_some_iff.mp ht
      have hinjective : m.text = mode.text ↔ m = mode := by
        rw [← Mode.ofText?_eq_some_iff, ht, Option.some.injEq]
      simp [ht, hinjective]
    | none =>
      have hno : text ≠ mode.text := fun h => by simp [Mode.ofText?_eq_some_iff.mpr h] at ht
      simp [ht, hno]
  · simp

end Parts

/-- No part of a draft reports what the last check looks for. -/
theorem not_partFails_flawed (d : Draft) (flaw : Program.Flaw) : ¬ d.PartFails (.flawed flaw) := by
  rintro (h | h | h | h | h)
  · unfold resolveAlphabet at h
    split at h
    · cases h
    · cases h
    · split at h <;> cases h
  · unfold checkReferences at h
    dsimp only at h
    split at h
    · next e hfound =>
      obtain ⟨s, -, hs⟩ := List.exists_of_findSome?_eq_some hfound
      obtain ⟨t, -, ht⟩ := List.exists_of_findSome?_eq_some hs
      obtain ⟨name, -, rfl⟩ := Option.map_eq_some_iff.mp ht
      cases h
    · cases h
  · unfold resolveStart at h
    split at h
    · cases h
    · cases h
    · split_ifs at h <;> cases h
  · unfold resolveAccept at h
    split at h
    · cases h
    · cases h
    · split_ifs at h
      · cases h
      · split at h
        · next e hfault =>
          obtain ⟨state, -, hstate⟩ := List.exists_of_findSome?_eq_some hfault
          rw [Except.error.inj h, acceptFault?] at hstate
          split_ifs at hstate <;> cases hstate
        · cases h
  · unfold resolveMode at h
    split at h
    · cases h
    · split at h <;> cases h
    · cases h

/-- The parts leave nothing to check but the destination sets. -/
theorem Parts.valid_iff {d : Draft} (q : d.Parts) : q.program.Valid ↔
    ∀ s ∈ d.states.entries, ∀ t ∈ s.2.entries,
      t.2.entries ≠ [] ∧ ∀ e ∈ t.2.entries, isWeight e.2 = true := by
  constructor
  · intro h s hs t ht
    exact ⟨(h.destinations s hs t ht).nonempty, (h.destinations s hs t ht).weights⟩
  · intro h
    exact ⟨(resolveStart_eq_ok_iff.mp q.start_eq).2.2, (resolveAccept_ok q.accept_eq).2.2,
      fun s hs t ht => ⟨(h s hs t ht).1, (h s hs t ht).2,
        checkReferences_eq_ok_iff.mp q.references_eq s hs t ht⟩⟩

/-- **The last check finds flaws in destination sets only**: it has nothing to say about a draft
whose sets are not empty and hold positive finite weights. -/
theorem validate_ne_flawed {d : Draft}
    (hd : ∀ s ∈ d.states.entries, ∀ t ∈ s.2.entries,
      t.2.entries ≠ [] ∧ ∀ e ∈ t.2.entries, isWeight e.2 = true) (flaw : Program.Flaw) :
    d.validate ≠ .error (.flawed flaw) := by
  intro h
  rcases parts_or_error d with ⟨⟨q⟩⟩ | ⟨e, he, hfails⟩
  · rw [q.validate_eq, Program.flaw?_eq_none_iff.mpr (q.valid_iff.mpr hd)] at h
    cases h
  · rw [he] at h
    obtain rfl := Except.error.inj h
    exact not_partFails_flawed d flaw hfails

end Draft

end FiniteAutomata
