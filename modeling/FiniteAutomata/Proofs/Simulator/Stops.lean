import FiniteAutomata.Proofs.Simulator.Budget
import FiniteAutomata.Proofs.Traces.Branches

/-! # Why runs stop

A valid program sends a branch to nothing but its own states and the sentinels
(`knows_of_reached`), and its destination sets are never empty, so a destination can always be
chosen (`resolve_of_valid`). With what every run accounts for (`run_accounted`) this leaves five
ways for a run to stop, and each of them says the truth about the input, the program and the
branches of the run (`run_truthful`). -/

namespace FiniteAutomata

/-- A sentinel or a state that is defined. -/
def Program.Knows (p : Program) (state : Ref) : Prop :=
  ∀ name, state = .named name → name ∈ p.states

variable {p : Program}

/-! ### Valid programs -/

theorem Program.knows_sentinel (x : Sentinel) : p.Knows (.sentinel x) := by
  rintro _ ⟨⟩

/-- The destination sets of a valid program are valid, whatever state they are looked up at. -/
theorem Program.Valid.of_find? (hp : p.Valid) {state : Ref} {token : Token} {d : Destinations}
    (h : (p.table state).find? token = some d) : p.ValidDestinations d := by
  have hd := Dict.find?_eq_some_iff.mp h
  cases state with
  | sentinel x => cases hd
  | named name =>
    cases ht : p.states.find? name with
    | none =>
      rw [table, ht] at hd
      cases hd
    | some table =>
      rw [Program.table, ht] at hd
      exact hp.destinations _ (Dict.find?_eq_some_iff.mp ht) _ hd

namespace Simulator

variable {s : Simulator} {input : Option (List Token)}

theorem knows_of_mem_targets (hp : s.program.Valid) {state destination : Ref} {token : Token}
    (h : destination ∈ s.targets state token) : s.program.Knows destination := by
  unfold targets at h
  split at h
  · obtain rfl := List.mem_singleton.mp h
    exact Program.knows_sentinel _
  · next d hd =>
    obtain ⟨e, he, rfl⟩ := List.mem_map.mp h
    exact (hp.of_find? hd).known e he

/-- **A trace that the moves of a run reach stays among the states of the program.** -/
theorem knows_of_reached (hp : s.program.Valid) {t : Trace}
    (h : t.Reached s.program (s.program.movesOn input)) : s.program.Knows t.state := by
  cases h with
  | root =>
    rintro _ ⟨⟩
    exact hp.start
  | extend _ hm => exact knows_of_mem_targets hp (mem_movesOn.mp hm).2.2

/-- The tokens of a trace on a word are the first ones of it. -/
theorem tokens_of_reached {word : List Token} {t : Trace}
    (h : t.Reached s.program (s.program.movesAlong word)) :
    t.path.map Event.token = word.take t.path.length := by
  induction h with
  | root => rfl
  | @extend t move _ hm ih =>
    have htoken := (mem_movesAlong.mp hm).2.1
    rw [Trace.extend, List.map_append, ih, List.length_append, List.length_singleton,
      List.take_add_one, htoken]
    rfl

/-- **Every state and token can be resolved**: if a destination set is declared, one of it can be
chosen. -/
theorem resolve_of_valid (hp : s.program.Valid) (state : Ref) (token : Token) (m : Meter) :
    ∃ m' r, s.resolve state token m = (m', .ok r) ∧ r.destinations ≠ [] := by
  unfold resolve
  cases hd : s.destinations? state token with
  | none => exact ⟨m, _, rfl, by simp⟩
  | some d =>
    have hne : d.entries ≠ [] := (hp.of_find? hd).nonempty
    cases s.program.mode with
    | nfa => exact ⟨m, _, rfl, by simpa [Dict.keys, Entries.keys] using hne⟩
    | dfa =>
      have hsome : (Choice.choose? d.entries (s.draw m.draws)).isSome :=
        Choice.choose?_isSome_iff.mpr hne
      obtain ⟨destination, hchosen⟩ := Option.isSome_iff_exists.mp hsome
      have hchoose : ∃ m', s.choose d m = (m', .ok destination) := ⟨_, by rw [choose, hchosen]⟩
      obtain ⟨m', hm'⟩ := hchoose
      refine ⟨m', ⟨[destination], true⟩, ?_, List.cons_ne_nil destination []⟩
      dsimp only
      rw [hm']
      rfl

/-! ### Stops -/

/-- What a stop says about the run that it ends, which has gone along its branches. -/
def Truthful (s : Simulator) (input : Option (List Token)) (run : Run) : Stop → Prop
  | .missingInput => s.program.mode = .dfa ∧ input = none
  | .unknownToken name alphabet =>
    s.options.ignoreAlphabet = false ∧ name ∉ s.program.alphabet ∧
      alphabet = s.program.alphabet ∧ ∃ b ∈ run.branches, .named name ∈ s.tokensAt input b
  | .undefinedTransition state token =>
    s.program.mode = .dfa ∧ s.options.autoNull = false ∧
      (∃ table, s.program.states.find? state = some table ∧ table.find? token = none) ∧
      ∃ b rest, run.branches = #[b] ∧ b.state = .named state ∧
        input = some (b.path.map Event.token ++ token :: rest)
  | .unknownCommand c =>
    c.name ≠ "log" ∧ c.name ≠ "pause" ∧ ∃ b ∈ run.branches, c ∈ s.program.commandsAt b.state
  | .stepLimit limit => limit = s.options.maxSteps ∧ run.meter.steps = s.options.maxSteps
  | .emptyChoice => False
  | .inputEnded => False

theorem stop_missingInput_iff (s : Simulator) (input : Option (List Token)) :
    (s.run input).stop = some .missingInput ↔ s.program.mode = .dfa ∧ input = none := by
  constructor
  · intro h
    rcases run_accounted s input with ⟨hm, hinput, -⟩ | haccounted
    · exact ⟨hm, hinput⟩
    · obtain ⟨b, -, token, -, hlimit | hexplains⟩ := haccounted.stop _ h
      · cases hlimit
      · exact hexplains.elim
  · rintro ⟨hm, rfl⟩
    rw [run_none_of_dfa hm]

/-- A run in deterministic mode has one branch. -/
theorem branches_of_dfa (hm : s.program.mode = .dfa) (word : List Token) :
    ∃ b, (s.run (some word)).branches = #[b] := by
  rcases hw : s.walk word (.start (.named s.program.start)) {} with ⟨m, b, stop⟩
  rw [run_of_walk hm hw]
  exact ⟨_, rfl⟩

/-- What has been consumed when a token is tried, that token, and what is left. -/
theorem word_of_tokensAt {word : List Token} {b : Branch} {token : Token}
    (hb : s.Follows (some word) b) (ht : token ∈ s.tokensAt (some word) b) :
    ∃ rest, word = b.path.map Event.token ++ token :: rest := by
  obtain ⟨t, hreached, hplace⟩ := hb
  rw [tokensAt_of_place hplace, tokensAt, Option.mem_toList] at ht
  change word[t.path.length]? = some token at ht
  obtain ⟨hlt, htoken⟩ := List.getElem?_eq_some_iff.mp ht
  obtain ⟨-, hpath, -⟩ := Branch.place_eq_iff.mp hplace
  refine ⟨word.drop (t.path.length + 1), ?_⟩
  rw [hpath, Trace.path_branch, tokens_of_reached hreached, ← htoken]
  rw [List.getElem_cons_drop hlt, List.take_append_drop]

/-- A stop that explains itself at a branch of the run says the truth about the run. -/
theorem truthful_of_explains (hp : s.program.Valid) (hprompts : s.prompts = none)
    (haccounted : s.Accounted input (s.run input)) {b : Branch} (hb : b ∈ (s.run input).branches)
    {token : Token} (ht : token ∈ s.tokensAt input b) {e : Stop}
    (he : s.Explains b.state token e) : s.Truthful input (s.run input) e := by
  have hfollows := haccounted.branches b hb
  cases e with
  | missingInput => exact he.elim
  | stepLimit => exact he.elim
  | inputEnded => exact he hprompts
  | emptyChoice =>
    obtain ⟨d, hd, hempty⟩ := he
    exact (hp.of_find? hd).nonempty hempty
  | unknownCommand c => exact ⟨he.2.1, he.2.2, b, hb, he.1⟩
  | unknownToken name alphabet =>
    obtain ⟨rfl, hchecked, hname, halphabet⟩ := he
    exact ⟨hchecked, hname, halphabet, b, hb, ht⟩
  | undefinedTransition state token' =>
    obtain ⟨hstate, rfl, hm, hnull, hnone⟩ := he
    refine ⟨hm, hnull, ?_, ?_⟩
    · obtain ⟨t, hreached, hplace⟩ := hfollows
      have hknown := knows_of_reached hp hreached
      have hat := (Branch.place_eq_iff.mp hplace).1
      obtain ⟨table, htable⟩ := Dict.mem_iff_find?.mp (hknown state (hat.symm.trans hstate))
      refine ⟨table, htable, ?_⟩
      rwa [hstate, destinations?, Program.table, htable] at hnone
    · cases input with
      | none =>
        rw [run_none_of_dfa hm] at hb
        exact absurd hb (Array.not_mem_empty b)
      | some word =>
        obtain ⟨c, hc⟩ := branches_of_dfa hm word
        rw [hc, Array.mem_singleton] at hb
        obtain ⟨rest, hrest⟩ := word_of_tokensAt hfollows ht
        exact ⟨b, rest, hb ▸ hc, hstate, congrArg some hrest⟩

/-- What a stop says about its run is true. -/
theorem truthful_of_stop (hp : s.program.Valid) (hprompts : s.prompts = none)
    {input : Option (List Token)} {e : Stop} (he : (s.run input).stop = some e) :
    s.Truthful input (s.run input) e := by
  rcases run_accounted s input with ⟨hm, rfl, hrun⟩ | haccounted
  · rw [hrun] at he
    obtain rfl := Option.some.inj he
    exact ⟨hm, rfl⟩
  · obtain ⟨b, hb, token, ht, rfl | hexplains⟩ := haccounted.stop e he
    · exact ⟨rfl, (steps_of_limited (s := s) (n := s.options.maxSteps) he).2.1⟩
    · exact truthful_of_explains hp hprompts haccounted hb ht hexplains

/-- **Runs stop for five reasons only, and what a stop says is true.** In a valid program whose
prompts are all answered, every stop says the truth about the run (`Truthful`): none is a choice
among no destinations, since a destination can always be chosen. A run misses its input exactly if
the mode is deterministic and there is none. Every branch has gone along a trace of the program, to
a sentinel or a state that is defined. A program that was produced never meets an unknown token
without an input. -/
theorem run_truthful (hp : s.program.Valid) (hprompts : s.prompts = none)
    (input : Option (List Token)) :
    (∀ e, (s.run input).stop = some e → s.Truthful input (s.run input) e) ∧
      ((s.run input).stop = some .missingInput ↔ s.program.mode = .dfa ∧ input = none) ∧
      (∀ b ∈ (s.run input).branches, s.Follows input b ∧ s.program.Knows b.state) ∧
      (∀ state token m, ∃ m' r, s.resolve state token m = (m', .ok r) ∧ r.destinations ≠ []) ∧
      (Produced s.program → input = none →
        ∀ name alphabet, (s.run input).stop ≠ some (.unknownToken name alphabet)) := by
  refine ⟨fun e => truthful_of_stop hp hprompts, stop_missingInput_iff s input, fun b hb => ?_,
    resolve_of_valid hp, ?_⟩
  · rcases run_accounted s input with ⟨-, -, hrun⟩ | haccounted
    · rw [hrun] at hb
      exact absurd hb (Array.not_mem_empty b)
    · have hfollows := haccounted.branches b hb
      refine ⟨hfollows, ?_⟩
      obtain ⟨t, hreached, hplace⟩ := hfollows
      have hat := (Branch.place_eq_iff.mp hplace).1
      exact hat ▸ knows_of_reached hp hreached
  · rintro hproduced rfl name alphabet he
    -- without an input the tokens tried come from the tables, whose names the alphabet covers
    obtain ⟨d, hd⟩ := hproduced.exists_resolves
    obtain ⟨-, hname, -, b, -, ht⟩ := truthful_of_stop hp hprompts he
    exact hname (mem_alphabet_of_every hd ht)

/-- A deterministic program with a state that does not declare every token. -/
def partialTable : Simulator where
  program :=
    { alphabet := ["x", "y"]
      states := Dict.ofList
        [("a", Dict.ofList [(.named "x", Dict.ofList [(.named "b", 1)])]),
          ("b", Dict.ofList [(.named "x", Dict.ofList [(.named "a", 1)])])]
      start := "a"
      accept := ["a"]
      commands := ∅
      vars := ∅ }
  options := { autoNull := false }

theorem run_truthful_partialTable :
    partialTable.program.Valid ∧ partialTable.prompts = none ∧
      partialTable.Truthful (some (tokensOfText "xyx"))
        (partialTable.run (some (tokensOfText "xyx"))) (.undefinedTransition "b" (.named "y")) := by
  have hp : partialTable.program.Valid := by decide +kernel
  have h := run_truthful (s := partialTable) hp rfl (some (tokensOfText "xyx"))
  exact ⟨hp, rfl, h.1 _ (by decide +kernel)⟩

end Simulator

end FiniteAutomata
