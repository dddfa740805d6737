import FiniteAutomata.Proofs.Simulator.Budget

/-! # Guards

Two guards may stop a step: one refuses tokens outside of the alphabet, the other one transitions
that are not defined, and each of them can be relaxed by an option. A guard stops a step before
anything depends on it, so that the step of a relaxed simulator is the same, unless the guard trips
(`alongside_relaxed`). So relaxing a guard changes nothing about a run that does not trip it; and a
run that trips it is what comes first in the relaxed run (`run_relaxed`). -/

namespace FiniteAutomata

/-- What may refuse to take a step: the alphabet, if the token is not in it, or the table, if it
does not define a transition. -/
inductive Guard where
  | alphabet
  | transitions
deriving DecidableEq, Repr

/-- The stops that a guard causes. -/
def Guard.Causes : Guard → Stop → Prop
  | .alphabet, e => ∃ name alphabet, e = .unknownToken name alphabet
  | .transitions, e => ∃ state token, e = .undefinedTransition state token

/-- Comparing a run under a guard with the relaxed one: what the first one has used and shown when
the guard trips is the beginning of what the second one uses and shows. -/
def Guard.comparison (g : Guard) : Simulator.Comparison where
  report := id
  Trips := g.Causes
  Behind _ m m' := m.Grows m'
  Within _ := True

namespace Simulator

variable {s : Simulator} {g : Guard}

/-- The simulator with a guard in force or relaxed, all else being as it is. -/
def withGuard (s : Simulator) (g : Guard) (relaxed : Bool) : Simulator :=
  match g with
  | .alphabet => { s with options := { s.options with ignoreAlphabet := relaxed } }
  | .transitions => { s with options := { s.options with autoNull := relaxed } }

/-- The simulator with a guard in force. -/
abbrev strict (s : Simulator) (g : Guard) : Simulator := s.withGuard g false

/-- The simulator with a guard relaxed. -/
abbrev relaxed (s : Simulator) (g : Guard) : Simulator := s.withGuard g true

@[simp] theorem program_withGuard (relaxed : Bool) :
    (s.withGuard g relaxed).program = s.program := by
  cases g <;> rfl

@[simp] theorem maxSteps_withGuard (relaxed : Bool) :
    (s.withGuard g relaxed).options.maxSteps = s.options.maxSteps := by
  cases g <;> rfl

theorem withGuard_withBudget (relaxed : Bool) (n : Nat) :
    (s.withBudget n).withGuard g relaxed = (s.withGuard g relaxed).withBudget n := by
  cases g <;> rfl

theorem executeAll_withGuard (relaxed : Bool) (cs : List Command) (m : Meter) :
    (s.withGuard g relaxed).executeAll cs m = s.executeAll cs m := by
  refine executeAll_congr ?_ ?_ cs m <;> cases g <;> rfl

/-! ### Steps -/

/-- What stops a step under a relaxed guard is not that guard. -/
theorem not_causes_of_explains {state : Ref} {token : Token} {e : Stop}
    (h : (s.relaxed g).Explains state token e) : ¬ g.Causes e := by
  intro hcauses
  cases g with
  | alphabet =>
    obtain ⟨name, alphabet, rfl⟩ := hcauses
    obtain ⟨-, hchecked, -⟩ := h
    cases hchecked
  | transitions =>
    obtain ⟨name, token', rfl⟩ := hcauses
    obtain ⟨-, -, -, hguarded, -⟩ := h
    cases hguarded

/-- A guard that lets a token pass might as well be relaxed. -/
theorem tokenFault?_strict (s : Simulator) (g : Guard) (token : Token) :
    (s.strict g).tokenFault? token = (s.relaxed g).tokenFault? token ∨
      ∃ e, (s.strict g).tokenFault? token = some e ∧ g.Causes e := by
  cases g with
  | transitions => exact Or.inl rfl
  | alphabet =>
    cases hf : (s.strict .alphabet).tokenFault? token with
    | none => exact Or.inl (tokenFault?_eq_none_iff.mpr (Or.inl rfl)).symm
    | some e =>
      refine Or.inr ⟨e, rfl, ?_⟩
      unfold tokenFault? at hf
      split at hf
      · cases hf
      · split_ifs at hf
        exact ⟨_, _, (Option.some.inj hf).symm⟩

/-- A guard that lets a transition pass might as well be relaxed. -/
theorem move_strict (s : Simulator) (g : Guard) (state : String) (token : Token) (b : Branch)
    (m : Meter) : (s.strict g).move state token b m = (s.relaxed g).move state token b m ∨
      ∃ e, (s.strict g).move state token b m = (m, .error e) ∧ g.Causes e := by
  cases g with
  | alphabet => exact Or.inl rfl
  | transitions =>
    unfold move
    cases hd : (s.strict .transitions).destinations? b.state token with
    | none => exact Or.inr ⟨_, rfl, state, token, rfl⟩
    | some d =>
      have hd' : (s.relaxed .transitions).destinations? b.state token = some d := hd
      rw [hd']
      exact Or.inl rfl

theorem proceed_strict (s : Simulator) (g : Guard) (exploring : Bool) (token : Token) (b : Branch)
    (m : Meter) :
    (s.strict g).proceed exploring token b m = (s.relaxed g).proceed exploring token b m ∨
      ∃ e, (s.strict g).proceed exploring token b m = (m, .error e) ∧ g.Causes e := by
  have hmarked : (s.strict g).marked exploring b = (s.relaxed g).marked exploring b := by
    cases g <;> rfl
  have hspawns : (s.strict g).spawns token b = (s.relaxed g).spawns token b := by
    cases g <;> rfl
  have hstops : (s.strict g).options.stopOnAccept = (s.relaxed g).options.stopOnAccept := by
    cases g <;> rfl
  unfold proceed
  cases b.state with
  | sentinel x => exact Or.inl rfl
  | named state =>
    simp only [program_withGuard, hmarked, hspawns, hstops]
    split_ifs
    · exact Or.inl rfl
    · cases s.program.mode with
      | dfa => exact move_strict s g state token _ m
      | nfa => exact Or.inl rfl

/-- **What a guard does to a step that is counted**: nothing, or it stops the step, and the relaxed
step goes on from there. -/
theorem act_strict (s : Simulator) (g : Guard) (exploring : Bool) (token : Token) (b : Branch)
    (m : Meter) : (s.strict g).act exploring token b m = (s.relaxed g).act exploring token b m ∨
      ∃ e, ((s.strict g).act exploring token b m).2 = .error e ∧ g.Causes e ∧
        ((s.strict g).act exploring token b m).1.Grows
          ((s.relaxed g).act exploring token b m).1 := by
  have hgrows := (act_grows (s := s.relaxed g) exploring token b m).1
  unfold act at hgrows ⊢
  rcases tokenFault?_strict s g token with hsame | ⟨e, hf, hcauses⟩
  · rw [hsame]
    cases (s.relaxed g).tokenFault? token with
    | some e => exact Or.inl rfl
    | none =>
      -- the commands are the same, and so is where they lead
      simp only [program_withGuard, executeAll_withGuard]
      rcases s.executeAll (s.program.commandsAt b.state) m with ⟨m₁, _ | e⟩
      · dsimp only
        have hproceeds := (proceed_grows (s := s.relaxed g) exploring token b m₁).1
        rcases proceed_strict s g exploring token b m₁ with hsame | ⟨e, hstrict, hcauses⟩
        · exact Or.inl hsame
        · exact Or.inr ⟨e, by rw [hstrict], hcauses, by rw [hstrict]; exact hproceeds⟩
      · exact Or.inl rfl
  · rw [hf]
    exact Or.inr ⟨e, rfl, hcauses, hgrows⟩

/-- **A guard and its relaxation go side by side.** -/
theorem alongside_relaxed (s : Simulator) (g : Guard) :
    Alongside g.comparison (s.strict g) (s.relaxed g) where
  mode := by simp
  start := by simp
  accepts := by simp
  tokens := by simp
  missing := ⟨rfl, by cases g <;> rintro ⟨_, _, h⟩ <;> cases h⟩
  empty := trivial
  stays _ _ := trivial
  later := Meter.Grows.trans
  steps exploring token b m _ := by
    have hlimit : (s.strict g).options.maxSteps = (s.relaxed g).options.maxSteps := by simp
    have hstop : ∀ e, Part.step.stop ((s.relaxed g).step exploring token b m).2 = some e →
        ¬ g.Causes e := by
      intro e he
      have herror : ((s.relaxed g).step exploring token b m).2 = .error e := by
        cases hr : ((s.relaxed g).step exploring token b m).2 with
        | ok o => rw [hr] at he; cases he
        | error e' => rw [hr] at he; exact congrArg Except.error (Option.some.inj he)
      rcases stop_of_step herror with rfl | hexplains
      · cases g <;> rintro ⟨_, _, h⟩ <;> cases h
      · exact not_causes_of_explains hexplains
    have htogether : (s.strict g).step exploring token b m =
        (s.relaxed g).step exploring token b m →
        Abreast g.comparison .step ((s.strict g).step exploring token b m)
          ((s.relaxed g).step exploring token b m) := by
      intro hsame
      rw [hsame]
      refine .together ?_ hstop
      rcases (s.relaxed g).step exploring token b m with ⟨m₁, e | o⟩ <;> rfl
    by_cases hspent : (s.strict g).options.maxSteps ≤ m.steps
    · refine htogether ?_
      rw [step_eq, step_eq, if_pos hspent, hlimit, if_pos (hlimit ▸ hspent)]
    · have hleft : ¬ (s.relaxed g).options.maxSteps ≤ m.steps := hlimit ▸ hspent
      rcases act_strict s g exploring token b { m with steps := m.steps + 1 } with
        hsame | ⟨e, he, hcauses, hgrows⟩
      · refine htogether ?_
        rw [step_eq, step_eq, if_neg hspent, if_neg hleft, hsame]
      · rw [step_eq, step_eq, if_neg hspent, if_neg hleft]
        exact .tripped (by rw [he]; rfl) hcauses hgrows trivial

/-! ### Runs -/

/-- A run that its guard does not stop is the relaxed run. -/
theorem run_relaxed_of_untripped (input : Option (List Token))
    (h : ∀ e, ((s.strict g).run input).stop = some e → ¬ g.Causes e) :
    (s.relaxed g).run input = (s.strict g).run input := by
  rcases (alongside_relaxed s g).run input with ⟨hsame, -⟩ | ⟨hstop, hcauses, -, -⟩
  · refine (Prod.mk.inj hsame).2.trans ?_
    simp [Part.run, Guard.comparison]
  · exact absurd hcauses (h _ hstop)

/-- **Relaxing a guard changes nothing about a run that does not trip it.** A run that trips it has
gone through the same steps as the relaxed run up to the one that trips, so that within every budget
that ends before they are the same; what it has used, shown and explored comes first in the relaxed
run. -/
theorem run_relaxed (s : Simulator) (g : Guard) (input : Option (List Token)) :
    ((∀ e, ((s.strict g).run input).stop = some e → ¬ g.Causes e) →
      (s.relaxed g).run input = (s.strict g).run input) ∧
    ∀ e, ((s.strict g).run input).stop = some e → g.Causes e →
      (∀ n < ((s.strict g).run input).meter.steps,
        ((s.strict g).withBudget n).run input = ((s.relaxed g).withBudget n).run input ∧
        (((s.strict g).withBudget n).run input).stop = some (.stepLimit n)) ∧
      ((s.strict g).run input).meter.Grows ((s.relaxed g).run input).meter ∧
      Precedes s.program.mode ((s.strict g).run input) ((s.relaxed g).run input) := by
  refine ⟨run_relaxed_of_untripped input, fun e hstop hcauses => ⟨fun n hn => ?_, ?_⟩⟩
  · have hwithin := (leads_run (s := s.strict g) input).within (Nat.zero_le _)
    have hlt : n < (s.strict g).options.maxSteps := Nat.lt_of_lt_of_le hn hwithin
    rcases run_cut (s := s.strict g) hlt input with ⟨hsame, -⟩ | ⟨hlimit, -⟩
    · -- a run within the smaller budget cannot take that many steps
      have hfew := (leads_run (s := (s.strict g).withBudget n) input).within (Nat.zero_le _)
      have hsteps := congrArg (fun p => p.1.steps) hsame
      exact absurd (hsteps ▸ hfew) (Nat.not_le.mpr hn)
    · refine ⟨?_, hlimit⟩
      have hlimit' : (((s.withBudget n).strict g).run input).stop = some (.stepLimit n) := by
        rw [strict, withGuard_withBudget]
        exact hlimit
      have huntripped : ∀ e, (((s.withBudget n).strict g).run input).stop = some e →
          ¬ g.Causes e := by
        intro e he
        obtain rfl : Stop.stepLimit n = e := Option.some.inj (hlimit'.symm.trans he)
        cases g <;> rintro ⟨_, _, h⟩ <;> cases h
      have hrun := run_relaxed_of_untripped input huntripped
      rw [strict, relaxed, withGuard_withBudget, withGuard_withBudget] at hrun
      exact hrun.symm
  · rcases (alongside_relaxed s g).run input with ⟨-, hfree⟩ | ⟨-, -, hgrows, hprecedes⟩
    · exact absurd hcauses (hfree e hstop)
    · rw [program_withGuard] at hprecedes
      exact ⟨hgrows, hprecedes⟩

/-- A program with a gap: at its only state, `y` leads nowhere. -/
def gapped : Simulator where
  program :=
    { alphabet := ["x", "y"]
      states := Dict.ofList [("a", Dict.ofList [(.named "x", Dict.ofList [(.named "a", 1)])])]
      start := "a"
      accept := ["a"]
      mode := .dfa
      commands := Dict.ofList [("a", [⟨"log", ["passed"]⟩])]
      vars := ∅ }

/-- A word that comes to the gap and goes on. -/
def gappedWord : Option (List Token) := some (tokensOfText "xyx")

/-- The alphabet never refuses a token of the word; the table refuses the `y`, after two steps. -/
theorem run_relaxed_gapped :
    (gapped.relaxed .alphabet).run gappedWord = (gapped.strict .alphabet).run gappedWord ∧
    ((gapped.strict .transitions).run gappedWord).stop =
      some (.undefinedTransition "a" (.named "y")) ∧
    ((gapped.strict .transitions).run gappedWord).meter.steps = 2 ∧
    (∀ n < ((gapped.strict .transitions).run gappedWord).meter.steps,
      ((gapped.strict .transitions).withBudget n).run gappedWord =
        ((gapped.relaxed .transitions).withBudget n).run gappedWord ∧
      (((gapped.strict .transitions).withBudget n).run gappedWord).stop = some (.stepLimit n)) ∧
    ((gapped.strict .transitions).run gappedWord).meter.Grows
      ((gapped.relaxed .transitions).run gappedWord).meter ∧
    Precedes .dfa ((gapped.strict .transitions).run gappedWord)
      ((gapped.relaxed .transitions).run gappedWord) := by
  have halphabet : ((gapped.strict .alphabet).run gappedWord).stop =
      some (.undefinedTransition "a" (.named "y")) := by decide +kernel
  have htable : ((gapped.strict .transitions).run gappedWord).stop =
      some (.undefinedTransition "a" (.named "y")) := by decide +kernel
  have huntripped : ∀ e, ((gapped.strict .alphabet).run gappedWord).stop = some e →
      ¬ Guard.alphabet.Causes e := by
    intro e he
    rw [halphabet] at he
    cases he
    rintro ⟨_, _, h⟩
    cases h
  refine ⟨(run_relaxed gapped .alphabet _).1 huntripped, htable, by decide +kernel, ?_⟩
  exact (run_relaxed gapped .transitions _).2 _ htable ⟨_, _, rfl⟩

end Simulator

end FiniteAutomata
