import FiniteAutomata.Proofs.Simulator.Course
import FiniteAutomata.Proofs.Simulator.Walks

/-! # The same program in both modes

A deterministic run walks one way through the program; in nondeterministic mode the rounds go all
ways at once, so the branch of the walk is among theirs (`settle_mem_consume`). Where every
destination set has one entry there is only one way: each round has one branch to visit, and the
meter is the same up to the last step of a walk that still has a token at a sentinel, which the
rounds do not take (`consume_alone`). -/

namespace FiniteAutomata

/-- Every destination set of a program has one entry, so there is nothing to choose. -/
def Program.IsFunctional (p : Program) : Prop :=
  ∀ state ∈ p.states.entries, ∀ t ∈ state.2.entries, t.2.size = 1

namespace Simulator

variable {s : Simulator} {word : List Token}

/-- The simulator with its program in another mode. -/
def withMode (s : Simulator) (mode : Mode) : Simulator :=
  { s with program := s.program.withMode mode }

/-! ### The walk among the branches -/

theorem mem_consume_of_mem_before {b : Branch} : ∀ {tokens : List Token}
    {before frontier : Array Branch} {m : Meter}, b ∈ before →
      b ∈ (s.consume before tokens frontier m).branches
  | [], before, frontier, m, hb => by simp [consume, hb]
  | token :: rest, before, frontier, m, hb => by
    rw [consume]
    rcases s.round (.next token) frontier m with ⟨m', visited, started, _ | e⟩
    · exact mem_consume_of_mem_before (by simp [hb])
    · simp [hb]

/-- **The branch of a walk is among the branches of the rounds**, if both come to their ends. -/
theorem settle_mem_consume (hm : s.program.mode = .dfa) : ∀ {tokens : List Token}
    {before frontier : Array Branch} {m m₁ m₂ : Meter} {b b' : Branch}, b ∈ frontier →
      b.isLive = true → s.walk tokens b m₁ = (m₂, b', none) →
      ((s.withMode .nfa).consume before tokens frontier m).stop = none →
      s.settle b' ∈ ((s.withMode .nfa).consume before tokens frontier m).branches
  | [], before, frontier, m, m₁, m₂, b, b', hb, hlive, hw, _ => by
    simp only [walk, Prod.mk.injEq, and_true] at hw
    obtain ⟨-, rfl⟩ := hw
    have hsettled : s.settle b ∈ (s.withMode .nfa).settleAll frontier := by
      refine Array.mem_map.mpr ⟨b, hb, ?_⟩
      split_ifs with hstuck
      · rw [settle_of_live hlive, close_of_stuck hlive hstuck]
      · rfl
    simp [consume, hsettled]
  | token :: rest, before, frontier, m, m₁, m₂, b, b', hb, hlive, hw, hstop => by
    rw [walk_cons_of_live hlive] at hw
    rcases hs : s.step false token b m₁ with ⟨m₃, e | o⟩
    · simp [hs] at hw
    rw [hs] at hw
    dsimp only at hw
    rw [consume] at hstop ⊢
    rcases hr : (s.withMode .nfa).round (.next token) frontier m with ⟨m', visited, started, stop⟩
    rw [hr] at hstop
    cases stop with
    | some e => simp at hstop
    | none =>
      dsimp only at hstop ⊢
      obtain ⟨m₄, m₅, v, hv, hvstop, hvisited, hstarted⟩ := mem_round hr rfl hb
      rcases step_moves hm hs with ⟨hstuck, rfl⟩ | ⟨hhalt, rfl⟩ | ⟨hstuck, hhalt, d, hd, rfl⟩
      · -- at a sentinel the walk ends one token later than the round
        rw [visit_stuck hstuck, Prod.mk.injEq] at hv
        rw [Outcome.branch, walk_of_not_live b.isLive_terminate] at hw
        simp only [Prod.mk.injEq, and_true] at hw
        obtain ⟨-, rfl⟩ := hw
        rw [← hv.2] at hvisited
        rw [settle_of_terminated rfl]
        exact mem_consume_of_mem_before (Array.mem_append.mpr (Or.inr hvisited))
      · obtain ⟨hbranch, -⟩ := visit_halts (s := s.withMode .nfa) hhalt hv hvstop
        rw [Outcome.branch, walk_of_not_live (b.isLive_conclude true)] at hw
        simp only [Prod.mk.injEq, and_true] at hw
        obtain ⟨-, rfl⟩ := hw
        rw [hbranch] at hvisited
        rw [settle_of_terminated rfl]
        exact mem_consume_of_mem_before (Array.mem_append.mpr (Or.inr hvisited))
      · obtain ⟨-, hchildren, -⟩ := visit_ok (s := s.withMode .nfa) rfl hhalt
          (Branch.isLive_iff.mp hlive).2 hv hvstop
        rw [Outcome.branch, Branch.advance_of_live hlive] at hw
        refine settle_mem_consume hm (hstarted _ ?_) (Branch.isLive_spawn _ _) hw hstop
        rw [hchildren, offspring, hstuck, if_neg (by simp)]
        simp only [Offer.tokens, List.flatMap_cons, List.flatMap_nil, List.append_nil]
        exact List.mem_map.mpr ⟨d, hd, rfl⟩

/-! ### Programs that leave nothing to choose -/

/-- A destination set that is looked up in a program that leaves nothing to choose has one entry. -/
theorem size_of_functional (hf : s.program.IsFunctional) {state : Ref} {token : Token}
    {d : Destinations} (hd : s.destinations? state token = some d) : d.size = 1 := by
  cases state with
  | sentinel x => cases hd
  | named name =>
    cases ht : s.program.states.find? name with
    | none => simp [destinations?, Program.table, ht] at hd
    | some table =>
      rw [destinations?, Program.table, ht, Option.getD_some] at hd
      exact hf _ (Dict.find?_eq_some_iff.mp ht) _ (Dict.find?_eq_some_iff.mp hd)

/-- A program that leaves nothing to choose has one target and draws nothing. -/
theorem targets_of_functional (hf : s.program.IsFunctional) {state : Ref} {token : Token}
    {destination : Ref} (h : destination ∈ s.targets state token) :
    s.targets state token = [destination] ∧ s.drawsOn state token = 0 := by
  unfold targets drawsOn at *
  cases hd : s.destinations? state token with
  | none =>
    rw [hd] at h
    exact ⟨by rw [List.mem_singleton.mp h], rfl⟩
  | some d =>
    rw [hd] at h
    obtain ⟨e, he⟩ := List.length_eq_one_iff.mp (size_of_functional hf hd)
    have hkeys : d.keys = [e.1] := by rw [Dict.keys, Entries.keys, he]; rfl
    dsimp only at h ⊢
    rw [hkeys, List.mem_singleton] at h
    exact ⟨by rw [hkeys, h], by rw [Choice.draws, he]; rfl⟩

/-- A round over one branch that a walk would move, if nothing is left to choose: it goes to the
same place with the same meter. -/
theorem round_alone (hm : s.program.mode = .dfa) (hf : s.program.IsFunctional) {token : Token}
    {b : Branch} {m m₁ : Meter} {o : Outcome} (hlive : b.isLive = true) (hstuck : b.isStuck = false)
    (h : s.step false token b m = (m₁, .ok o)) :
    (s.halts b.state = true ∧ o.branch = b.conclude true ∧
      (s.withMode .nfa).round (.next token) #[b] m = (m₁, ⟨#[b.conclude true], #[], none⟩)) ∨
    (∃ e, o.branch = b.spawn e ∧
      (s.withMode .nfa).round (.next token) #[b] m =
        (m₁, ⟨#[b.terminate], #[b.spawn e], none⟩)) := by
  obtain ⟨hlt, hfault, m₂, hx, hp⟩ := step_ok h
  have hstep : (s.withMode .nfa).step false token b m =
      (s.withMode .nfa).proceed false token b m₂ := by
    refine step_eq_proceed hlt hfault ?_
    rw [executeAll_congr (s := s.withMode .nfa) (t := s) rfl rfl]
    exact hx
  rcases proceed_moves hm hp with ⟨hb, -⟩ | ⟨hhalt, rfl, rfl⟩ | ⟨-, hhalt, ⟨d, hd, rfl⟩, rfl⟩
  · rw [hstuck] at hb
    cases hb
  · refine Or.inl ⟨hhalt, rfl, round_singleton ?_⟩
    rw [proceed_halts (s := s.withMode .nfa) hhalt] at hstep
    rw [visit, if_neg (by simp [hstuck]), Offer.tokens, tryTokens, Offer.explores, hstep]
    rfl
  · obtain ⟨htargets, hdraws⟩ := targets_of_functional hf hd
    have hspawns : (s.withMode .nfa).spawns token b = [b.spawn ⟨b.state, token, d⟩] := by
      rw [spawns, show (s.withMode .nfa).targets b.state token = _ from htargets]
      rfl
    refine Or.inr ⟨⟨b.state, token, d⟩, Branch.advance_of_live hlive _, ?_⟩
    rw [proceed_spreads (s := s.withMode .nfa) rfl hhalt hstuck, hspawns, marked_false] at hstep
    rw [hdraws]
    refine round_singleton ?_
    rw [visit, if_neg (by simp [hstuck]), Offer.tokens, tryTokens, Offer.explores, hstep]
    simp [Outcome.branch, Outcome.children, (Branch.isLive_iff.mp hlive).2, tryTokens]

/-- **The rounds of a walk that leaves nothing to choose**: one branch after the other passes on
without acceptance, and the last one is that of the walk. -/
theorem consume_alone (hm : s.program.mode = .dfa) (hf : s.program.IsFunctional) :
    ∀ {tokens : List Token} (before : Array Branch) {m m₁ : Meter} {b b' : Branch},
      b.isLive = true → s.walk tokens b m = (m₁, b', none) →
      ∃ (passed : List Branch) (m₂ : Meter), (∀ c ∈ passed, c.accepted = false) ∧
        (s.withMode .nfa).consume before tokens #[b] m =
          ⟨before ++ (passed ++ [s.settle b']).toArray, m₂, none⟩ ∧
        (m₁ = m₂ ∨ m₁ = { m₂ with steps := m₂.steps + 1 })
  | [], before, m, m₁, b, b', hlive, hw => by
    simp only [walk, Prod.mk.injEq, and_true] at hw
    obtain ⟨rfl, rfl⟩ := hw
    refine ⟨[], m, by simp, ?_, Or.inl rfl⟩
    have hsettled : (s.withMode .nfa).settleAll #[b] = #[s.settle b] := by
      refine Array.toList_inj.mp ?_
      rw [settleAll_of_live (by simpa using hlive), settle_of_live hlive]
      rfl
    rw [consume, hsettled]
    rfl
  | token :: rest, before, m, m₁, b, b', hlive, hw => by
    rw [walk_cons_of_live hlive] at hw
    rcases hs : s.step false token b m with ⟨m₂, e | o⟩
    · simp [hs] at hw
    rw [hs] at hw
    dsimp only at hw
    cases hstuck : b.isStuck with
    | true =>
      -- the walk counts a step at a sentinel, which the rounds do not visit
      obtain ⟨rfl, rfl⟩ := step_stuck hstuck hs
      rw [Outcome.branch, walk_of_not_live b.isLive_terminate] at hw
      simp only [Prod.mk.injEq, and_true] at hw
      obtain ⟨rfl, rfl⟩ := hw
      refine ⟨[], m, by simp, ?_, Or.inr rfl⟩
      rw [consume, round_singleton (visit_stuck hstuck m)]
      dsimp only
      rw [consume_empty, settle_of_terminated rfl]
      rfl
    | false =>
      rcases round_alone hm hf hlive hstuck hs with ⟨-, hbranch, hround⟩ | ⟨e, hbranch, hround⟩
      · rw [hbranch, walk_of_not_live (b.isLive_conclude true)] at hw
        simp only [Prod.mk.injEq, and_true] at hw
        obtain ⟨rfl, rfl⟩ := hw
        refine ⟨[], m₂, by simp, ?_, Or.inl rfl⟩
        rw [consume, hround]
        dsimp only
        rw [consume_empty, settle_of_terminated rfl]
        rfl
      · rw [hbranch] at hw
        obtain ⟨passed, m₃, hpassed, hconsume, hmeter⟩ :=
          consume_alone hm hf (before ++ #[b.terminate]) (b.isLive_spawn e) hw
        refine ⟨b.terminate :: passed, m₃, ?_, ?_, hmeter⟩
        · intro c hc
          rcases List.mem_cons.mp hc with rfl | hc
          · exact (Branch.isLive_iff.mp hlive).1
          · exact hpassed c hc
        · rw [consume, hround]
          dsimp only
          rw [hconsume]
          simp

/-! ### Runs -/

/-- **A deterministic run is simulated in nondeterministic mode.** If it ends normally with a branch
then this branch is among those of the run of the same program in nondeterministic mode, whenever
that ends normally too. If the program leaves nothing to choose, that does end normally, with the
same answers and the same meter, up to one step: that of a walk that still has a token at a
sentinel. -/
theorem run_withMode_nfa (hm : s.program.mode = .dfa) (hstop : (s.run (some word)).stop = none) :
    ∃ b, (s.run (some word)).branches = #[b] ∧
      (((s.withMode .nfa).run (some word)).stop = none →
        b ∈ ((s.withMode .nfa).run (some word)).branches) ∧
      (s.program.IsFunctional →
        ((s.withMode .nfa).run (some word)).stop = none ∧
          ((s.withMode .nfa).run (some word)).answers = (s.run (some word)).answers ∧
          ((s.withMode .nfa).run (some word)).meter.shown = (s.run (some word)).meter.shown ∧
          (((s.withMode .nfa).run (some word)).meter.steps = (s.run (some word)).meter.steps ∨
            ((s.withMode .nfa).run (some word)).meter.steps + 1 =
              (s.run (some word)).meter.steps)) := by
  have hrounds : (s.withMode .nfa).run (some word) =
      (s.withMode .nfa).consume #[] word #[.start (.named s.program.start)] {} := rfl
  rcases hw : s.walk word (.start (.named s.program.start)) {} with ⟨m, b, stop⟩
  have hrun := run_of_walk hm hw
  rw [hrun] at hstop
  dsimp only at hstop
  subst hstop
  refine ⟨s.settle b, by rw [hrun]; rfl, ?_, ?_⟩
  · intro hstop
    rw [hrounds] at hstop ⊢
    exact settle_mem_consume hm (by simp) rfl hw hstop
  · intro hf
    obtain ⟨passed, m₂, hpassed, hconsume, hmeter⟩ := consume_alone hm hf #[] rfl hw
    have hanswers : passed.filter (·.accepted) = [] := by
      simpa [List.filter_eq_nil_iff] using hpassed
    rw [hrounds, hconsume, hrun]
    refine ⟨rfl, ?_, ?_⟩
    · simp [Run.answers, answersOf, hanswers]
    · rcases hmeter with rfl | rfl
      · exact ⟨rfl, Or.inl rfl⟩
      · exact ⟨rfl, Or.inr rfl⟩

/-- A program that leaves nothing to choose, writes a line on its way and comes to `null`. -/
def oneWay : Simulator where
  program :=
    { alphabet := ["x"]
      states := Dict.ofList
        [("a", Dict.ofList [(.named "x", Dict.ofList [(.named "b", 1)])]),
          ("b", Dict.ofList [(.named "x", Dict.ofList [(.null, 1)])])]
      start := "a"
      accept := ["b"]
      mode := .dfa
      commands := Dict.ofList [("b", [⟨"log", ["passed"]⟩])]
      vars := ∅ }

theorem run_withMode_nfa_oneWay :
    oneWay.program.mode = .dfa ∧ oneWay.program.IsFunctional ∧
      (oneWay.run (some (List.replicate 4 (.named "x")))).stop = none ∧
      ∃ b, (oneWay.run (some (List.replicate 4 (.named "x")))).branches = #[b] ∧
        b ∈ ((oneWay.withMode .nfa).run (some (List.replicate 4 (.named "x")))).branches ∧
        ((oneWay.withMode .nfa).run (some (List.replicate 4 (.named "x")))).meter.steps + 1 =
          (oneWay.run (some (List.replicate 4 (.named "x")))).meter.steps := by
  have hf : oneWay.program.IsFunctional := by unfold Program.IsFunctional; decide
  have hstop : (oneWay.run (some (List.replicate 4 (.named "x")))).stop = none := by decide
  obtain ⟨b, hb, hmem, hsame⟩ := run_withMode_nfa (s := oneWay) rfl hstop
  obtain ⟨hends, -, -, hsteps⟩ := hsame hf
  exact ⟨rfl, hf, hstop, b, hb, hmem hends, hsteps.resolve_left (by decide)⟩

end Simulator

end FiniteAutomata
