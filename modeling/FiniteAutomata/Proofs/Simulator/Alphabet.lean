import FiniteAutomata.Proofs.Simulator.Modes
import FiniteAutomata.Proofs.Simulator.Stops

/-! # Tokens outside of the alphabet

A token is checked when a branch is about to consume it. So a run goes along a word as along the
part before the first unknown token (`walk_append`, `consume_append`), and what happens then depends
on whether a branch of that part has come so far (`Arrives`): if one has, the step on the token
cannot succeed (`step_unknown`), and if none has, the rest of the word is never looked at
(`meets_unknown`). A run on a word with an unknown token therefore ends normally exactly if all its
branches have ended before it (`run_refuses`). -/

namespace FiniteAutomata.Simulator

variable {s : Simulator} {done rest : List Token}

/-- A token outside of the alphabet that is checked. -/
def Unknown (s : Simulator) (name : String) : Prop :=
  s.options.ignoreAlphabet = false ∧ name ∉ s.program.alphabet

/-- A branch of the run on `done` would consume one more token: it has consumed all of `done`, and
in rounds it also stands at a name, as those at a sentinel are not visited again. -/
def Arrives (s : Simulator) (done : List Token) : Prop :=
  ∃ b ∈ (s.run (some done)).branches,
    b.position = done.length ∧ (s.program.mode = .nfa → b.isStuck = false)

/-- A stop on a name outside of the alphabet, or before it for want of steps. -/
def Refuses (s : Simulator) (name : String) (stop : Option Stop) : Prop :=
  stop = some (.stepLimit s.options.maxSteps) ∨
    stop = some (.unknownToken name s.program.alphabet)

/-- How the run on a word that has a name after `done` compares with the run on `done`: it is the
same, and no branch has come so far, or a branch has arrived at the name, and it is refused. -/
inductive Meets (s : Simulator) (name : String) (done rest : List Token) : Prop
  | unseen (same : s.run (some (done ++ .named name :: rest)) = s.run (some done))
      (absent : (s.run (some done)).stop = none → ¬ s.Arrives done)
  | refused (normal : (s.run (some done)).stop = none) (arrives : s.Arrives done)
      (refuses : s.Refuses name (s.run (some (done ++ .named name :: rest))).stop)

variable {name : String}

theorem Refuses.ne_none {stop : Option Stop} (h : s.Refuses name stop) : stop ≠ none := by
  rintro rfl
  rcases h with h | h <;> cases h

/-! ### Steps on an unknown token -/

theorem tokenFault?_unknown (h : s.Unknown name) :
    s.tokenFault? (.named name) = some (.unknownToken name s.program.alphabet) := by
  simp [tokenFault?, h.1, h.2]

/-- **No step on an unknown token succeeds.** -/
theorem step_unknown (h : s.Unknown name) (exploring : Bool) (b : Branch) (m : Meter) :
    ∃ m' e, s.step exploring (.named name) b m = (m', .error e) ∧ s.Refuses name (some e) := by
  rw [step_eq]
  split_ifs
  · exact ⟨m, _, rfl, Or.inl rfl⟩
  · rw [act, tokenFault?_unknown h]
    exact ⟨_, _, rfl, Or.inr rfl⟩

/-! ### Walks -/

/-- A walk along a word goes along its first part, and then along the rest. -/
theorem walk_append (rest : List Token) : ∀ (done : List Token) (b : Branch) (m : Meter),
    s.walk (done ++ rest) b m =
      match s.walk done b m with
      | (m, b, none) => s.walk rest b m
      | stopped => stopped
  | [], _, _ => rfl
  | token :: done, b, m => by
    cases hb : b.isLive with
    | false => simp only [walk_of_not_live hb]
    | true =>
      rw [List.cons_append, walk_cons_of_live hb, walk_cons_of_live hb]
      rcases hs : s.step false token b m with ⟨m₁, e | o⟩
      · rfl
      · exact walk_append rest done o.branch m₁

/-- A walk that nothing stops has consumed all of its tokens exactly if its branch is still live. -/
theorem position_walk (hm : s.program.mode = .dfa) :
    ∀ (tokens : List Token) (b : Branch) (m : Meter), b.isLive = true →
      (s.walk tokens b m).2.2 = none →
      ((s.walk tokens b m).2.1.isLive = true ↔
        (s.walk tokens b m).2.1.position = b.position + tokens.length)
  | [], b, m, hlive, _ => by simp [walk, hlive]
  | token :: rest, b, m, hlive, hstop => by
    rw [walk_cons_of_live hlive] at hstop ⊢
    rcases hs : s.step false token b m with ⟨m₁, e | o⟩
    · rw [hs] at hstop
      cases hstop
    · rw [hs] at hstop
      dsimp only at hstop ⊢
      rcases step_moves hm hs with ⟨-, rfl⟩ | ⟨-, rfl⟩ | ⟨-, -, d, -, rfl⟩
      · -- a branch that ends here leaves this token unread
        rw [Outcome.branch, walk_of_not_live b.isLive_terminate]
        simp [Branch.terminate, Branch.isLive]
      · rw [Outcome.branch, walk_of_not_live (b.isLive_conclude true)]
        simp [Branch.conclude, Branch.isLive]
      · rw [Outcome.branch, Branch.advance_of_live hlive] at hstop ⊢
        rw [position_walk hm rest _ m₁ (b.isLive_spawn _) hstop, List.length_cons,
          Nat.add_comm rest.length, ← Nat.add_assoc]
        rfl

theorem position_settle (b : Branch) : (s.settle b).position = b.position :=
  (Branch.place_eq_iff.mp (place_settle b)).2.2

/-! ### Rounds -/

/-- What holds before round `k`: the branches of the rounds before have consumed less than `k`
tokens, and those of the frontier `k`. -/
structure Consumed (k : ℕ) (before frontier : Array Branch) : Prop where
  done : ∀ b ∈ before, b.position < k
  pending : ∀ b ∈ frontier, b.position = k

theorem Consumed.round {k : ℕ} {before frontier : Array Branch} {offer : Offer} {m m' : Meter}
    {r : Round} (hm : s.program.mode = .nfa) (h : Consumed k before frontier)
    (hr : s.round offer frontier m = (m', r)) :
    Consumed (k + 1) (before ++ r.visited) r.started := by
  have hplaces := places_round (s := s) hm offer frontier m
  have hvisited : s.visitAll offer frontier.toList {} m = (m', r) := hr
  have hstarted := (of_visitAll (s := s) hm offer frontier.toList {} m rfl).2
  rw [hvisited] at hstarted
  rw [hr] at hplaces
  refine ⟨fun b hb => ?_, fun c hc => ?_⟩
  · rcases Array.mem_append.mp hb with hb | hb
    · exact Nat.lt_succ_of_lt (h.done b hb)
    · obtain ⟨c, hc, hplace⟩ := exists_of_places hplaces hb
      rw [← (Branch.place_eq_iff.mp hplace).2.2, h.pending c hc]
      exact Nat.lt_succ_self k
  · rcases hstarted c hc with hc | ⟨b, hb, -, token, -, hspawned⟩
    · exact absurd hc (Array.not_mem_empty c)
    · obtain ⟨d, -, rfl⟩ := List.mem_map.mp hspawned
      exact congrArg (· + 1) (h.pending b (Array.mem_toList_iff.mp hb))

/-- Rounds along a word stop in its first part, whatever the rest, or they go on along the rest from
where the first part has led. -/
theorem consume_append (hm : s.program.mode = .nfa) :
    ∀ (done : List Token) {k : ℕ} {before frontier : Array Branch} (m : Meter),
      Consumed k before frontier →
      ((s.consume before done frontier m).stop ≠ none ∧
        ∀ rest, s.consume before (done ++ rest) frontier m = s.consume before done frontier m) ∨
      ∃ before' frontier' m', Consumed (k + done.length) before' frontier' ∧
        ∀ rest, s.consume before (done ++ rest) frontier m = s.consume before' rest frontier' m'
  | [], k, before, frontier, m, h => Or.inr ⟨before, frontier, m, h, fun _ => rfl⟩
  | token :: done, k, before, frontier, m, h => by
    rcases hr : s.round (.next token) frontier m with ⟨m₁, visited, started, _ | e⟩
    · have hrest := consume_append hm done m₁ (h.round hm hr)
      simp only [List.cons_append, consume, hr, List.length_cons]
      rwa [Nat.add_comm done.length, ← Nat.add_assoc]
    · refine Or.inl ⟨?_, fun rest => ?_⟩ <;> simp [consume, hr]

/-- A round over branches at sentinels ends all of them. -/
theorem visitAll_stuck (offer : Offer) : ∀ (frontier : List Branch) (r : Round) (m : Meter),
    r.stop = none → (∀ b ∈ frontier, b.isStuck = true) →
    s.visitAll offer frontier r m =
      (m, ⟨r.visited ++ (frontier.map Branch.terminate).toArray, r.started, none⟩)
  | [], r, m, hr, _ => by simp [visitAll, ← hr]
  | b :: rest, r, m, _, hstuck => by
    rw [visitAll, visit_stuck (hstuck b List.mem_cons_self)]
    dsimp only
    rw [visitAll_stuck offer rest _ m rfl fun c hc => hstuck c (List.mem_cons_of_mem _ hc)]
    simp

/-- Rounds over branches at sentinels end with them, whatever is left of the word. -/
theorem consume_stuck {before frontier : Array Branch} {token : Token} {m : Meter}
    (hstuck : ∀ b ∈ frontier.toList, b.isStuck = true) :
    s.consume before (token :: rest) frontier m = ⟨before ++ s.settleAll frontier, m, none⟩ := by
  have hround : s.round (.next token) frontier m =
      (m, ⟨(frontier.toList.map Branch.terminate).toArray, #[], none⟩) := by
    rw [round, visitAll_stuck _ _ _ _ rfl hstuck]
    simp
  have hsettled : s.settleAll frontier = (frontier.toList.map Branch.terminate).toArray := by
    rw [settleAll, ← Array.toList_inj, Array.toList_map]
    exact List.map_congr_left fun b hb => if_pos (hstuck b hb)
  rw [consume, hround, hsettled]
  exact consume_empty _ rest m

/-- The branches that have consumed the whole word are those of the last frontier. -/
theorem Consumed.arrives_iff {k : ℕ} {before frontier : Array Branch} (hm : s.program.mode = .nfa)
    (h : Consumed k before frontier) {length : ℕ} (hk : k = length) :
    (∃ b ∈ before ++ s.settleAll frontier,
        b.position = length ∧ (s.program.mode = .nfa → b.isStuck = false)) ↔
      ∃ b ∈ frontier, b.isStuck = false := by
  subst hk
  have hplaces := places_settleAll (s := s) frontier
  constructor
  · rintro ⟨b, hb, hposition, hname⟩
    rcases Array.mem_append.mp hb with hb | hb
    · exact absurd hposition (h.done b hb).ne
    · obtain ⟨c, hc, hplace⟩ := exists_of_places hplaces hb
      have hstate := (Branch.place_eq_iff.mp hplace).1
      exact ⟨c, hc, by rw [Branch.isStuck, hstate]; exact hname hm⟩
  · rintro ⟨c, hc, hname⟩
    obtain ⟨b, hb, hplace⟩ := exists_of_places hplaces.symm hc
    obtain ⟨hstate, -, hposition⟩ := Branch.place_eq_iff.mp hplace
    refine ⟨b, Array.mem_append.mpr (Or.inr hb), hposition.trans (h.pending c hc), fun _ => ?_⟩
    rw [Branch.isStuck, hstate]
    exact hname

/-- A round on an unknown token is stopped by the first branch that stands at a name. -/
theorem visitAll_unknown (h : s.Unknown name) : ∀ (frontier : List Branch) (r : Round) (m : Meter),
    (∃ b ∈ frontier, b.isStuck = false) →
    s.Refuses name (s.visitAll (.next (.named name)) frontier r m).2.stop
  | [], _, _, hb => by simp at hb
  | b :: rest, r, m, hb => by
    rw [visitAll]
    cases hstuck : b.isStuck with
    | true =>
      rw [visit_stuck hstuck]
      refine visitAll_unknown h rest _ m ?_
      obtain ⟨c, hc, hname⟩ := hb
      rcases List.mem_cons.mp hc with rfl | hc
      · rw [hstuck] at hname
        cases hname
      · exact ⟨c, hc, hname⟩
    | false =>
      obtain ⟨m', e, hs, he⟩ := step_unknown h false b m
      have hvisit : s.visit (.next (.named name)) b m = (m', ⟨b, [], some e⟩) := by
        rw [visit, if_neg (by simp [hstuck]), Offer.tokens, tryTokens, Offer.explores, hs]
      rw [hvisit]
      exact he

/-! ### Runs -/

/-- A walk on a word with an unknown token: it is that on the tokens before, or its branch has
arrived at the token, which is refused. -/
theorem walk_meets_unknown (hm : s.program.mode = .dfa) (h : s.Unknown name)
    (done rest : List Token) : s.Meets name done rest := by
  have hword := walk_append (s := s) (.named name :: rest) done (.start (.named s.program.start)) {}
  have hposition := position_walk (s := s) hm done (.start (.named s.program.start)) {} rfl
  rcases hw : s.walk done (.start (.named s.program.start)) {} with ⟨m, b, _ | e⟩
  · rw [hw] at hword hposition
    have hdone := run_of_walk hm hw
    have harrives : s.Arrives done ↔ b.isLive = true := by
      rw [Arrives, hdone, hposition rfl]
      simp [hm, position_settle, Branch.start]
    cases hb : b.isLive with
    | false =>
      rw [hb] at harrives
      dsimp only at hword
      rw [walk_of_not_live hb] at hword
      exact .unseen ((run_of_walk hm hword).trans hdone.symm) fun _ => by simp [harrives]
    | true =>
      obtain ⟨m', e, hs, he⟩ := step_unknown h false b m
      dsimp only at hword
      rw [walk_cons_of_live hb, hs] at hword
      refine .refused (by rw [hdone]) (harrives.mpr hb) ?_
      rw [run_of_walk hm hword]
      exact he
  · rw [hw] at hword
    have hdone := run_of_walk hm hw
    exact .unseen ((run_of_walk hm hword).trans hdone.symm) fun hnone => by simp [hdone] at hnone

/-- Rounds on a word with an unknown token: they are those on the tokens before, or a branch has
arrived at the token, which is refused. -/
theorem rounds_meet_unknown (hm : s.program.mode = .nfa) (h : s.Unknown name)
    (done rest : List Token) : s.Meets name done rest := by
  have hrun : ∀ word, s.run (some word) =
      s.consume #[] word #[.start (.named s.program.start)] {} := fun word => by
    rw [run, runFrom, hm]
    rfl
  have hstart : Consumed 0 #[] #[.start (.named s.program.start)] :=
    ⟨by simp, by simp [Branch.start]⟩
  rcases consume_append hm done {} hstart with ⟨hstop, hsame⟩ | ⟨before, frontier, m, hc, hsame⟩
  · rw [← hrun] at hstop
    refine .unseen ?_ fun hnone => absurd hnone hstop
    rw [hrun, hrun, hsame]
  · have hdone : s.run (some done) = ⟨before ++ s.settleAll frontier, m, none⟩ := by
      have hnil := hsame []
      rw [List.append_nil] at hnil
      rw [hrun, hnil, consume]
    have hword : s.run (some (done ++ .named name :: rest)) =
        s.consume before (.named name :: rest) frontier m := by rw [hrun, hsame]
    have harrives : s.Arrives done ↔ ∃ b ∈ frontier, b.isStuck = false := by
      rw [Arrives, hdone]
      exact hc.arrives_iff hm (Nat.zero_add _)
    by_cases hlive : ∃ b ∈ frontier, b.isStuck = false
    · refine .refused (by rw [hdone]) (harrives.mpr hlive) ?_
      have hrefuses := visitAll_unknown h frontier.toList {} m (by simpa using hlive)
      rw [hword, consume]
      rcases hr : s.round (.next (.named name)) frontier m with ⟨m', visited, started, _ | e⟩
      · rw [show s.visitAll _ _ {} m = _ from hr] at hrefuses
        exact absurd rfl hrefuses.ne_none
      · rw [show s.visitAll _ _ {} m = _ from hr] at hrefuses
        exact hrefuses
    · refine .unseen ?_ fun _ => harrives.not.mpr hlive
      have hstuck : ∀ b ∈ frontier.toList, b.isStuck = true := by simpa using hlive
      rw [hword, hdone, consume_stuck hstuck]

/-- **The run on a word with an unknown token**: it is the run on the tokens before, or a branch of
that has arrived at the token, which is refused. -/
theorem meets_unknown (h : s.Unknown name) (done rest : List Token) :
    s.Meets name done rest := by
  cases hm : s.program.mode with
  | dfa => exact walk_meets_unknown hm h done rest
  | nfa => exact rounds_meet_unknown hm h done rest

/-- On known tokens a run of a valid program whose commands only write and wait is stopped by
nothing but the budget and missing transitions. -/
theorem stop_of_known (hp : s.program.Valid) (hc : s.program.OnlyLogsAndPauses)
    (hprompts : s.prompts = none) (hdone : ∀ n, .named n ∈ done → n ∈ s.program.alphabet) {e : Stop}
    (h : (s.run (some done)).stop = some e) :
    e = .stepLimit s.options.maxSteps ∨ ∃ state token, e = .undefinedTransition state token := by
  have htruthful := truthful_of_stop hp hprompts h
  cases e with
  | stepLimit limit => exact Or.inl (congrArg Stop.stepLimit htruthful.1)
  | undefinedTransition state token => exact Or.inr ⟨state, token, rfl⟩
  | missingInput => cases htruthful.2
  | emptyChoice => exact htruthful.elim
  | inputEnded => exact htruthful.elim
  | unknownToken n alphabet =>
    obtain ⟨-, hname, -, b, -, ht⟩ := htruthful
    rw [tokensAt, Option.mem_toList] at ht
    exact absurd (hdone n (List.mem_of_getElem? ht)) hname
  | unknownCommand c =>
    obtain ⟨hlog, hpause, b, -, hmem⟩ := htruthful
    have hname := hc.of_mem_commandsAt hmem
    exact absurd hname (not_or.mpr ⟨hlog, hpause⟩)

/-- **Tokens outside of the alphabet are refused where a branch arrives at them.** Let the first
token of a word that is a name outside of the alphabet come after `done`, and let that be checked.
The run on the word ends normally exactly if that on `done` does and none of its branches arrives
there; then, and if it does not end normally, both runs are the same. Where a branch arrives, the
budget suffices for the run on the word, commands only write and wait for prompts that are answered
and no transition is missing on `done`, the run is stopped by that token. -/
theorem run_refuses (hp : s.program.Valid) (h : s.Unknown name) (done rest : List Token)
    (hdone : ∀ n, .named n ∈ done → n ∈ s.program.alphabet) :
    ((s.run (some (done ++ .named name :: rest))).stop = none ↔
        (s.run (some done)).stop = none ∧ ¬ s.Arrives done) ∧
      (((s.run (some done)).stop = none → ¬ s.Arrives done) →
        s.run (some (done ++ .named name :: rest)) = s.run (some done)) ∧
      (s.Arrives done → s.program.OnlyLogsAndPauses → s.prompts = none →
        (s.run (some (done ++ .named name :: rest))).stop ≠
          some (.stepLimit s.options.maxSteps) →
        (∀ state token, (s.run (some done)).stop ≠ some (.undefinedTransition state token)) →
        (s.run (some (done ++ .named name :: rest))).stop =
          some (.unknownToken name s.program.alphabet)) := by
  rcases meets_unknown h done rest with ⟨hsame, hnone⟩ | ⟨hstop, harrives, hrefuses⟩
  · refine ⟨?_, fun _ => hsame, fun harrives hc hprompts hbudget hdefined => ?_⟩
    · rw [hsame]
      exact ⟨fun hstop => ⟨hstop, hnone hstop⟩, And.left⟩
    · -- the run on the tokens before has stopped, which only the budget or a transition does
      rw [hsame] at hbudget
      cases hstop : (s.run (some done)).stop with
      | none => exact absurd harrives (hnone hstop)
      | some e =>
        rcases stop_of_known hp hc hprompts hdone hstop with rfl | ⟨state, token, rfl⟩
        · exact absurd hstop hbudget
        · exact absurd hstop (hdefined state token)
  · refine ⟨?_, fun hnone => absurd harrives (hnone hstop), fun _ _ _ hbudget _ => ?_⟩
    · exact ⟨fun hnone => absurd hnone hrefuses.ne_none, fun hnone => absurd harrives hnone.2⟩
    · exact hrefuses.resolve_left hbudget

/-- A program with a state that has no transitions. -/
def deadEnd : Simulator where
  program :=
    { alphabet := ["x"]
      states := Dict.ofList
        [("a", Dict.ofList [(.named "x", Dict.ofList [(.named "b", 1)])]), ("b", ∅)]
      start := "a"
      accept := ["b"]
      mode := .nfa
      commands := ∅
      vars := ∅ }
  options := { autoNull := true }

theorem run_refuses_deadEnd :
    deadEnd.program.Valid ∧ deadEnd.Unknown "q" ∧ deadEnd.Arrives [.named "x"] ∧
      (deadEnd.run (some [.named "x", .named "q", .named "x"])).stop =
        some (.unknownToken "q" ["x"]) := by
  have hp : deadEnd.program.Valid := by decide +kernel
  have hq : deadEnd.Unknown "q" := ⟨rfl, by decide⟩
  have hdone : ∀ n, .named n ∈ [Ref.named "x"] → n ∈ deadEnd.program.alphabet := by simp [deadEnd]
  have harrives : deadEnd.Arrives [.named "x"] := by unfold Arrives; decide +kernel
  have hc : deadEnd.program.OnlyLogsAndPauses := by unfold Program.OnlyLogsAndPauses; decide
  have hstop : (deadEnd.run (some [.named "x"])).stop = none := by decide +kernel
  have h := run_refuses hp hq [.named "x"] [.named "x"] hdone
  refine ⟨hp, hq, harrives, h.2.2 harrives hc rfl (by decide +kernel) ?_⟩
  rw [hstop]
  simp

/-- In both modes a branch may end before an unknown token, and then the run ends normally. -/
theorem deadEnd_normal :
    deadEnd.program.Valid ∧ deadEnd.options.stopOnAccept = false ∧ deadEnd.Unknown "q" ∧
      .named "q" ∈ tokensOfText "xxxq" ∧ (deadEnd.run (some (tokensOfText "xxxq"))).stop = none ∧
      ((deadEnd.withMode .dfa).run (some (tokensOfText "xxxq"))).stop = none :=
  ⟨by decide +kernel, rfl, ⟨rfl, by decide⟩, by decide +kernel, by decide +kernel,
    by decide +kernel⟩

end FiniteAutomata.Simulator
