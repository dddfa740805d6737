import FiniteAutomata.Proofs.Simulator.Mirrors
import FiniteAutomata.Proofs.Simulator.Modes

/-! # What a run draws

In deterministic mode a branch draws where it leaves a state and a token with two or more
destinations (`Simulator.chooses`), and nowhere else: along the events of its path the draws are
taken one after the other, each choice by the next one (`Drawn`, `drawn_walk`). Otherwise nothing is
drawn at all (`draws_of_nfa`). A step reads no draw beyond those that it takes, so a run is the same
on every source that begins with the draws it takes (`run_withSource`). -/

namespace FiniteAutomata

/-! ### Choices -/

namespace Choice

variable {α : Type}

/-- **A choice that takes no draw reads none.** -/
theorem choose?_of_draws {entries : List (α × Float)} (h : draws entries = 0) (draw draw' : Float) :
    choose? entries draw = choose? entries draw' := by
  match entries with
  | [] => rfl
  | [_] => rfl
  | _ :: _ :: rest => simp [draws] at h

end Choice

namespace Simulator

variable {s : Simulator}

/-- Whether an event leaves a state and a token that have two or more destinations. -/
def chooses (s : Simulator) (e : Event) : Bool :=
  (s.destinations? e.state e.token).any (2 ≤ ·.size)

theorem drawsOn_eq (e : Event) : s.drawsOn e.state e.token = if s.chooses e then 1 else 0 := by
  rw [drawsOn, chooses]
  cases s.destinations? e.state e.token with
  | none => rfl
  | some d =>
    have hsize : (some d).any (2 ≤ ·.size) = decide (2 ≤ d.entries.length) := rfl
    rw [hsize]
    simp only [Choice.draws, decide_eq_true_eq]

/-- The destination of an event is the one that the draw with a number chooses. -/
def ChosenBy (s : Simulator) (n : Nat) (e : Event) : Prop :=
  ∀ d, s.destinations? e.state e.token = some d →
    Choice.choose? d.entries (s.draw n) = some e.destination

/-- Events along which draws are taken one after the other, from a number on. -/
def Drawn (s : Simulator) : Nat → List Event → Prop
  | _, [] => True
  | n, e :: rest => s.ChosenBy n e ∧ s.Drawn (n + s.drawsOn e.state e.token) rest

/-- **The draw of an event** is the one after those of the choices before it. -/
theorem Drawn.chosenBy {e : Event} {after : List Event} : ∀ {before : List Event} {n : Nat},
    s.Drawn n (before ++ e :: after) → s.ChosenBy (n + before.countP s.chooses) e
  | [], _, h => h.1
  | e' :: before, n, h => by
    have hrest := h.2.chosenBy
    rw [drawsOn_eq, Nat.add_assoc] at hrest
    rw [List.countP_cons, Nat.add_comm (List.countP _ _)]
    exact hrest

/-! ### The draws of a walk -/

/-- A choice that succeeds is the choice of the next draw. -/
theorem choose_chosen {d : Destinations} {m m' : Meter} {destination : Ref}
    (h : s.choose d m = (m', .ok destination)) :
    Choice.choose? d.entries (s.draw m.draws) = some destination := by
  unfold choose at h
  split at h
  · cases (Prod.mk.inj h).2
  · next chosen hchosen => rw [hchosen, Except.ok.inj (Prod.mk.inj h).2]

theorem move_chosen {state : String} {token : Token} {b : Branch} {m m' : Meter} {o : Outcome}
    (h : s.move state token b m = (m', .ok o)) :
    ∃ destination, o = .moved (b.advance ⟨b.state, token, destination⟩) ∧
      s.ChosenBy m.draws ⟨b.state, token, destination⟩ ∧
      m'.draws = m.draws + s.drawsOn b.state token := by
  have hdraws := congrArg Meter.draws (move_ok h).2
  unfold move at h
  cases hd : s.destinations? b.state token with
  | none =>
    rw [hd] at h
    dsimp only at h
    split_ifs at h
    · obtain ⟨-, ho⟩ := Prod.mk.inj h
      refine ⟨.null, (Except.ok.inj ho).symm, fun d hd' => ?_, hdraws⟩
      rw [hd] at hd'
      cases hd'
    · cases (Prod.mk.inj h).2
  | some d =>
    rw [hd] at h
    dsimp only at h
    rcases hc : s.choose d m with ⟨m₁, e | destination⟩
    · rw [hc] at h
      cases (Prod.mk.inj h).2
    · rw [hc] at h
      obtain ⟨-, ho⟩ := Prod.mk.inj h
      refine ⟨destination, (Except.ok.inj ho).symm, fun d' hd' => ?_, hdraws⟩
      rw [hd, Option.some.injEq] at hd'
      rw [← hd']
      exact choose_chosen hc

/-- A walk moves from a state that is not a sentinel and does not halt. -/
theorem proceed_eq_move (hm : s.program.mode = .dfa) {b : Branch} (hstuck : b.isStuck = false)
    (hhalts : s.halts b.state = false) (token : Token) (m : Meter) :
    ∃ state, s.proceed false token b m = s.move state token b m := by
  cases hb : b.state with
  | sentinel x => simp [Branch.isStuck, hb, Ref.isSentinel] at hstuck
  | named state =>
    rw [hb, halts] at hhalts
    refine ⟨state, ?_⟩
    simp only [proceed, hb, hhalts, Bool.false_eq_true, if_false, hm, marked_false]

/-- A step of a walk that succeeds ends its branch without a draw, or moves it along an event that
takes the next draws. -/
theorem step_drawn {token : Token} {b : Branch} {m m' : Meter} {o : Outcome}
    (hm : s.program.mode = .dfa) (h : s.step false token b m = (m', .ok o)) :
    (o.branch.isLive = false ∧ o.branch.path = b.path ∧ m'.draws = m.draws) ∨
      ∃ e, o.branch = b.advance e ∧ s.ChosenBy m.draws e ∧
        m'.draws = m.draws + s.drawsOn e.state e.token := by
  obtain ⟨-, -, m₁, hx, hp⟩ := step_ok h
  have hdraws := executeAll_draws (s := s) (s.program.commandsAt b.state)
    { m with steps := m.steps + 1 }
  rw [hx] at hdraws
  rcases proceed_moves hm hp with ⟨-, rfl, rfl⟩ | ⟨-, rfl, rfl⟩ | ⟨hstuck, hhalts, -, -⟩
  · exact Or.inl ⟨b.isLive_terminate, rfl, hdraws⟩
  · exact Or.inl ⟨b.isLive_conclude true, rfl, hdraws⟩
  · obtain ⟨state, hmove⟩ := proceed_eq_move hm hstuck hhalts token m₁
    rw [hmove] at hp
    obtain ⟨destination, rfl, hchosen, hm'⟩ := move_chosen hp
    rw [hdraws] at hchosen hm'
    exact Or.inr ⟨⟨b.state, token, destination⟩, rfl, hchosen, hm'⟩

/-- **A walk draws for its choices alone**, in the order of its path. -/
theorem drawn_walk (hm : s.program.mode = .dfa) : ∀ (tokens : List Token) (b : Branch) (m : Meter),
    ∃ events, (s.walk tokens b m).2.1.path = b.path ++ events ∧ s.Drawn m.draws events ∧
      (s.walk tokens b m).1.draws = m.draws + events.countP s.chooses
  | [], b, m => ⟨[], by simp [walk], trivial, rfl⟩
  | token :: rest, b, m => by
    cases hlive : b.isLive with
    | false =>
      rw [walk_of_not_live hlive]
      exact ⟨[], by simp, trivial, rfl⟩
    | true =>
      rw [walk_cons_of_live hlive]
      rcases hs : s.step false token b m with ⟨m₁, e | o⟩
      · exact ⟨[], by simp, trivial, (step_error hs).1⟩
      · dsimp only
        rcases step_drawn hm hs with ⟨hended, hpath, hdraws⟩ | ⟨e, ho, hchosen, hdraws⟩
        · rw [walk_of_not_live hended]
          exact ⟨[], by simp [hpath], trivial, hdraws⟩
        · obtain ⟨events, hpath, hdrawn, hrest⟩ := drawn_walk hm rest o.branch m₁
          refine ⟨e :: events, ?_, ⟨hchosen, hdraws ▸ hdrawn⟩, ?_⟩
          · rw [hpath, ho, Branch.path_advance, List.append_assoc, List.singleton_append]
          · rw [hrest, hdraws, drawsOn_eq, List.countP_cons]
            omega

/-- **A run in deterministic mode draws for its choices alone**, in the order of its path. -/
theorem drawn_run (hm : s.program.mode = .dfa) (input : Option (List Token)) :
    (s.run input).meter.draws =
        ((s.run input).branches.toList.flatMap Branch.path).countP s.chooses ∧
      ∀ b ∈ (s.run input).branches, s.Drawn 0 b.path := by
  cases input with
  | none =>
    rw [run_none_of_dfa hm]
    exact ⟨rfl, fun b hb => absurd hb (Array.not_mem_empty b)⟩
  | some word =>
    rcases h : s.walk word (.start (.named s.program.start)) {} with ⟨m, b, stop⟩
    obtain ⟨events, hpath, hdrawn, hdraws⟩ := drawn_walk hm word
      (.start (.named s.program.start)) {}
    rw [h] at hpath hdraws
    have hended : (if stop.isNone then s.settle b else b).path = events := by
      rw [Branch.path_start, List.nil_append] at hpath
      split_ifs
      · rw [path_settle, hpath]
      · exact hpath
    rw [run_of_walk hm h]
    refine ⟨?_, fun b' hb' => ?_⟩
    · rw [hdraws, List.flatMap_singleton, hended, Nat.zero_add]
    · rw [List.mem_toArray, List.mem_singleton] at hb'
      rw [hb', hended]
      exact hdrawn

/-! ### Rounds draw nothing -/

theorem proceed_meter_of_nfa (hm : s.program.mode = .nfa) (exploring : Bool) (token : Token)
    (b : Branch) (m : Meter) : (s.proceed exploring token b m).1 = m := by
  unfold proceed
  rw [hm]
  split
  · rfl
  · split_ifs <;> rfl

theorem step_draws_of_nfa (hm : s.program.mode = .nfa) (exploring : Bool) (token : Token)
    (b : Branch) (m : Meter) : (s.step exploring token b m).1.draws = m.draws := by
  rcases h : s.step exploring token b m with ⟨m', e | o⟩
  · exact (step_error h).1
  · obtain ⟨-, -, m₁, hx, hp⟩ := step_ok h
    have hdraws := executeAll_draws (s := s) (s.program.commandsAt b.state)
      { m with steps := m.steps + 1 }
    have hmeter := proceed_meter_of_nfa hm exploring token b m₁
    rw [hx] at hdraws
    rw [hp] at hmeter
    rw [← hdraws, ← hmeter]

theorem Leads.draws_of_nfa (hm : s.program.mode = .nfa) {m m' : Meter} (h : s.Leads m m') :
    m'.draws = m.draws := by
  induction h with
  | refl => rfl
  | step _ exploring token b ih => rw [step_draws_of_nfa hm, ih]

/-- **A run in nondeterministic mode draws nothing.** -/
theorem draws_of_nfa (hm : s.program.mode = .nfa) (input : Option (List Token)) :
    (s.run input).meter.draws = 0 := (leads_run input).draws_of_nfa hm

/-! ### Runs on other sources -/

/-- The simulator with another source of draws, and another seed in its options. -/
def withSource (s : Simulator) (draw : Nat → Float) (seed : Option Int) : Simulator :=
  { s with draw, options := { s.options with seed } }

variable {draw : Nat → Float} {seed : Option Int}

theorem choose_withSource {d : Destinations} {m : Meter}
    (h : ∀ n < (s.choose d m).1.draws, draw n = s.draw n) :
    (s.withSource draw seed).choose d m = s.choose d m := by
  have hchoice : Choice.choose? d.entries (draw m.draws) =
      Choice.choose? d.entries (s.draw m.draws) := by
    by_cases hdraws : Choice.draws d.entries = 0
    · exact Choice.choose?_of_draws hdraws _ _
    · have hsome : (Choice.choose? d.entries (s.draw m.draws)).isSome := by
        rw [Choice.choose?_isSome_iff]
        rintro hnil
        simp [hnil, Choice.draws] at hdraws
      obtain ⟨destination, hc⟩ := Option.isSome_iff_exists.mp hsome
      rw [choose, hc] at h
      rw [h m.draws (Nat.lt_add_of_pos_right (Nat.pos_of_ne_zero hdraws))]
  rw [choose, choose, ← hchoice]
  rfl

theorem move_withSource {state : String} {token : Token} {b : Branch} {m : Meter}
    (h : ∀ n < (s.move state token b m).1.draws, draw n = s.draw n) :
    (s.withSource draw seed).move state token b m = s.move state token b m := by
  have hdestinations : (s.withSource draw seed).destinations? b.state token =
      s.destinations? b.state token := rfl
  have hnull : (s.withSource draw seed).options.autoNull = s.options.autoNull := rfl
  unfold move at h ⊢
  rw [hdestinations, hnull]
  cases hd : s.destinations? b.state token with
  | none => rfl
  | some d =>
    rw [hd] at h
    dsimp only at h ⊢
    rw [choose_withSource]
    rcases hc : s.choose d m with ⟨m₁, e | destination⟩ <;> rw [hc] at h <;> exact h

theorem proceed_withSource {exploring : Bool} {token : Token} {b : Branch} {m : Meter}
    (h : s.program.mode = .dfa → ∀ n < (s.proceed exploring token b m).1.draws, draw n = s.draw n) :
    (s.withSource draw seed).proceed exploring token b m = s.proceed exploring token b m := by
  have hmarked : (s.withSource draw seed).marked exploring b = s.marked exploring b := rfl
  have hspawns : (s.withSource draw seed).spawns token b = s.spawns token b := rfl
  have hprogram : (s.withSource draw seed).program = s.program := rfl
  have hstop : (s.withSource draw seed).options.stopOnAccept = s.options.stopOnAccept := rfl
  unfold proceed at h ⊢
  rw [hmarked, hspawns, hprogram, hstop]
  cases hb : b.state with
  | sentinel x => rfl
  | named state =>
    rw [hb] at h
    dsimp only at h ⊢
    split_ifs at h ⊢
    · rfl
    · cases hm : s.program.mode with
      | nfa => rfl
      | dfa =>
        rw [hm] at h
        exact move_withSource (h rfl)

theorem act_withSource {exploring : Bool} {token : Token} {b : Branch} {m : Meter}
    (h : s.program.mode = .dfa → ∀ n < (s.act exploring token b m).1.draws, draw n = s.draw n) :
    (s.withSource draw seed).act exploring token b m = s.act exploring token b m := by
  have hprogram : (s.withSource draw seed).program = s.program := rfl
  have hfault : (s.withSource draw seed).tokenFault? token = s.tokenFault? token := rfl
  have hcommands : (s.withSource draw seed).executeAll = s.executeAll := by
    funext cs m
    exact executeAll_congr (s := s.withSource draw seed) (t := s) rfl rfl cs m
  unfold act at h ⊢
  rw [hprogram, hfault, hcommands]
  cases hf : s.tokenFault? token with
  | some e => rfl
  | none =>
    rw [hf] at h
    dsimp only at h ⊢
    rcases hx : s.executeAll (s.program.commandsAt b.state) m with ⟨m₁, _ | e⟩
    · rw [hx] at h
      exact proceed_withSource h
    · rfl

/-- **A step reads no draw beyond those that it takes.** -/
theorem step_withSource {exploring : Bool} {token : Token} {b : Branch} {m : Meter}
    (h : ∀ n < (s.step exploring token b m).1.draws, draw n = s.draw n) :
    (s.withSource draw seed).step exploring token b m = s.step exploring token b m := by
  have hbudget : (s.withSource draw seed).options.maxSteps = s.options.maxSteps := rfl
  rw [step_eq] at h
  rw [step_eq, step_eq, hbudget]
  split_ifs at h ⊢
  · rfl
  · exact act_withSource fun _ => h

theorem walk_withSource : ∀ (tokens : List Token) (b : Branch) (m : Meter),
    (∀ n < (s.walk tokens b m).1.draws, draw n = s.draw n) →
      (s.withSource draw seed).walk tokens b m = s.walk tokens b m
  | [], _, _, _ => rfl
  | token :: rest, b, m, h => by
    cases hlive : b.isLive with
    | false => rw [walk_of_not_live hlive, walk_of_not_live hlive]
    | true =>
      -- the draws of the first step are among those of the walk
      have hgrows := (leads_walk_cons (s := s) hlive token rest m).grows.draws
      have hstep : (s.withSource draw seed).step false token b m = s.step false token b m :=
        step_withSource fun n hn => h n (Nat.lt_of_lt_of_le hn hgrows)
      rw [walk_cons_of_live hlive] at h
      rw [walk_cons_of_live hlive, walk_cons_of_live hlive, hstep]
      rcases hs : s.step false token b m with ⟨m₁, e | o⟩
      · rfl
      · rw [hs] at h
        exact walk_withSource rest o.branch m₁ h

/-- **A run is the same on every source that begins with the draws it takes.** -/
theorem run_withSource (input : Option (List Token))
    (h : ∀ n < (s.run input).meter.draws, draw n = s.draw n) :
    (s.withSource draw seed).run input = s.run input := by
  cases hm : s.program.mode with
  | nfa =>
    have hact : ∀ exploring token b m,
        (s.withSource draw seed).act exploring token b m = s.act exploring token b m :=
      fun _ _ _ _ => act_withSource fun hdfa => absurd (hm.symm.trans hdfa) (by decide)
    exact run_congr (s := s) (t := s.withSource draw seed) rfl rfl hact input
  | dfa =>
    have hm' : (s.withSource draw seed).program.mode = .dfa := hm
    cases input with
    | none => rw [run_none_of_dfa hm, run_none_of_dfa hm']
    | some word =>
      rcases hw : s.walk word (.start (.named s.program.start)) {} with ⟨m, b, stop⟩
      rw [run_of_walk hm hw] at h ⊢
      have hwalk : (s.withSource draw seed).walk word (.start (.named s.program.start)) {} =
          (m, b, stop) := by
        rw [walk_withSource word _ _ (by rwa [hw]), hw]
      exact run_of_walk hm' hwalk

/-- Where every destination set has one entry nothing is drawn. -/
theorem draws_of_functional (hf : s.program.IsFunctional) (input : Option (List Token)) :
    (s.run input).meter.draws = 0 := by
  cases hm : s.program.mode with
  | nfa => exact draws_of_nfa hm input
  | dfa =>
    rw [(drawn_run hm input).1, List.countP_eq_zero]
    intro e _
    rw [chooses]
    cases hd : s.destinations? e.state e.token with
    | none => simp
    | some d => simp [size_of_functional hf hd]

/-- **Draws are taken where there is a choice.** A deterministic run takes one draw for each event
of its path that leaves a state and a token with two or more destinations, whether it is stopped or
not, and each event goes where the draw chooses whose number is that of the choices before it. Other
runs take none. So runs on sources that begin with the same draws, as many as one of them takes, are
the same; where every destination set has one entry they are the same on all sources. -/
theorem run_draws (s : Simulator) (input : Option (List Token)) :
    (s.program.mode = .dfa →
        (s.run input).meter.draws =
            ((s.run input).branches.toList.flatMap Branch.path).countP s.chooses ∧
          ∀ b ∈ (s.run input).branches, ∀ before e after, b.path = before ++ e :: after →
            ∀ d, s.destinations? e.state e.token = some d →
              Choice.choose? d.entries (s.draw (before.countP s.chooses)) = some e.destination) ∧
      (s.program.mode = .nfa → (s.run input).meter.draws = 0) ∧
      (∀ draw seed, (∀ n < (s.run input).meter.draws, draw n = s.draw n) →
        (s.withSource draw seed).run input = s.run input) ∧
      (s.program.IsFunctional → ∀ draw seed,
        (s.withSource draw seed).run input = s.run input) := by
  refine ⟨fun hm => ⟨(drawn_run hm input).1, fun b hb before e after hpath => ?_⟩,
    fun hm => draws_of_nfa hm input, fun draw seed h => run_withSource input h,
    fun hf draw seed => run_withSource input fun n hn => ?_⟩
  · have hdrawn := (drawn_run hm input).2 b hb
    rw [hpath] at hdrawn
    have hchosen := hdrawn.chosenBy
    rwa [Nat.zero_add] at hchosen
  · rw [draws_of_functional hf input] at hn
    exact absurd hn (Nat.not_lt_zero n)

/-- A simulator that stays at its start or leaves it, whatever the draw says. -/
def undecided : Simulator where
  program :=
    { alphabet := ["x"]
      states := Dict.ofList
        [("a", Dict.ofList [(.named "x", Dict.ofList [(.named "a", 1), (.named "b", 1)])]),
          ("b", ∅)]
      start := "a"
      accept := ["b"] }

/-- The first token takes one draw, and all that a run on it depends on is this draw. In rounds
nothing is drawn, and neither is where there is one way. -/
theorem run_draws_undecided :
    undecided.program.mode = .dfa ∧
      (undecided.run (some (tokensOfText "x"))).meter.draws = 1 ∧
      ((undecided.run (some (tokensOfText "x"))).branches.toList.flatMap Branch.path).countP
        undecided.chooses = 1 ∧
      (∀ draw, draw 0 = undecided.draw 0 →
        (undecided.withSource draw none).run (some (tokensOfText "x")) =
          undecided.run (some (tokensOfText "x"))) ∧
      ((undecided.withMode .nfa).run (some (tokensOfText "x"))).meter.draws = 0 ∧
      oneWay.program.IsFunctional ∧
      ∀ draw, (oneWay.withSource draw (some 7)).run (some (tokensOfText "xx")) =
        oneWay.run (some (tokensOfText "xx")) := by
  have h := run_draws undecided (some (tokensOfText "x"))
  have hdraws : (undecided.run (some (tokensOfText "x"))).meter.draws = 1 := by decide +kernel
  have hfunctional : oneWay.program.IsFunctional := by
    unfold Program.IsFunctional
    decide +kernel
  refine ⟨rfl, hdraws, (h.1 rfl).1.symm.trans hdraws, fun draw hdraw => ?_,
    (run_draws (undecided.withMode .nfa) _).2.1 rfl, hfunctional,
    fun draw => (run_draws oneWay _).2.2.2 hfunctional draw _⟩
  refine h.2.2.1 draw none fun n hn => ?_
  rw [hdraws, Nat.lt_one_iff] at hn
  rw [hn, hdraw]

end Simulator

end FiniteAutomata
