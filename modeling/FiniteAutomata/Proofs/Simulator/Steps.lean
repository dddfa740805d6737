import FiniteAutomata.Simulator.Run
import Mathlib.Data.Nat.Notation
import Mathlib.Tactic.SplitIfs

/-! # Steps and visits in rounds

What a step can do, said once: it counts itself if the budget allows it, and the rest of it does not
know the budget (`step_eq`). A step that succeeds was within the budget, its token and the commands
of its state gave no reason to stop, and then it went on as `proceed` says (`step_ok`). A step that
stops has met the end of the budget, or its stop explains itself by the token, the state and what
the program declares for them (`stop_of_step`).
In rounds, at a state that does not halt its branches, every step spreads (`step_spreads`), so a
visit that succeeds marks and ends its branch, starts its `offspring` and takes `visitCost` steps
(`visit_ok`); at a state that halts them it ends its branch, accepted, and starts none
(`visit_halts`). A visit that only the budget can stop succeeds exactly if the budget covers its
cost (`visit_stop`). -/

namespace FiniteAutomata.Simulator

variable {s : Simulator}

/-! ### Commands -/

theorem execute_steps (c : Command) (m : Meter) : (s.execute c m).1.steps = m.steps := by
  unfold execute
  split_ifs <;> rfl

theorem executeAll_steps : ∀ (cs : List Command) (m : Meter),
    (s.executeAll cs m).1.steps = m.steps
  | [], _ => rfl
  | c :: cs, m => by
    have hc := execute_steps (s := s) c m
    rw [executeAll]
    rcases h : s.execute c m with ⟨m₁, _ | e⟩
    · rw [h] at hc
      exact (executeAll_steps cs m₁).trans hc
    · rw [h] at hc
      exact hc

/-- A command that writes or waits does not stop a run whose prompts are all answered. -/
theorem execute_goes_on {c : Command} (hc : c.name = "log" ∨ c.name = "pause")
    (hp : s.prompts = none) (m : Meter) : (s.execute c m).2 = none := by
  unfold execute
  by_cases hl : c.name = "log"
  · rw [if_pos hl]
    split_ifs <;> rfl
  · rw [if_neg hl, if_pos (hc.resolve_left hl), hp]
    rfl

theorem executeAll_goes_on (hp : s.prompts = none) : ∀ {cs : List Command},
    (∀ c ∈ cs, c.name = "log" ∨ c.name = "pause") → ∀ m, (s.executeAll cs m).2 = none
  | [], _, _ => rfl
  | c :: cs, hcs, m => by
    have hc := execute_goes_on (hcs c (by simp)) hp m
    rw [executeAll]
    rcases h : s.execute c m with ⟨m₁, _ | e⟩
    · exact executeAll_goes_on hp (fun c' hc' => hcs c' (List.mem_cons_of_mem _ hc')) m₁
    · rw [h] at hc
      exact absurd hc (by simp)

/-- Commands read nothing but the options that silence them and the prompts that are answered. -/
theorem executeAll_congr {t : Simulator} (hq : s.options.extraQuiet = t.options.extraQuiet)
    (hp : s.prompts = t.prompts) : ∀ (cs : List Command) (m : Meter),
      s.executeAll cs m = t.executeAll cs m
  | [], _ => rfl
  | c :: cs, m => by
    have hc : s.execute c m = t.execute c m := by rw [execute, execute, hq, hp]
    rw [executeAll, executeAll, hc]
    rcases t.execute c m with ⟨m₁, _ | e⟩
    · exact executeAll_congr hq hp cs m₁
    · rfl

theorem stop_of_execute {c : Command} {m : Meter} {e : Stop} (h : (s.execute c m).2 = some e) :
    (e = .inputEnded ∧ s.prompts ≠ none) ∨
      (e = .unknownCommand c ∧ c.name ≠ "log" ∧ c.name ≠ "pause") := by
  unfold execute at h
  split_ifs at h with hlog hquiet hpause hprompts
  · refine Or.inl ⟨(Option.some.inj h).symm, fun hnone => ?_⟩
    simp [hnone] at hprompts
  · exact Or.inr ⟨(Option.some.inj h).symm, hlog, hpause⟩

/-- Commands stop a run only where input is missing or a command is unknown. -/
theorem stop_of_executeAll {e : Stop} : ∀ (cs : List Command) (m : Meter),
    (s.executeAll cs m).2 = some e → (e = .inputEnded ∧ s.prompts ≠ none) ∨
      ∃ c ∈ cs, e = .unknownCommand c ∧ c.name ≠ "log" ∧ c.name ≠ "pause"
  | [], m, h => by simp [executeAll] at h
  | c :: cs, m, h => by
    have hstop := stop_of_execute (s := s) (c := c) (m := m) (e := e)
    rw [executeAll] at h
    rcases hc : s.execute c m with ⟨m₁, _ | e'⟩
    · rw [hc] at h
      exact (stop_of_executeAll cs m₁ h).imp_right fun ⟨c', hc', he⟩ => ⟨c', by simp [hc'], he⟩
    · rw [hc] at h hstop
      exact (hstop h).imp_right fun he => ⟨c, by simp, he⟩

/-! ### Steps -/

/-- A step once it is counted: the token is checked, the commands are performed, and a transition
is taken. -/
def act (s : Simulator) (exploring : Bool) (token : Token) (b : Branch) (m : Meter) :
    Meter × Except Stop Outcome :=
  match s.tokenFault? token with
  | some e => (m, .error e)
  | none =>
    match s.executeAll (s.program.commandsAt b.state) m with
    | (m, some e) => (m, .error e)
    | (m, none) => s.proceed exploring token b m

/-- **A step counts itself**, if the budget allows it, and the rest does not know the budget. -/
theorem step_eq (exploring : Bool) (token : Token) (b : Branch) (m : Meter) :
    s.step exploring token b m =
      if s.options.maxSteps ≤ m.steps then (m, .error (.stepLimit s.options.maxSteps))
      else s.act exploring token b { m with steps := m.steps + 1 } := by
  unfold step tick
  split_ifs <;> rfl

/-! ### Why a step stops -/

/-- What a stop says about the step that it ends, if it is not the budget that ends it: about the
token, the state of the branch with its table and its commands, the options and the prompts. -/
def Explains (s : Simulator) (state : Ref) (token : Token) : Stop → Prop
  | .unknownToken name alphabet =>
    token = .named name ∧ s.options.ignoreAlphabet = false ∧ name ∉ s.program.alphabet ∧
      alphabet = s.program.alphabet
  | .undefinedTransition name token' =>
    state = .named name ∧ token' = token ∧ s.program.mode = .dfa ∧ s.options.autoNull = false ∧
      s.destinations? state token = none
  | .unknownCommand c =>
    c ∈ s.program.commandsAt state ∧ c.name ≠ "log" ∧ c.name ≠ "pause"
  | .emptyChoice => ∃ d, s.destinations? state token = some d ∧ d.entries = []
  | .inputEnded => s.prompts ≠ none
  | .missingInput => False
  | .stepLimit _ => False

theorem explains_of_tokenFault? {state : Ref} {token : Token} {e : Stop}
    (h : s.tokenFault? token = some e) : s.Explains state token e := by
  unfold tokenFault? at h
  split at h
  · cases h
  · next name =>
    split_ifs at h with hname
    rw [Bool.or_eq_true, not_or] at hname
    obtain rfl := Option.some.inj h
    exact ⟨rfl, by simpa using hname.1, by simpa using hname.2, rfl⟩

theorem stop_of_choose {d : Destinations} {m : Meter} {e : Stop}
    (h : (s.choose d m).2 = .error e) : e = .emptyChoice ∧ d.entries = [] := by
  unfold choose at h
  split at h
  · next hnone =>
    refine ⟨(Except.error.inj h).symm, Classical.not_not.mp fun hne => ?_⟩
    have hsome : (Choice.choose? d.entries (s.draw m.draws)).isSome :=
      Choice.choose?_isSome_iff.mpr hne
    rw [hnone] at hsome
    cases hsome
  · cases h

theorem stop_of_move {state : String} {token : Token} {b : Branch} {m : Meter} {e : Stop}
    (hm : s.program.mode = .dfa) (hb : b.state = .named state)
    (h : (s.move state token b m).2 = .error e) : s.Explains b.state token e := by
  unfold move at h
  split at h
  · next hnone =>
    split_ifs at h with hnull
    obtain rfl := Except.error.inj h
    exact ⟨hb, rfl, hm, by simpa using hnull, hnone⟩
  · next d hd =>
    have hchoose := stop_of_choose (s := s) (d := d) (m := m) (e := e)
    rcases hc : s.choose d m with ⟨m₁, e' | destination⟩
    · rw [hc] at h hchoose
      rw [Except.error.inj h] at hchoose
      obtain ⟨rfl, hempty⟩ := hchoose rfl
      exact ⟨d, hd, hempty⟩
    · rw [hc] at h
      cases h

theorem stop_of_proceed {exploring : Bool} {token : Token} {b : Branch} {m : Meter} {e : Stop}
    (h : (s.proceed exploring token b m).2 = .error e) : s.Explains b.state token e := by
  have hstate : (s.marked exploring b).state = b.state := by unfold marked; split_ifs <;> rfl
  unfold proceed at h
  split at h
  · cases h
  · next state hb =>
    split_ifs at h
    split at h
    · next hm => exact hstate ▸ stop_of_move hm (hstate.trans hb) h
    · cases h

/-- **Why a step that was counted stops**: its token is no symbol of the alphabet, a command stops
it, or there is no transition to take. -/
theorem stop_of_act {exploring : Bool} {token : Token} {b : Branch} {m : Meter} {e : Stop}
    (h : (s.act exploring token b m).2 = .error e) : s.Explains b.state token e := by
  unfold act at h
  split at h
  · next hf =>
    obtain rfl := Except.error.inj h
    exact explains_of_tokenFault? hf
  · have hstop := stop_of_executeAll (s := s) (e := e) (s.program.commandsAt b.state) m
    rcases hx : s.executeAll (s.program.commandsAt b.state) m with ⟨m₁, _ | e'⟩
    · rw [hx] at h
      exact stop_of_proceed h
    · rw [hx] at h hstop
      rw [Except.error.inj h] at hstop
      rcases hstop rfl with ⟨rfl, hprompts⟩ | ⟨c, hc, rfl, hname⟩
      · exact hprompts
      · exact ⟨hc, hname⟩

/-- **Why a step stops**: the budget is used up, or the stop explains itself. -/
theorem stop_of_step {exploring : Bool} {token : Token} {b : Branch} {m : Meter} {e : Stop}
    (h : (s.step exploring token b m).2 = .error e) :
    e = .stepLimit s.options.maxSteps ∨ s.Explains b.state token e := by
  rw [step_eq] at h
  split_ifs at h
  · exact Or.inl (Except.error.inj h).symm
  · exact Or.inr (stop_of_act h)

/-! ### What a step does -/

/-- **What a step that succeeds has done.** -/
theorem step_ok {exploring : Bool} {token : Token} {b : Branch} {m m' : Meter} {o : Outcome}
    (h : s.step exploring token b m = (m', .ok o)) :
    m.steps < s.options.maxSteps ∧ s.tokenFault? token = none ∧
      ∃ m₁, s.executeAll (s.program.commandsAt b.state) { m with steps := m.steps + 1 } =
        (m₁, none) ∧ s.proceed exploring token b m₁ = (m', .ok o) := by
  unfold step at h
  rcases ht : s.tick m with e | m₀
  · rw [ht] at h; simp at h
  obtain ⟨hlt, rfl⟩ := tick_eq_ok_iff.1 ht
  rw [ht] at h
  rcases hf : s.tokenFault? token with _ | e
  · rw [hf] at h
    rcases hx : s.executeAll (s.program.commandsAt b.state) { m with steps := m.steps + 1 } with
      ⟨m₁, _ | e⟩
    · simp only [hx] at h
      exact ⟨hlt, rfl, m₁, rfl, h⟩
    · simp [hx] at h
  · rw [hf] at h; simp at h

/-- A step that nothing stops before its transition. -/
theorem step_eq_proceed {exploring : Bool} {token : Token} {b : Branch} {m m₁ : Meter}
    (hlt : m.steps < s.options.maxSteps) (hf : s.tokenFault? token = none)
    (hx : s.executeAll (s.program.commandsAt b.state) { m with steps := m.steps + 1 } =
      (m₁, none)) :
    s.step exploring token b m = s.proceed exploring token b m₁ := by
  rw [step_eq, if_neg (Nat.not_le.mpr hlt), act, hf]
  dsimp only
  rw [hx]

/-- The step of a branch at a sentinel: it is counted and ends the branch. -/
theorem step_stuck {exploring : Bool} {token : Token} {b : Branch} {m m' : Meter} {o : Outcome}
    (hb : b.isStuck = true) (h : s.step exploring token b m = (m', .ok o)) :
    o = .ended b.terminate ∧ m' = { m with steps := m.steps + 1 } := by
  obtain ⟨-, -, m₁, hx, hp⟩ := step_ok h
  cases hs : b.state with
  | named state => simp [Branch.isStuck, hs, Ref.isSentinel] at hb
  | sentinel x =>
    rw [hs, Program.commandsAt, executeAll, Prod.mk.injEq] at hx
    rw [proceed, hs, ← hx.1] at hp
    simp only [Prod.mk.injEq, Except.ok.injEq] at hp
    exact ⟨hp.2.symm, hp.1.symm⟩

/-- Whether a branch ends at a state because runs are told to stop at accept states. -/
def halts (s : Simulator) (state : Ref) : Bool := s.program.accepts state && s.options.stopOnAccept

theorem halts_of_goes_on (ha : s.options.stopOnAccept = false) (state : Ref) :
    s.halts state = false := by simp [halts, ha]

/-- The step of a branch that halts: it ends, accepted. -/
theorem proceed_halts {exploring : Bool} {token : Token} {b : Branch}
    (hh : s.halts b.state = true) (m : Meter) :
    s.proceed exploring token b m = (m, .ok (.ended (b.conclude true))) := by
  unfold proceed
  cases hs : b.state with
  | named state =>
    rw [hs, halts] at hh
    simp [hh]
  | sentinel x => simp [halts, hs, Program.accepts] at hh

/-- The step of a branch that no rule ends: in rounds it spreads. -/
theorem proceed_spreads {exploring : Bool} {token : Token} {b : Branch}
    (hm : s.program.mode = .nfa) (hh : s.halts b.state = false) (hb : b.isStuck = false)
    (m : Meter) : s.proceed exploring token b m =
      (m, .ok (.spread (s.marked exploring b) (s.spawns token b))) := by
  unfold proceed
  cases hs : b.state with
  | named state =>
    rw [hs, halts] at hh
    simp [hh, hm]
  | sentinel x => simp [Branch.isStuck, hs, Ref.isSentinel] at hb

/-- **A step that succeeds spreads**: it is counted, and each target starts a branch. -/
theorem step_spreads {exploring : Bool} {token : Token} {b : Branch} {m m' : Meter} {o : Outcome}
    (hm : s.program.mode = .nfa) (hh : s.halts b.state = false) (hb : b.isStuck = false)
    (h : s.step exploring token b m = (m', .ok o)) :
    o = .spread (s.marked exploring b) (s.spawns token b) ∧ m'.steps = m.steps + 1 := by
  obtain ⟨-, -, m₁, hx, hp⟩ := step_ok h
  rw [proceed_spreads hm hh hb, Prod.mk.injEq, Except.ok.injEq] at hp
  obtain ⟨rfl, rfl⟩ := hp
  have hs := executeAll_steps (s := s) (s.program.commandsAt b.state)
    { m with steps := m.steps + 1 }
  rw [hx] at hs
  exact ⟨rfl, hs⟩

/-- At a state that is a name nothing but the budget stops a step on a token. -/
structure Free (s : Simulator) (state : Ref) (token : Token) : Prop where
  token : s.tokenFault? token = none
  commands : ∀ m, (s.executeAll (s.program.commandsAt state) m).2 = none

/-- A step that only the budget can stop succeeds exactly if the budget is not used up. -/
theorem step_free (exploring : Bool) {token : Token} {b : Branch} (hm : s.program.mode = .nfa)
    (hh : s.halts b.state = false) (hb : b.isStuck = false) (hf : s.Free b.state token)
    (m : Meter) : (m.steps < s.options.maxSteps ∧ ∃ m', s.step exploring token b m =
        (m', .ok (.spread (s.marked exploring b) (s.spawns token b)))) ∨
      (s.options.maxSteps ≤ m.steps ∧
        s.step exploring token b m = (m, .error (.stepLimit s.options.maxSteps))) := by
  rcases Nat.lt_or_ge m.steps s.options.maxSteps with hlt | hge
  · refine Or.inl ⟨hlt, ?_⟩
    have hx := hf.commands { m with steps := m.steps + 1 }
    rcases hr : s.executeAll (s.program.commandsAt b.state) { m with steps := m.steps + 1 } with
      ⟨m₁, r⟩
    rw [hr] at hx
    subst hx
    exact ⟨m₁, (step_eq_proceed hlt hf.token hr).trans (proceed_spreads hm hh hb m₁)⟩
  · refine Or.inr ⟨hge, ?_⟩
    unfold step
    rw [tick_eq_error_iff.2 ⟨hge, rfl⟩]

/-! ### Marks -/

@[simp] theorem marked_state (exploring : Bool) (b : Branch) :
    (s.marked exploring b).state = b.state := by
  unfold marked; split_ifs <;> rfl

@[simp] theorem marked_trail (exploring : Bool) (b : Branch) :
    (s.marked exploring b).trail = b.trail := by
  unfold marked; split_ifs <;> rfl

@[simp] theorem marked_position (exploring : Bool) (b : Branch) :
    (s.marked exploring b).position = b.position := by
  unfold marked; split_ifs <;> rfl

@[simp] theorem marked_terminated (exploring : Bool) (b : Branch) :
    (s.marked exploring b).terminated = b.terminated := by
  unfold marked; split_ifs <;> rfl

@[simp] theorem marked_isStuck (exploring : Bool) (b : Branch) :
    (s.marked exploring b).isStuck = b.isStuck := by simp [Branch.isStuck]

@[simp] theorem marked_marked (exploring : Bool) (b : Branch) :
    s.marked exploring (s.marked exploring b) = s.marked exploring b := by
  unfold marked; split_ifs <;> simp_all

@[simp] theorem spawns_marked (exploring : Bool) (token : Token) (b : Branch) :
    s.spawns token (s.marked exploring b) = s.spawns token b := by
  simp [spawns, Branch.spawn]

/-! ### Visits -/

/-- The branches that a visit starts from a branch. -/
def offspring (s : Simulator) (offer : Offer) (b : Branch) : List Branch :=
  if b.isStuck then []
  else (offer.tokens s.program b.state).flatMap fun token => s.spawns token b

/-- The number of steps that a visit of a branch takes. -/
def visitCost (s : Simulator) (offer : Offer) (b : Branch) : ℕ :=
  if b.isStuck then 0 else (offer.tokens s.program b.state).length

/-- A branch after a visit. -/
def visited (s : Simulator) (offer : Offer) (b : Branch) : Branch :=
  (s.marked offer.explores b).terminate

theorem Offer.tokens_ne_nil (offer : Offer) (p : Program) (state : Ref) :
    offer.tokens p state ≠ [] := by
  unfold Offer.tokens
  split
  · simp
  · split
    · simp
    · assumption

/-- Tokens that were tried with success: all of them were, each in one step. -/
theorem tryTokens_ok {exploring : Bool} (hm : s.program.mode = .nfa) :
    ∀ {tokens : List Token} {b : Branch} {m m' : Meter} {v : Visit}, s.halts b.state = false →
      b.isStuck = false → b.terminated = false →
      s.tryTokens exploring tokens b m = (m', v) → v.stop = none →
        v.branch = (if tokens = [] then b else s.marked exploring b).terminate ∧
          v.children = tokens.flatMap (fun token => s.spawns token b) ∧
          m'.steps = m.steps + tokens.length
  | [], b, m, m', v, _, _, _, h, _ => by
    simp only [tryTokens, Prod.mk.injEq] at h
    obtain ⟨rfl, rfl⟩ := h
    simp
  | token :: tokens, b, m, m', v, hh, hb, hl, h, hv => by
    rw [tryTokens] at h
    rcases hs : s.step exploring token b m with ⟨m₁, e | o⟩
    · rw [hs] at h
      simp only [Prod.mk.injEq] at h
      obtain ⟨rfl, rfl⟩ := h
      simp at hv
    obtain ⟨rfl, hsteps⟩ := step_spreads hm hh hb hs
    rw [hs] at h
    simp only [Outcome.branch, Outcome.children, marked_terminated, hl, Bool.false_eq_true,
      if_false] at h
    rcases hr : s.tryTokens exploring tokens (s.marked exploring b) m₁ with ⟨m₂, w⟩
    rw [hr] at h
    simp only [Prod.mk.injEq] at h
    obtain ⟨rfl, rfl⟩ := h
    obtain ⟨h1, h2, h3⟩ :=
      tryTokens_ok hm (by simpa using hh) (by simpa using hb) (by simpa using hl) hr hv
    refine ⟨?_, ?_, ?_⟩
    · simpa using h1
    · simpa [List.flatMap_cons] using h2
    · rw [h3, hsteps, List.length_cons]; omega

theorem visit_stuck {offer : Offer} {b : Branch} (hb : b.isStuck = true) (m : Meter) :
    s.visit offer b m = (m, ⟨b.terminate, [], none⟩) := by
  rw [visit, if_pos hb]

/-- **What a visit that succeeds has done.** -/
theorem visit_ok {offer : Offer} {b : Branch} {m m' : Meter} {v : Visit}
    (hm : s.program.mode = .nfa) (hh : s.halts b.state = false) (hl : b.terminated = false)
    (h : s.visit offer b m = (m', v)) (hv : v.stop = none) :
    v.branch = s.visited offer b ∧ v.children = s.offspring offer b ∧
      m'.steps = m.steps + s.visitCost offer b := by
  unfold visit at h
  cases hb : b.isStuck with
  | true =>
    rw [hb, if_pos rfl] at h
    simp only [Prod.mk.injEq] at h
    obtain ⟨rfl, rfl⟩ := h
    have hn : s.marked offer.explores b = b := by
      cases hs : b.state with
      | named state => simp [Branch.isStuck, hs, Ref.isSentinel] at hb
      | sentinel x => simp [marked, hs, Program.accepts]
    simp [visited, offspring, visitCost, hb, hn]
  | false =>
    rw [hb, if_neg (by simp)] at h
    obtain ⟨h1, h2, h3⟩ := tryTokens_ok hm hh hb hl h hv
    rw [if_neg (Offer.tokens_ne_nil _ _ _)] at h1
    exact ⟨h1, by simp [offspring, hb, h2], by simp [visitCost, hb, h3]⟩

/-- **What a visit that succeeds has done at a state that halts**: the first token has ended its
branch. -/
theorem visit_halts {offer : Offer} {b : Branch} {m m' : Meter} {v : Visit}
    (hh : s.halts b.state = true) (h : s.visit offer b m = (m', v)) (hv : v.stop = none) :
    v.branch = b.conclude true ∧ v.children = [] := by
  have hb : b.isStuck = false := by
    cases hs : b.state with
    | named state => simp [Branch.isStuck, hs, Ref.isSentinel]
    | sentinel x => simp [halts, hs, Program.accepts] at hh
  rw [visit, if_neg (by simp [hb])] at h
  obtain ⟨token, tokens, ht⟩ :=
    List.exists_cons_of_ne_nil (Offer.tokens_ne_nil offer s.program b.state)
  rw [ht, tryTokens] at h
  rcases hs : s.step offer.explores token b m with ⟨m₁, e | o⟩
  · rw [hs] at h
    simp only [Prod.mk.injEq] at h
    obtain ⟨rfl, rfl⟩ := h
    simp at hv
  · obtain ⟨-, -, m₂, -, hp⟩ := step_ok hs
    rw [proceed_halts hh, Prod.mk.injEq, Except.ok.injEq] at hp
    obtain ⟨-, rfl⟩ := hp
    simp only [hs, Outcome.branch, Outcome.children, Branch.conclude, if_true, Prod.mk.injEq] at h
    obtain ⟨-, rfl⟩ := h
    exact ⟨rfl, rfl⟩

/-- Tokens of which only the budget can stop one: they succeed exactly if it covers all of them. -/
theorem tryTokens_stop (exploring : Bool) (hm : s.program.mode = .nfa) :
    ∀ (tokens : List Token) {b : Branch}, s.halts b.state = false → b.isStuck = false →
      b.terminated = false → (∀ token ∈ tokens, s.Free b.state token) →
      ∀ m : Meter, m.steps ≤ s.options.maxSteps → (s.tryTokens exploring tokens b m).2.stop =
        if m.steps + tokens.length ≤ s.options.maxSteps then none
        else some (.stepLimit s.options.maxSteps)
  | [], b, _, _, _, _, m, hle => by simp [tryTokens, hle]
  | token :: tokens, b, hh, hb, hl, hf, m, _ => by
    rw [tryTokens]
    rcases step_free exploring hm hh hb (hf token (by simp)) m with
      ⟨hlt, m₁, hs⟩ | ⟨hge, hs⟩
    · have h1 := (step_spreads hm hh hb hs).2
      have ih := tryTokens_stop exploring hm tokens
        (b := s.marked exploring b) (by simpa using hh) (by simpa using hb) (by simpa using hl)
        (fun t ht => by simpa using hf t (List.mem_cons_of_mem _ ht)) m₁ (by omega)
      rw [h1] at ih
      simp only [hs, Outcome.branch, Outcome.children, marked_terminated, hl, Bool.false_eq_true,
        if_false, ih, List.length_cons]
      rw [show m.steps + 1 + tokens.length = m.steps + (tokens.length + 1) by omega]
    · simp only [hs, List.length_cons]
      rw [if_neg (by omega)]

/-- **A visit that only the budget can stop** succeeds exactly if the budget covers its cost. -/
theorem visit_stop {offer : Offer} {b : Branch} {m : Meter} (hm : s.program.mode = .nfa)
    (hh : s.halts b.state = false) (hl : b.terminated = false)
    (hf : b.isStuck = false → ∀ token ∈ offer.tokens s.program b.state, s.Free b.state token)
    (hle : m.steps ≤ s.options.maxSteps) : (s.visit offer b m).2.stop =
      if m.steps + s.visitCost offer b ≤ s.options.maxSteps then none
      else some (.stepLimit s.options.maxSteps) := by
  unfold visit
  cases hb : b.isStuck with
  | true => simp [visitCost, hb, hle]
  | false => simpa [visitCost, hb] using tryTokens_stop _ hm _ hh hb hl (hf hb) m hle

end FiniteAutomata.Simulator
