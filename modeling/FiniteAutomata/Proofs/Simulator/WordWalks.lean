import FiniteAutomata.Proofs.Simulator.Alphabet

/-! # What a deterministic run walks along

A deterministic run is a walk of the automaton: its events follow each other from the start state to
the state of its branch, on the first tokens of the word, and each takes a transition of the program
(`Takes`). A walk that nothing stops ends before the end of the word only at a sentinel or at a
state that halts (`walk_walks`).
Where every destination set has one entry the automaton has a transition function, and the walk ends
where that leads along the word (`Program.after`). It is stopped exactly by what it meets on the way
(`Program.met`, `walk_functional`): a step needs budget, a token that may be consumed, commands that
are known and a transition to take (`step_ok_iff`). -/

namespace FiniteAutomata

/-- A list of events that leads from a state to a state: each starts where the one before ends. -/
def Chained : Ref → List Event → Ref → Prop
  | a, [], b => b = a
  | a, e :: rest, b => e.state = a ∧ Chained e.destination rest b

namespace Simulator

variable {s : Simulator}

/-! ### Walks of any program -/

/-- An event takes a transition of the program: its state is declared, and its destination is in the
set declared for its token, or none is and missing transitions lead to `null`. -/
def Takes (s : Simulator) (e : Event) : Prop :=
  ∃ name table, e.state = .named name ∧ s.program.states.find? name = some table ∧
    ((∃ d, table.find? e.token = some d ∧ e.destination ∈ d.keys) ∨
      (s.options.autoNull = true ∧ table.find? e.token = none ∧ e.destination = .null))

/-- A walk from a state to a state along a word: its events, and how many steps it took. -/
structure Walks (s : Simulator) (word : List Token) (origin : Ref) (path : List Event) (last : Ref)
    (steps : ℕ) : Prop where
  chained : Chained origin path last
  tokens : path.map Event.token = word.take path.length
  events : ∀ e ∈ path, s.Takes e
  ends : path.length < word.length →
    last.isSentinel = true ∨ (s.options.stopOnAccept = true ∧ s.program.accepts last = true)
  steps : steps = if path.length = word.length then path.length else path.length + 1

/-- A walk that goes on after an event. -/
theorem Walks.cons {word : List Token} {e : Event} {path : List Event} {last : Ref} {steps : ℕ}
    (he : s.Takes e) (h : s.Walks word e.destination path last steps) :
    s.Walks (e.token :: word) e.state (e :: path) last (steps + 1) where
  chained := ⟨rfl, h.chained⟩
  tokens := by simp [h.tokens]
  events := List.forall_mem_cons.mpr ⟨he, h.events⟩
  ends hlt := h.ends (by simpa using hlt)
  steps := by
    rw [h.steps]
    simp only [List.length_cons, Nat.add_right_cancel_iff]
    split_ifs <;> rfl

/-- A walk that ends where it stands, with a token left. -/
theorem Walks.ended {token : Token} {rest : List Token} {state : Ref}
    (h : state.isSentinel = true ∨ s.halts state = true) :
    s.Walks (token :: rest) state [] state 1 where
  chained := rfl
  tokens := rfl
  events := by simp
  ends _ := h.imp_right fun hh => by simpa [halts, and_comm] using hh
  steps := by simp

theorem Walks.nil (state : Ref) : s.Walks [] state [] state 0 where
  chained := rfl
  tokens := rfl
  events := by simp
  ends hlt := by simp at hlt
  steps := rfl

/-- A transition that is missing is taken only if such transitions lead to `null`. -/
theorem autoNull_of_move {state : String} {token : Token} {b : Branch} {m m' : Meter} {o : Outcome}
    (hnone : s.destinations? b.state token = none) (h : s.move state token b m = (m', .ok o)) :
    s.options.autoNull = true := by
  rw [move, hnone] at h
  dsimp only at h
  split_ifs at h with hnull
  · exact hnull
  · cases (Prod.mk.inj h).2

/-- A destination that a step of a walk has chosen is one of a transition of the program. -/
theorem takes_of_step (hm : s.program.mode = .dfa) {token : Token} {b : Branch} {m m' : Meter}
    {o : Outcome} {destination : Ref} (hknown : s.program.Knows b.state)
    (hstuck : b.isStuck = false) (hhalt : s.halts b.state = false)
    (hd : destination ∈ s.targets b.state token) (h : s.step false token b m = (m', .ok o)) :
    s.Takes ⟨b.state, token, destination⟩ := by
  obtain ⟨-, -, m₁, -, hproceed⟩ := step_ok h
  cases hb : b.state with
  | sentinel x => simp [Branch.isStuck, hb, Ref.isSentinel] at hstuck
  | named name =>
    obtain ⟨table, htable⟩ := Dict.mem_iff_find?.mp (hknown name hb)
    have hlookup : ∀ t, s.destinations? (.named name) t = table.find? t := fun t => by
      rw [destinations?, Program.table, htable, Option.getD_some]
    refine ⟨name, table, rfl, htable, ?_⟩
    rw [hb] at hd
    cases hfound : table.find? token with
    | some d =>
      rw [targets, hlookup, hfound] at hd
      exact Or.inl ⟨d, rfl, hd⟩
    | none =>
      have hmove : s.move name token b m₁ = (m', .ok o) := by
        rw [proceed, hb] at hproceed
        rw [hb, halts] at hhalt
        simpa only [hhalt, Bool.false_eq_true, if_false, hm, marked_false] using hproceed
      have hnone : s.destinations? b.state token = none := by rw [hb, hlookup, hfound]
      rw [targets, hlookup, hfound] at hd
      exact Or.inr ⟨autoNull_of_move hnone hmove, rfl, List.mem_singleton.mp hd⟩

/-- **A walk that nothing stops goes along a walk of the automaton**: its branch has taken these
events in addition, and if it has ended, it was accepted exactly at an accept state. -/
theorem walk_walks (hp : s.program.Valid) (hm : s.program.mode = .dfa) :
    ∀ {word : List Token} {b b' : Branch} {m m' : Meter}, b.isLive = true →
      s.program.Knows b.state → s.walk word b m = (m', b', none) →
      ∃ path steps, s.Walks word b.state path b'.state steps ∧ b'.path = b.path ++ path ∧
        b'.position = b.position + path.length ∧ m'.steps = m.steps + steps ∧
        (b'.terminated = true → b'.accepted = s.program.accepts b'.state)
  | [], b, b', m, m', hlive, _, h => by
    simp only [walk, Prod.mk.injEq, and_true] at h
    obtain ⟨rfl, rfl⟩ := h
    refine ⟨[], 0, .nil _, by simp, rfl, rfl, fun hended => ?_⟩
    rw [(Branch.isLive_iff.mp hlive).2] at hended
    cases hended
  | token :: rest, b, b', m, m', hlive, hknown, h => by
    rw [walk_cons_of_live hlive] at h
    rcases hs : s.step false token b m with ⟨m₁, e | o⟩
    · simp [hs] at h
    have hsteps := steps_of_step_ok hs
    rw [hs] at h
    dsimp only at h
    rcases step_moves hm hs with ⟨hstuck, rfl⟩ | ⟨hhalt, rfl⟩ | ⟨hstuck, hhalt, d, hd, rfl⟩
    · rw [Outcome.branch, walk_of_not_live b.isLive_terminate] at h
      simp only [Prod.mk.injEq, and_true] at h
      obtain ⟨rfl, rfl⟩ := h
      refine ⟨[], 1, .ended (Or.inl hstuck), by simp [Branch.terminate, Branch.path], rfl, hsteps,
        fun _ => ?_⟩
      -- a sentinel is no accept state, and a live branch has not accepted before
      rw [Branch.terminate, (Branch.isLive_iff.mp hlive).1]
      cases hb : b.state with
      | sentinel x => rfl
      | named name => simp [Branch.isStuck, hb, Ref.isSentinel] at hstuck
    · rw [Outcome.branch, walk_of_not_live (b.isLive_conclude true)] at h
      simp only [Prod.mk.injEq, and_true] at h
      obtain ⟨rfl, rfl⟩ := h
      refine ⟨[], 1, .ended (Or.inr hhalt), by simp [Branch.conclude, Branch.path], rfl, hsteps,
        fun _ => ?_⟩
      rw [halts, Bool.and_eq_true] at hhalt
      exact hhalt.1.symm
    · have htakes := takes_of_step hm hknown hstuck hhalt hd hs
      rw [Outcome.branch, Branch.advance_of_live hlive] at h
      obtain ⟨path, steps, hwalks, hpath, hposition, hmeter, haccepted⟩ :=
        walk_walks hp hm (b.isLive_spawn _) (knows_of_mem_targets hp hd) h
      refine ⟨_ :: path, steps + 1, .cons htakes hwalks, ?_, ?_, ?_, haccepted⟩
      · rw [hpath, Branch.path_spawn, List.append_assoc]
        rfl
      · rw [hposition, Branch.spawn, List.length_cons, Nat.add_assoc, Nat.add_comm 1]
      · omega

/-! ### Programs with a transition function -/

end Simulator

namespace Program

/-- Where a state and a token lead in a program whose destination sets have one entry each: what is
not declared leads to `null`, and sentinels lead back to themselves. -/
def next (p : Program) (state : Ref) (token : Token) : Ref :=
  match state with
  | .sentinel x => .sentinel x
  | .named name =>
    match (p.table (.named name)).find? token with
    | none => .null
    | some d => d.keys.headD .null

/-- Where a state and a word lead: the extended transition function. -/
def after (p : Program) (state : Ref) (word : List Token) : Ref := word.foldl p.next state

/-- The states and tokens that a walk meets along a word. At a sentinel it meets one token more, at
which it ends. -/
def met (p : Program) : Ref → List Token → List (Ref × Token)
  | _, [] => []
  | .sentinel x, token :: _ => [(.sentinel x, token)]
  | .named name, token :: rest =>
    (.named name, token) :: p.met (p.next (.named name) token) rest

theorem after_of_sentinel {p : Program} {state : Ref} (h : state.isSentinel = true) :
    ∀ word : List Token, p.after state word = state
  | [] => rfl
  | token :: rest => by
    have hnext : p.next state token = state := by
      cases state with
      | sentinel x => rfl
      | named name => cases h
    rw [after, List.foldl_cons, hnext]
    exact after_of_sentinel h rest

end Program

namespace Simulator

variable {s : Simulator}

/-- What a step at a state on a token needs besides budget: the token may be consumed, commands
write or wait, and at a name there is a transition to take. -/
structure Clear (s : Simulator) (state : Ref) (token : Token) : Prop where
  alphabet : s.options.ignoreAlphabet = true ∨
    ∀ name, token = .named name → name ∈ s.program.alphabet
  commands : ∀ c ∈ s.program.commandsAt state, c.name = "log" ∨ c.name = "pause"
  transition : state.isSentinel = false →
    s.options.autoNull = true ∨ ∃ d, (s.program.table state).find? token = some d

/-- A walk that the budget covers and to which all it meets is clear. -/
structure Passes (s : Simulator) (state : Ref) (word : List Token) (used : ℕ) : Prop where
  budget : used + (s.program.met state word).length ≤ s.options.maxSteps
  clear : ∀ x ∈ s.program.met state word, s.Clear x.1 x.2

theorem passes_cons_iff {state : Ref} {token : Token} {rest : List Token} {used : ℕ} :
    s.Passes state (token :: rest) used ↔ used < s.options.maxSteps ∧ s.Clear state token ∧
      (state.isSentinel = false → s.Passes (s.program.next state token) rest (used + 1)) := by
  cases state with
  | sentinel x =>
    have hmet : s.program.met (.sentinel x) (token :: rest) = [(.sentinel x, token)] := rfl
    constructor
    · rintro ⟨hbudget, hclear⟩
      rw [hmet] at hbudget hclear
      exact ⟨hbudget, hclear _ List.mem_cons_self, fun h => by cases h⟩
    · rintro ⟨hlt, hclear, -⟩
      exact ⟨by rw [hmet]; exact hlt, by rw [hmet]; simpa using hclear⟩
  | named name =>
    have hmet : s.program.met (.named name) (token :: rest) =
        (.named name, token) :: s.program.met (s.program.next (.named name) token) rest := rfl
    constructor
    · rintro ⟨hbudget, hclear⟩
      rw [hmet] at hbudget hclear
      rw [List.length_cons] at hbudget
      obtain ⟨hfirst, hrest⟩ := List.forall_mem_cons.mp hclear
      exact ⟨by omega, hfirst, fun _ => ⟨by omega, hrest⟩⟩
    · rintro ⟨-, hclear, hpasses⟩
      obtain ⟨hbudget, hrest⟩ := hpasses rfl
      refine ⟨?_, ?_⟩
      · rw [hmet, List.length_cons]
        omega
      · rw [hmet]
        exact List.forall_mem_cons.mpr ⟨hclear, hrest⟩

/-- Commands that stop nothing write or wait. -/
theorem commands_of_goes_on : ∀ {cs : List Command} {m : Meter}, (s.executeAll cs m).2 = none →
    ∀ c ∈ cs, c.name = "log" ∨ c.name = "pause"
  | [], _, _ => by simp
  | c :: cs, m, h => by
    rw [executeAll] at h
    rcases hc : s.execute c m with ⟨m₁, _ | e⟩
    · rw [hc] at h
      refine List.forall_mem_cons.mpr ⟨?_, commands_of_goes_on h⟩
      by_contra hname
      rw [not_or] at hname
      simp [execute, hname.1, hname.2] at hc
    · rw [hc] at h
      cases h

/-- **A step of a walk succeeds exactly if the budget is not used up and it is clear**, in a program
with a transition function that no accept state halts. -/
theorem step_ok_iff (hm : s.program.mode = .dfa) (hf : s.program.IsFunctional)
    (ha : s.options.stopOnAccept = false) (hprompts : s.prompts = none) {token : Token} {b : Branch}
    {m : Meter} : (∃ m' o, s.step false token b m = (m', .ok o)) ↔
      m.steps < s.options.maxSteps ∧ s.Clear b.state token := by
  constructor
  · rintro ⟨m', o, h⟩
    obtain ⟨hlt, hfault, m₁, hx, hproceed⟩ := step_ok h
    refine ⟨hlt, tokenFault?_eq_none_iff.mp hfault, commands_of_goes_on (congrArg Prod.snd hx), ?_⟩
    intro hname
    cases hfound : (s.program.table b.state).find? token with
    | some d => exact Or.inr ⟨d, rfl⟩
    | none =>
      cases hb : b.state with
      | sentinel x => simp [hb, Ref.isSentinel] at hname
      | named name =>
        rw [proceed, hb] at hproceed
        simp only [ha, Bool.and_false, Bool.false_eq_true, if_false, hm, marked_false] at hproceed
        exact Or.inl (autoNull_of_move hfound hproceed)
  · rintro ⟨hlt, hclear⟩
    rcases hs : s.step false token b m with ⟨m', e | o⟩
    · rw [step_eq, if_neg (Nat.not_le.mpr hlt)] at hs
      have hexplains := stop_of_act (congrArg Prod.snd hs)
      cases e with
      | missingInput => exact hexplains.elim
      | stepLimit limit => exact hexplains.elim
      | inputEnded => exact absurd hprompts hexplains
      | unknownToken name alphabet =>
        obtain ⟨htoken, hchecked, hname, -⟩ := hexplains
        rcases hclear.alphabet with hignored | hknown
        · rw [hchecked] at hignored
          cases hignored
        · exact absurd (hknown name htoken) hname
      | unknownCommand c =>
        exact absurd (hclear.commands c hexplains.1) (not_or.mpr hexplains.2)
      | undefinedTransition name token' =>
        obtain ⟨hstate, rfl, -, hnull, hnone⟩ := hexplains
        rcases hclear.transition (by rw [hstate]; rfl) with hnull' | ⟨d, hd⟩
        · rw [hnull] at hnull'
          cases hnull'
        · rw [destinations?, hd] at hnone
          cases hnone
      | emptyChoice =>
        obtain ⟨d, hd, hempty⟩ := hexplains
        have hsize := size_of_functional hf hd
        rw [Dict.size, hempty] at hsize
        cases hsize
    · exact ⟨m', o, rfl⟩

/-- The only target of a state that is a name is where the transition function leads. -/
theorem next_of_mem_targets (hf : s.program.IsFunctional) {state destination : Ref} {token : Token}
    (hname : state.isSentinel = false) (h : destination ∈ s.targets state token) :
    s.program.next state token = destination := by
  have htargets := (targets_of_functional hf h).1
  cases state with
  | sentinel x => cases hname
  | named name =>
    rw [targets, destinations?] at htargets
    rw [Program.next]
    cases hfound : (s.program.table (.named name)).find? token with
    | none =>
      rw [hfound] at htargets
      exact List.singleton_inj.mp htargets
    | some d =>
      rw [hfound] at htargets
      dsimp only at htargets ⊢
      rw [htargets, List.headD_cons]

/-- **A walk that leaves nothing to choose** ends where the extended transition function leads. -/
theorem walk_after (hm : s.program.mode = .dfa) (hf : s.program.IsFunctional)
    (ha : s.options.stopOnAccept = false) :
    ∀ {word : List Token} {b b' : Branch} {m m' : Meter}, b.isLive = true →
      s.walk word b m = (m', b', none) → b'.state = s.program.after b.state word
  | [], b, b', m, m', _, h => by
    simp only [walk, Prod.mk.injEq, and_true] at h
    rw [← h.2]
    rfl
  | token :: rest, b, b', m, m', hlive, h => by
    rw [walk_cons_of_live hlive] at h
    rcases hs : s.step false token b m with ⟨m₁, e | o⟩
    · simp [hs] at h
    rw [hs] at h
    dsimp only at h
    rcases step_moves hm hs with ⟨hstuck, rfl⟩ | ⟨hhalt, -⟩ | ⟨hstuck, -, d, hd, rfl⟩
    · rw [Outcome.branch, walk_of_not_live b.isLive_terminate] at h
      rw [Program.after_of_sentinel hstuck, ← (Prod.mk.inj (Prod.mk.inj h).2).1]
      rfl
    · rw [halts_of_goes_on ha] at hhalt
      cases hhalt
    · rw [Outcome.branch, Branch.advance_of_live hlive] at h
      rw [walk_after hm hf ha (b.isLive_spawn _) h]
      change s.program.after d rest = s.program.after (s.program.next b.state token) rest
      rw [next_of_mem_targets hf hstuck hd]

/-- **Nothing stops a walk that leaves nothing to choose** exactly if the budget covers it and all
that it meets is clear. -/
theorem walk_stop_iff (hm : s.program.mode = .dfa) (hf : s.program.IsFunctional)
    (ha : s.options.stopOnAccept = false) (hprompts : s.prompts = none) :
    ∀ {word : List Token} {b : Branch} {m : Meter}, b.isLive = true →
      m.steps ≤ s.options.maxSteps →
      ((s.walk word b m).2.2 = none ↔ s.Passes b.state word m.steps)
  | [], b, m, _, hle => by
    refine iff_of_true rfl ⟨?_, ?_⟩
    · simpa [Program.met] using hle
    · simp [Program.met]
  | token :: rest, b, m, hlive, _ => by
    have hstep : (∃ m' o, s.step false token b m = (m', .ok o)) ↔
        m.steps < s.options.maxSteps ∧ s.Clear b.state token := step_ok_iff hm hf ha hprompts
    rw [walk_cons_of_live hlive, passes_cons_iff]
    rcases hs : s.step false token b m with ⟨m₁, e | o⟩
    · refine iff_of_false (by simp) fun ⟨hlt, hclear, _⟩ => ?_
      obtain ⟨m', o, ho⟩ := hstep.mpr ⟨hlt, hclear⟩
      rw [hs] at ho
      cases (Prod.mk.inj ho).2
    · obtain ⟨hlt, hclear⟩ := hstep.mp ⟨m₁, o, hs⟩
      have hsteps := steps_of_step_ok hs
      simp only [hlt, hclear, true_and]
      rcases step_moves hm hs with ⟨hstuck, rfl⟩ | ⟨hhalt, -⟩ | ⟨hstuck, -, d, hd, rfl⟩
      · rw [Outcome.branch, walk_of_not_live b.isLive_terminate]
        rw [Branch.isStuck] at hstuck
        simp [hstuck]
      · rw [halts_of_goes_on ha] at hhalt
        cases hhalt
      · rw [Outcome.branch, Branch.advance_of_live hlive,
          walk_stop_iff hm hf ha hprompts (b.isLive_spawn _) (by omega), hsteps,
          next_of_mem_targets hf hstuck hd]
        exact ⟨fun h _ => h, fun h => h hstuck⟩

/-! ### Runs -/

/-- **A deterministic run is a correct walk.** If a run on a word ends normally it has one branch,
which has gone along a walk of the automaton from the start state and has ended, accepted exactly at
an accept state. If every destination set has one entry and accept states do not stop runs, the
branch ends where the extended transition function leads; the run ends normally exactly if the walk
meets nothing that stops it: at each name that it comes to, until it comes to a sentinel, there is a
transition to take and commands write or wait, each token it meets there, and the next one, may be
consumed, and the budget covers these tokens. -/
theorem run_walks (hp : s.program.Valid) (hm : s.program.mode = .dfa) (word : List Token) :
    ((s.run (some word)).stop = none → ∃ b, (s.run (some word)).branches = #[b] ∧
        s.Walks word (.named s.program.start) b.path b.state (s.run (some word)).meter.steps ∧
        b.terminated = true ∧ b.accepted = s.program.accepts b.state ∧
        b.position = b.path.length) ∧
      (s.program.IsFunctional → s.options.stopOnAccept = false →
        ((s.run (some word)).stop = none → ∃ b, (s.run (some word)).branches = #[b] ∧
          b.state = s.program.after (.named s.program.start) word) ∧
        (s.prompts = none → ((s.run (some word)).stop = none ↔
          s.Passes (.named s.program.start) word 0))) := by
  rcases hw : s.walk word (.start (.named s.program.start)) {} with ⟨m, b, stop⟩
  have hrun := run_of_walk hm hw
  have hsettled : (s.settle b).state = b.state ∧ (s.settle b).path = b.path ∧
      (s.settle b).position = b.position := Branch.place_eq_iff.mp (place_settle b)
  obtain ⟨hstate, hpath, hposition⟩ := hsettled
  rw [hrun]
  refine ⟨?_, fun hf ha => ⟨?_, fun hprompts => ?_⟩⟩
  · rintro rfl
    have hstart : s.program.Knows (.named s.program.start) := by
      rintro _ ⟨⟩
      exact hp.start
    obtain ⟨path, steps, hwalks, hpath', hposition', hsteps, haccepted⟩ :=
      walk_walks hp hm rfl hstart hw
    have hsame : b.path = path := hpath'
    have hcount : m.steps = steps := hsteps.trans (Nat.zero_add _)
    refine ⟨s.settle b, rfl, ?_, ?_, ?_, ?_⟩
    · rw [hpath, hstate, hsame, hcount]
      exact hwalks
    · unfold settle
      split_ifs with hended
      · exact hended
      · rfl
    · rw [hstate]
      unfold settle
      split_ifs with hended
      · exact haccepted hended
      · rfl
    · rw [hposition, hpath, hsame, hposition']
      exact Nat.zero_add _
  · rintro rfl
    exact ⟨s.settle b, rfl, hstate.trans (walk_after hm hf ha rfl hw)⟩
  · have hiff : (s.walk word (.start (.named s.program.start)) {}).2.2 = none ↔
        s.Passes (.named s.program.start) word 0 :=
      walk_stop_iff hm hf ha hprompts rfl (Nat.zero_le _)
    rwa [hw] at hiff

theorem run_walks_oneWay :
    oneWay.program.Valid ∧ oneWay.program.mode = .dfa ∧ oneWay.program.IsFunctional ∧
      oneWay.options.stopOnAccept = false ∧ oneWay.prompts = none ∧
      (∃ b, (oneWay.run (some (List.replicate 4 (.named "x")))).branches = #[b] ∧
        oneWay.Walks (List.replicate 4 (.named "x")) (.named "a") b.path b.state 3) ∧
      (∃ b, (oneWay.run (some (List.replicate 4 (.named "x")))).branches = #[b] ∧
        b.state = .null) ∧
      oneWay.Passes (.named "a") (List.replicate 4 (.named "x")) 0 := by
  have hp : oneWay.program.Valid := by decide +kernel
  have hf : oneWay.program.IsFunctional := by unfold Program.IsFunctional; decide
  have hstop : (oneWay.run (some (List.replicate 4 (.named "x")))).stop = none := by decide
  have hsteps : (oneWay.run (some (List.replicate 4 (.named "x")))).meter.steps = 3 := by decide
  obtain ⟨hwalk, hfunctional⟩ := run_walks (s := oneWay) hp rfl (List.replicate 4 (.named "x"))
  obtain ⟨b, hb, hwalks, -⟩ := hwalk hstop
  obtain ⟨hafter, hiff⟩ := hfunctional hf rfl
  refine ⟨hp, rfl, hf, rfl, rfl, ⟨b, hb, hsteps ▸ hwalks⟩, hafter hstop, (hiff rfl).mp hstop⟩

end Simulator

end FiniteAutomata
