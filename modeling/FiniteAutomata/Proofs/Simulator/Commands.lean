import FiniteAutomata.Proofs.Simulator.Calls
import FiniteAutomata.Proofs.Simulator.Mirrors
import FiniteAutomata.Proofs.Simulator.Reordered
import FiniteAutomata.Proofs.Traces.Exploration

/-! # Commands and control flow

Commands write lines and wait for answers, and nothing else of a run depends on them. A meter with
other prompts and other signals on it leads to the same transition (`proceed_retold`), so a
simulator whose commands differ from those of another one only in what they put there mirrors it
(`mirrors_of_executeAll`). Hence a run whose commands all log or pause is the run without any
commands, but for its signals, and what is kept quiet is only kept quiet. Its signals are those of
the commands that its calls perform, one call after the other (`signals_of_chain`). -/

namespace FiniteAutomata

/-- The same automaton without commands. -/
def Program.withoutCommands (p : Program) : Program := { p with commands := ∅ }

theorem Program.commandsAt_withoutCommands (p : Program) (state : Ref) :
    p.withoutCommands.commandsAt state = [] := by
  cases state <;> rfl

/-- What a command that logs or pauses shows: a line of its arguments, or a prompt. -/
def Command.signal (c : Command) : Signal :=
  if c.name = "log" then .line (String.intercalate " " c.args) else .prompt

namespace Meter

/-- The meter with other prompts and signals on it. -/
def retold (prompts : Nat → Nat) (shown : Array Signal → Array Signal) (m : Meter) : Meter :=
  { m with prompts := prompts m.prompts, shown := shown m.shown }

/-- The meter without prompts and signals. -/
def silent : Meter → Meter := retold (fun _ => 0) fun _ => #[]

/-- The meter without the lines on it. -/
def muted : Meter → Meter := retold id fun shown => shown.filter (· = .prompt)

theorem lines_muted (m : Meter) : m.muted.lines = [] := by
  rw [lines, List.filterMap_eq_nil_iff]
  intro signal hsignal
  have hprompt : signal = .prompt := by
    simpa using (Array.mem_filter.mp (Array.mem_toList_iff.mp hsignal)).2
  rw [hprompt]

end Meter

namespace Simulator

variable {s : Simulator}

/-- The simulator with other commands, told otherwise what to keep quiet about. -/
def commanded (s : Simulator) (commands : Dict String (List Command)) (quiet extraQuiet : Bool) :
    Simulator :=
  { s with
    program := { s.program with commands }
    options := { s.options with quiet, extraQuiet } }

/-- The simulator told otherwise what to keep quiet about. -/
def hushed (s : Simulator) (quiet extraQuiet : Bool) : Simulator :=
  { s with options := { s.options with quiet, extraQuiet } }

/-! ### Meters with other signals -/

section Retold

variable {prompts : Nat → Nat} {shown : Array Signal → Array Signal}

theorem choose_retold (d : Destinations) (m : Meter) :
    s.choose d (m.retold prompts shown) =
      ((s.choose d m).1.retold prompts shown, (s.choose d m).2) := by
  have hdraw : (m.retold prompts shown).draws = m.draws := rfl
  rw [choose, choose, hdraw]
  cases Choice.choose? d.entries (s.draw m.draws) <;> rfl

theorem move_retold (state : String) (token : Token) (b : Branch) (m : Meter) :
    s.move state token b (m.retold prompts shown) =
      ((s.move state token b m).1.retold prompts shown, (s.move state token b m).2) := by
  unfold move
  cases s.destinations? b.state token with
  | none =>
    dsimp only
    split_ifs <;> rfl
  | some d =>
    dsimp only
    rw [choose_retold]
    rcases s.choose d m with ⟨m₁, e | destination⟩ <;> rfl

/-- **A transition does not look at prompts and signals.** -/
theorem proceed_retold (exploring : Bool) (token : Token) (b : Branch) (m : Meter) :
    s.proceed exploring token b (m.retold prompts shown) =
      ((s.proceed exploring token b m).1.retold prompts shown,
        (s.proceed exploring token b m).2) := by
  unfold proceed
  split
  · rfl
  · split_ifs
    · rfl
    · cases s.program.mode with
      | dfa => exact move_retold _ _ _ _
      | nfa => rfl

/-- **Simulators that differ in the signals of their commands differ in nothing else.** -/
theorem mirrors_of_executeAll {commands : Dict String (List Command)} {quiet extraQuiet : Bool}
    (hfresh : ({} : Meter).retold prompts shown = {})
    (h : ∀ state m, (s.commanded commands quiet extraQuiet).executeAll
      ((s.commanded commands quiet extraQuiet).program.commandsAt state)
      (m.retold prompts shown) =
        ((s.executeAll (s.program.commandsAt state) m).1.retold prompts shown,
          (s.executeAll (s.program.commandsAt state) m).2)) :
    Mirrors (.ofMeter (Meter.retold prompts shown)) s (s.commanded commands quiet extraQuiet) where
  mode := rfl
  start := rfl
  accepts _ := rfl
  sentinels _ := rfl
  tokens _ := rfl
  budget := rfl
  fresh := hfresh
  counted _ _ := rfl
  missing := rfl
  limit _ := rfl
  act exploring token b m := by
    have hfault : (s.commanded commands quiet extraQuiet).tokenFault? token =
        s.tokenFault? token := rfl
    have hmeter : (View.ofMeter (Meter.retold prompts shown)).meter m =
        m.retold prompts shown := rfl
    rw [View.step_ofMeter, View.branch_ofMeter, act, act, hfault, hmeter, id, h]
    cases s.tokenFault? token with
    | some e => rfl
    | none =>
      rcases s.executeAll (s.program.commandsAt b.state) m with ⟨m₁, _ | e⟩
      · exact proceed_retold (s := s) _ _ _ _
      · rfl

end Retold

/-! ### Runs without commands -/

/-- Commands that all log or pause only put signals on the meter. -/
theorem silent_executeAll (hp : s.prompts = none) {cs : List Command}
    (hcs : ∀ c ∈ cs, c.name = "log" ∨ c.name = "pause") (m : Meter) :
    ((s.executeAll cs m).1.silent, (s.executeAll cs m).2) = (m.silent, none) := by
  have hsteps := executeAll_steps (s := s) cs m
  have hdraws := executeAll_draws (s := s) cs m
  rw [executeAll_goes_on hp hcs, Meter.silent, Meter.retold, Meter.retold, hsteps, hdraws]

/-- **Without its commands a program runs as before**, but for the signals. -/
theorem run_withoutCommands (hc : s.program.OnlyLogsAndPauses) (hp : s.prompts = none)
    (input : Option (List Token)) : (s.withProgram s.program.withoutCommands).run input =
      { s.run input with meter := (s.run input).meter.silent } := by
  have hmirrors : Mirrors (.ofMeter Meter.silent) s
      (s.commanded ∅ s.options.quiet s.options.extraQuiet) := by
    refine mirrors_of_executeAll rfl fun state m => ?_
    have hnone : (s.commanded ∅ s.options.quiet s.options.extraQuiet).program.commandsAt state =
        [] := s.program.commandsAt_withoutCommands state
    rw [hnone]
    exact (silent_executeAll hp (fun c h => hc.of_mem_commandsAt h) m).symm
  rw [← View.run_ofMeter]
  exact hmirrors.run input

/-! ### Runs kept quiet -/

/-- What is kept quiet short of extra quiet is nothing to a run. -/
theorem run_hushed (quiet : Bool) (input : Option (List Token)) :
    (s.hushed quiet s.options.extraQuiet).run input = s.run input := by
  have hcommands : (s.hushed quiet s.options.extraQuiet).executeAll = s.executeAll := by
    funext cs m
    exact executeAll_congr (s := s.hushed quiet s.options.extraQuiet) (t := s) rfl rfl cs m
  have hact : ∀ exploring token b m,
      (s.hushed quiet s.options.extraQuiet).act exploring token b m =
        s.act exploring token b m := by
    intro exploring token b m
    unfold act
    rw [hcommands]
    rfl
  exact run_congr (s := s) (t := s.hushed quiet s.options.extraQuiet) rfl rfl hact input

theorem execute_muted (quiet : Bool) (c : Command) (m : Meter) :
    (s.hushed quiet true).execute c m.muted =
      ((s.execute c m).1.muted, (s.execute c m).2) := by
  have hprompts : m.muted.prompts = m.prompts := rfl
  unfold execute
  by_cases hl : c.name = "log"
  · have hline : ∀ text, (m.emit (.line text)).muted = m.muted := by
      intro text
      simp [Meter.muted, Meter.retold, Meter.emit]
    have hextra : (s.hushed quiet true).options.extraQuiet = true := rfl
    rw [if_pos hl, if_pos hl, if_pos hextra]
    split_ifs
    · rfl
    · simp [hline]
  · have hprompt : ∀ n, (({ m with prompts := n } : Meter).emit .prompt).muted =
        ({ m.muted with prompts := n } : Meter).emit .prompt := by
      intro n
      simp [Meter.muted, Meter.retold, Meter.emit]
    have hanswered : (s.hushed quiet true).prompts = s.prompts := rfl
    rw [if_neg hl, if_neg hl, hanswered, hprompts]
    split_ifs
    · rfl
    · exact Prod.ext (hprompt _).symm rfl
    · rfl

theorem executeAll_muted (quiet : Bool) : ∀ (cs : List Command) (m : Meter),
    (s.hushed quiet true).executeAll cs m.muted =
      ((s.executeAll cs m).1.muted, (s.executeAll cs m).2)
  | [], _ => rfl
  | c :: cs, m => by
    rw [executeAll, executeAll, execute_muted]
    rcases s.execute c m with ⟨m₁, _ | e⟩
    · exact executeAll_muted quiet cs m₁
    · rfl

/-- **Kept extra quiet, a run is as before**, but for the lines that it does not write. -/
theorem run_muted (quiet : Bool) (input : Option (List Token)) :
    (s.hushed quiet true).run input = { s.run input with meter := (s.run input).meter.muted } := by
  have hmirrors : Mirrors (.ofMeter Meter.muted) s (s.commanded s.program.commands quiet true) :=
    mirrors_of_executeAll rfl fun state m => executeAll_muted quiet (s.program.commandsAt state) m
  rw [← View.run_ofMeter]
  exact hmirrors.run input

/-! ### The signals of a run -/

/-- Whether a call gets to the commands: the budget and the alphabet allow it. -/
def admits (s : Simulator) (c : Call) : Bool :=
  c.meter.steps < s.options.maxSteps && (s.tokenFault? c.token).isNone

/-- The signals of the commands at the state of a call. -/
def signalsAt (s : Simulator) (c : Call) : List Signal :=
  (s.program.commandsAt c.branch.state).map Command.signal

theorem shown_executeAll (hq : s.options.extraQuiet = false) (hp : s.prompts = none) :
    ∀ {cs : List Command}, (∀ c ∈ cs, c.name = "log" ∨ c.name = "pause") → ∀ m,
      (s.executeAll cs m).1.shown.toList = m.shown.toList ++ cs.map Command.signal
  | [], _, m => by simp [executeAll]
  | c :: cs, hcs, m => by
    have hc : (s.execute c m).2 = none ∧
        (s.execute c m).1.shown.toList = m.shown.toList ++ [c.signal] := by
      unfold execute Command.signal
      rcases hcs c (by simp) with hl | hl
      · simp [hl, hq, Meter.emit]
      · simp [hl, hp, Meter.emit]
    rw [executeAll]
    rcases h : s.execute c m with ⟨m₁, stop⟩
    rw [h] at hc
    obtain ⟨rfl, hshown⟩ := hc
    have hrest := shown_executeAll hq hp (fun c' hc' => hcs c' (List.mem_cons_of_mem _ hc')) m₁
    dsimp only at hshown ⊢
    rw [hrest, hshown, List.map_cons, List.append_assoc, List.singleton_append]

theorem shown_proceed (exploring : Bool) (token : Token) (b : Branch) (m : Meter) :
    (s.proceed exploring token b m).1.shown = m.shown := by
  rcases proceed_meter (s := s) exploring token b m with h | ⟨d, h⟩
  · rw [h]
  · rw [h]
    unfold choose
    split <;> rfl

/-- What a call shows. -/
theorem shown_answer (hc : s.program.OnlyLogsAndPauses) (hq : s.options.extraQuiet = false)
    (hp : s.prompts = none) (c : Call) :
    (s.answer c).1.shown.toList =
      c.meter.shown.toList ++ if s.admits c then s.signalsAt c else [] := by
  rw [answer, step_eq, signalsAt, admits]
  by_cases hlimit : s.options.maxSteps ≤ c.meter.steps
  · simp [hlimit]
  · rw [if_neg hlimit, act]
    cases hfault : s.tokenFault? c.token with
    | some e => simp
    | none =>
      have hcs : ∀ x ∈ s.program.commandsAt c.branch.state, x.name = "log" ∨ x.name = "pause" :=
        fun x hx => hc.of_mem_commandsAt hx
      have hshown := shown_executeAll hq hp hcs { c.meter with steps := c.meter.steps + 1 }
      have hstop := executeAll_goes_on hp hcs { c.meter with steps := c.meter.steps + 1 }
      rcases h : s.executeAll (s.program.commandsAt c.branch.state)
        { c.meter with steps := c.meter.steps + 1 } with ⟨m₁, stop⟩
      rw [h] at hshown hstop
      obtain rfl := hstop
      dsimp only at hshown ⊢
      rw [shown_proceed, hshown]
      simp [Nat.not_le.mp hlimit]

/-- **Calls show one after the other what they show.** -/
theorem signals_of_chain (hc : s.program.OnlyLogsAndPauses) (hq : s.options.extraQuiet = false)
    (hp : s.prompts = none) : ∀ {calls : List Call} {m m' : Meter}, s.Chain m calls m' →
      m'.shown.toList = m.shown.toList ++ (calls.filter s.admits).flatMap s.signalsAt
  | [], m, m', h => by
    obtain rfl := h
    simp
  | c :: rest, m, m', h => by
    rw [signals_of_chain hc hq hp h.2, shown_answer hc hq hp, h.1, List.append_assoc,
      List.filter_cons]
    cases s.admits c <;> simp

/-- **Commands are inert.** A run whose commands all log or pause is the run of the program without
any, but for its signals. To keep quiet changes nothing of it, to keep extra quiet only takes away
the lines. Otherwise its signals are those of the commands that its calls perform: one call after
the other, each by the budget and the alphabet allowed, with the commands of its state in order. -/
theorem run_of_inert_commands (s : Simulator) (input : Option (List Token))
    (hc : s.program.OnlyLogsAndPauses) (hp : s.prompts = none) :
    (s.withProgram s.program.withoutCommands).run input =
        { s.run input with meter := (s.run input).meter.silent } ∧
      (∀ quiet, (s.hushed quiet s.options.extraQuiet).run input = s.run input ∧
        (s.hushed quiet true).run input =
          { s.run input with meter := (s.run input).meter.muted }) ∧
      (s.run input).meter.muted.lines = [] ∧
      s.Chain {} (s.calls input) (s.run input).meter ∧
      (s.options.extraQuiet = false → (s.run input).meter.shown.toList =
        ((s.calls input).filter s.admits).flatMap fun c =>
          (s.program.commandsAt c.branch.state).map Command.signal) := by
  refine ⟨run_withoutCommands hc hp input, fun quiet => ⟨run_hushed quiet input,
    run_muted quiet input⟩, Meter.lines_muted _, chain_calls s input, fun hq => ?_⟩
  have hsignals := signals_of_chain hc hq hp (chain_calls s input)
  rwa [List.nil_append] at hsignals

/-- A simulator that writes a line and waits at its start, and writes another line where it goes. -/
def chatty : Simulator where
  program :=
    { alphabet := ["x"]
      states := Dict.ofList
        [("a", Dict.ofList [(.named "x", Dict.ofList [(.named "a", 1), (.named "b", 1)])]),
          ("b", ∅)]
      start := "a"
      accept := ["b"]
      mode := .nfa
      commands := Dict.ofList [("a", [⟨"log", ["at", "a"]⟩, ⟨"pause", []⟩]),
        ("b", [⟨"log", ["at", "b"]⟩])] }

/-- Along two tokens the start is left twice and the other state once. -/
theorem run_of_inert_commands_chatty :
    chatty.program.OnlyLogsAndPauses ∧ chatty.prompts = none ∧
      (chatty.withProgram chatty.program.withoutCommands).run (some (tokensOfText "xx")) =
        { chatty.run (some (tokensOfText "xx")) with
          meter := (chatty.run (some (tokensOfText "xx"))).meter.silent } ∧
      (chatty.hushed true true).run (some (tokensOfText "xx")) =
        { chatty.run (some (tokensOfText "xx")) with
          meter := (chatty.run (some (tokensOfText "xx"))).meter.muted } ∧
      (chatty.run (some (tokensOfText "xx"))).meter.shown.toList =
        ((chatty.calls (some (tokensOfText "xx"))).filter chatty.admits).flatMap
          chatty.signalsAt ∧
      (chatty.run (some (tokensOfText "xx"))).meter.shown =
        #[.line "at a", .prompt, .line "at a", .prompt, .line "at b"] := by
  have hc : chatty.program.OnlyLogsAndPauses := by
    unfold Program.OnlyLogsAndPauses
    decide +kernel
  have h := run_of_inert_commands chatty (some (tokensOfText "xx")) hc rfl
  exact ⟨hc, rfl, h.1, (h.2.1 true).2, h.2.2.2.2 rfl, by decide +kernel⟩

end Simulator

end FiniteAutomata
