import FiniteAutomata.Proofs.Producers.Reordered
import FiniteAutomata.Proofs.Simulator.Alongside

/-! # Programs in another order

A run looks up the tables and the commands of the states it comes to, and asks whether tokens are in
the alphabet; in which order a program lists them is nothing to it. So programs that are equal but
for such orders have the same runs (`run_reordered`). All that shows the order is the report on a
token outside of the alphabet, which quotes it. -/

namespace FiniteAutomata

/-- A stop whose report quotes another alphabet. -/
def Stop.withAlphabet (alphabet : List String) : Stop → Stop
  | .unknownToken token _ => .unknownToken token alphabet
  | e => e

namespace Simulator

variable {s : Simulator} {p q : Program}

/-- The simulator of another program, with the same options, draws and prompts. -/
def withProgram (s : Simulator) (p : Program) : Simulator := { s with program := p }

@[simp] theorem program_withProgram : (s.withProgram p).program = p := rfl

@[simp] theorem options_withProgram : (s.withProgram p).options = s.options := rfl

/-! ### Look-up -/

section Program

theorem table_reordered (h : p.Reordered q) (state : Ref) : q.table state = p.table state := by
  cases state with
  | sentinel x => rfl
  | named name => rw [Program.table, Program.table, h.states name]

theorem commandsAt_reordered (h : p.Reordered q) (state : Ref) :
    q.commandsAt state = p.commandsAt state := by
  cases state with
  | sentinel x => rfl
  | named name => rw [Program.commandsAt, Program.commandsAt, h.commands name]

theorem accepts_reordered (h : p.Reordered q) : q.accepts = p.accepts := by
  funext state
  cases state with
  | sentinel x => rfl
  | named name => rw [Program.accepts, Program.accepts, h.accept]

end Program

/-! ### Steps -/

theorem tokenFault?_reordered (h : p.Reordered q) (token : Token) :
    (s.withProgram q).tokenFault? token =
      ((s.withProgram p).tokenFault? token).map (Stop.withAlphabet q.alphabet) := by
  cases token with
  | sentinel x => rfl
  | named name =>
    have hmem : q.alphabet.contains name = p.alphabet.contains name := by
      rw [Bool.eq_iff_iff, List.contains_iff_mem, List.contains_iff_mem, h.alphabet.mem_iff]
    dsimp only [tokenFault?, withProgram]
    rw [hmem]
    split_ifs <;> rfl

theorem destinations?_reordered (h : p.Reordered q) (state : Ref) (token : Token) :
    (s.withProgram q).destinations? state token = (s.withProgram p).destinations? state token :=
  congrArg (fun table => table.find? token) (table_reordered h state)

theorem proceed_reordered (h : p.Reordered q) (exploring : Bool) (token : Token) (b : Branch)
    (m : Meter) : (s.withProgram q).proceed exploring token b m =
      (s.withProgram p).proceed exploring token b m := by
  have hmarked : (s.withProgram q).marked exploring b = (s.withProgram p).marked exploring b := by
    simp only [marked, program_withProgram, accepts_reordered h]
    rfl
  have hspawns : (s.withProgram q).spawns token b = (s.withProgram p).spawns token b := by
    simp only [spawns, targets, destinations?_reordered h]
  have hmove : ∀ state b, (s.withProgram q).move state token b m =
      (s.withProgram p).move state token b m := by
    intro state b
    unfold move
    rw [destinations?_reordered h]
    rfl
  unfold proceed
  simp only [hmarked, hspawns, hmove, program_withProgram, options_withProgram,
    accepts_reordered h, ← h.mode]
  rfl

/-- A stop that is not about a token outside of the alphabet quotes none. -/
theorem withAlphabet_of_explains {state : Ref} {token : Token} {e : Stop} {alphabet : List String}
    (h : s.Explains state token e) (hf : s.tokenFault? token = none) :
    e.withAlphabet alphabet = e := by
  cases e with
  | unknownToken name alphabet' =>
    obtain ⟨rfl, hchecked, hunknown, -⟩ := h
    rcases tokenFault?_eq_none_iff.mp hf with hignored | hknown
    · rw [hchecked] at hignored
      cases hignored
    · exact absurd (hknown name rfl) hunknown
  | _ => rfl

theorem act_reordered (h : p.Reordered q) (exploring : Bool) (token : Token) (b : Branch)
    (m : Meter) : (s.withProgram q).act exploring token b m =
      (((s.withProgram p).act exploring token b m).1,
        ((s.withProgram p).act exploring token b m).2.mapError (Stop.withAlphabet q.alphabet)) := by
  have hfault := tokenFault?_reordered (s := s) h token
  cases hf : (s.withProgram p).tokenFault? token with
  | some e =>
    rw [hf] at hfault
    rw [act, act, hfault, hf]
    rfl
  | none =>
    rw [hf] at hfault
    have hcommands : (s.withProgram q).executeAll (q.commandsAt b.state) m =
        (s.withProgram p).executeAll (p.commandsAt b.state) m := by
      rw [executeAll_congr (s := s.withProgram q) (t := s.withProgram p) rfl rfl,
        commandsAt_reordered h]
    have hsame : (s.withProgram q).act exploring token b m =
        (s.withProgram p).act exploring token b m := by
      unfold act
      simp only [hfault, hf, Option.map_none, program_withProgram, hcommands, proceed_reordered h]
    -- past the alphabet, no stop quotes it
    rw [hsame]
    rcases hr : (s.withProgram p).act exploring token b m with ⟨m₁, e | o⟩
    · have hexplains := stop_of_act (congrArg Prod.snd hr)
      rw [Except.mapError, withAlphabet_of_explains hexplains hf]
    · rfl

/-! ### Runs -/

/-- Comparing a program with another one: the second one quotes its own alphabet, and the first one
never trips. -/
def quoting (alphabet : List String) : Comparison where
  report := Stop.withAlphabet alphabet
  Trips _ := False
  Behind _ _ _ := True
  Within _ := True

theorem alongside_reordered (h : p.Reordered q) :
    Alongside (quoting q.alphabet) (s.withProgram p) (s.withProgram q) where
  mode := h.mode.symm
  start := h.start.symm
  accepts := accepts_reordered h
  tokens state := congrArg Dict.keys (table_reordered h state)
  missing := ⟨rfl, id⟩
  empty := trivial
  stays _ _ := trivial
  later _ _ := trivial
  steps exploring token b m _ := by
    refine .together ?_ fun _ _ => id
    have hmax : (s.withProgram q).options.maxSteps = (s.withProgram p).options.maxSteps := rfl
    rw [step_eq, step_eq, hmax, act_reordered h]
    by_cases hspent : (s.withProgram p).options.maxSteps ≤ m.steps
    · rw [if_pos hspent, if_pos hspent]
      rfl
    · rw [if_neg hspent, if_neg hspent]
      rfl

/-- **The order in which a program lists things is nothing to its runs**: whatever the input, the
options, the draws and the prompts, they have the same branches and the same meter, and end
normally, or for the same reason. -/
theorem run_withProgram (s : Simulator) (h : p.Reordered q) (input : Option (List Token)) :
    (s.withProgram q).run input =
      { (s.withProgram p).run input with
        stop := ((s.withProgram p).run input).stop.map (Stop.withAlphabet q.alphabet) } := by
  rcases (alongside_reordered (s := s) h).run input with ⟨hsame, -⟩ | ⟨-, htrips, -, -⟩
  · exact (Prod.mk.inj hsame).2
  · exact htrips.elim

end Simulator

end FiniteAutomata
