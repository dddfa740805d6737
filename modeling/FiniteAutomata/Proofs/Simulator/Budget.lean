import FiniteAutomata.Proofs.Simulator.Alongside

/-! # The budget of steps

A run within a budget against the same run within a larger one. Each part of the two is the same in
both, or the smaller budget has cut the first one off, exactly where it was used up, and the second
one goes on from there (`Cut`). For a step that is so because a step counts itself before it does
anything else (`step_cut`), and from part to part it is passed on. So a budget is nothing but a
cutoff (`run_withBudget`). -/

namespace FiniteAutomata.Simulator

variable {s : Simulator} {n n' : Nat}

/-- The simulator with another budget of steps. -/
def withBudget (s : Simulator) (n : Nat) : Simulator :=
  { s with options := { s.options with maxSteps := n } }

/-- How a part of a run within a budget `n` compares with the same part within a larger one: they
are the same and no budget has stopped them, or the budget has cut the first one off, and it has
gone some of the way of the second one. -/
inductive Cut {α : Type} (n : Nat) (stop : α → Option Stop) (Earlier : α → α → Prop)
    (p p' : Meter × α) : Prop
  | whole (same : p = p') (unlimited : ∀ limit, stop p.2 ≠ some (.stepLimit limit))
  | short (limited : stop p.2 = some (.stepLimit n)) (spent : p.1.steps = n)
      (grows : p.1.Grows p'.1) (more : n < p'.1.steps) (earlier : Earlier p.2 p'.2)

/-! ### Steps -/

/-- Past its count, a step does not know the budget. -/
theorem act_withBudget (exploring : Bool) (token : Token) (b : Branch) (m : Meter) :
    (s.withBudget n).act exploring token b m = s.act exploring token b m := by
  rw [act, executeAll_congr (s := s.withBudget n) (t := s) rfl rfl]
  rfl

theorem step_withBudget (exploring : Bool) (token : Token) (b : Branch) (m : Meter) :
    (s.withBudget n).step exploring token b m =
      if n ≤ m.steps then (m, .error (.stepLimit n))
      else s.act exploring token b { m with steps := m.steps + 1 } := by
  rw [step_eq, act_withBudget]
  rfl

/-- **What a smaller budget does to a step**: nothing as long as there is some of it left, and once
it is used up the step is refused before anything else happens. -/
theorem step_cut (hlt : n < n') (exploring : Bool) (token : Token) (b : Branch) {m : Meter}
    (hle : m.steps ≤ n) :
    ((s.withBudget n).step exploring token b m = (s.withBudget n').step exploring token b m ∧
      ∀ limit, ((s.withBudget n).step exploring token b m).2 ≠ .error (.stepLimit limit)) ∨
    ((s.withBudget n).step exploring token b m = (m, .error (.stepLimit n)) ∧ m.steps = n ∧
      n < ((s.withBudget n').step exploring token b m).1.steps) := by
  rw [step_withBudget (n := n), step_withBudget (n := n'),
    if_neg (Nat.not_le.mpr (Nat.lt_of_le_of_lt hle hlt))]
  split_ifs with hspent
  · refine Or.inr ⟨rfl, Nat.le_antisymm hle hspent, ?_⟩
    rw [(act_grows _ _ _ _).2]
    exact Nat.lt_succ_of_le hspent
  · exact Or.inl ⟨rfl, fun limit h => stop_of_act h⟩

/-! ### Runs -/

/-- Comparing a budget with a larger one: what stops the first run alone is that it is used up, and
the second run takes more steps. -/
def cutoff (n : Nat) : Comparison where
  report := id
  Trips e := ∃ limit, e = .stepLimit limit
  Behind e m m' := e = .stepLimit n ∧ m.steps = n ∧ m.Grows m' ∧ n < m'.steps
  Within m := m.steps ≤ n

theorem alongside_withBudget (hlt : n < n') :
    Alongside (cutoff n) (s.withBudget n) (s.withBudget n') where
  mode := rfl
  start := rfl
  accepts := rfl
  tokens _ := rfl
  missing := ⟨rfl, by simp [cutoff]⟩
  empty := Nat.zero_le n
  stays hin h := h.within hin
  later := fun ⟨he, hspent, hgrows, hmore⟩ h =>
    ⟨he, hspent, hgrows.trans h, Nat.lt_of_lt_of_le hmore h.steps⟩
  steps exploring token b m hin := by
    have hgrows := (leads_step (s := s.withBudget n') exploring token b m).grows
    rcases step_cut (s := s) hlt exploring token b hin with ⟨hsame, hno⟩ | ⟨hcut, hspent, hmore⟩
    · rw [← hsame]
      rcases hs : (s.withBudget n).step exploring token b m with ⟨m₁, e | o⟩
      · rw [hs] at hno
        refine .together rfl ?_
        rintro e' he ⟨limit, rfl⟩
        exact hno limit (congrArg Except.error (Option.some.inj he))
      · exact .together rfl (by simp [Part.step])
    · rw [hcut]
      exact .tripped rfl ⟨n, rfl⟩ ⟨rfl, hspent, hgrows, hmore⟩ trivial

/-- **What a smaller budget does to a run.** -/
theorem run_cut (hlt : n < n') (input : Option (List Token)) :
    Cut n Run.stop (Precedes s.program.mode)
      (((s.withBudget n).run input).meter, (s.withBudget n).run input)
      (((s.withBudget n').run input).meter, (s.withBudget n').run input) := by
  rcases (alongside_withBudget (s := s) hlt).run input with
    ⟨hsame, hno⟩ | ⟨hstop, -, ⟨rfl, hspent, hgrows, hmore⟩, hprecedes⟩
  · refine .whole (hsame.trans ?_).symm fun limit hlimit => hno _ hlimit ⟨limit, rfl⟩
    simp [Part.run, cutoff]
  · exact .short hstop hspent hgrows hmore hprecedes

theorem Precedes.self {mode : Mode} {r r' : Run} (h : Precedes mode r r') : Precedes mode r r := by
  cases mode with
  | dfa =>
    obtain ⟨b, -, hb, -, -⟩ := h
    exact ⟨b, b, hb, hb, List.prefix_rfl⟩
  | nfa => exact List.prefix_rfl (l := r.places)

/-- A run that its budget stops has used up all of it. -/
theorem steps_of_limited {input : Option (List Token)} {limit : Nat}
    (h : ((s.withBudget n).run input).stop = some (.stepLimit limit)) :
    limit = n ∧ ((s.withBudget n).run input).meter.steps = n ∧
      Precedes s.program.mode ((s.withBudget n).run input) ((s.withBudget n).run input) := by
  rcases run_cut (s := s) (Nat.lt_succ_self n) input with
    ⟨-, hno⟩ | ⟨hlimit, hspent, -, -, hprecedes⟩
  · exact absurd h (hno limit)
  · rw [h] at hlimit
    cases hlimit
    exact ⟨rfl, hspent, hprecedes.self⟩

/-- **The budget is nothing but a cutoff.** A run that its budget does not stop is the same within
every larger one. A run that its budget stops has used up all of it; what it has shown and explored
comes first in the run within a larger budget, which is stopped by that or takes more steps. At no
point of a run does the number of steps exceed the budget: not on any meter that steps lead to, and
a run ends with such a meter. -/
theorem run_withBudget (hle : n ≤ n') (input : Option (List Token)) :
    ((∀ limit, ((s.withBudget n).run input).stop ≠ some (.stepLimit limit)) →
      (s.withBudget n').run input = (s.withBudget n).run input) ∧
    (∀ limit, ((s.withBudget n).run input).stop = some (.stepLimit limit) →
      limit = n ∧ ((s.withBudget n).run input).meter.steps = n ∧
      ((s.withBudget n).run input).meter.shown.toList <+:
        ((s.withBudget n').run input).meter.shown.toList ∧
      Precedes s.program.mode ((s.withBudget n).run input) ((s.withBudget n').run input) ∧
      (((s.withBudget n').run input).stop = some (.stepLimit n') ∨
        n < ((s.withBudget n').run input).meter.steps)) ∧
    (s.withBudget n).Leads {} ((s.withBudget n).run input).meter ∧
    ∀ m, (s.withBudget n).Leads {} m → m.steps ≤ n := by
  refine ⟨?_, ?_, leads_run input, fun m h => h.within (Nat.zero_le n)⟩
  · intro hno
    rcases Nat.lt_or_eq_of_le hle with hlt | rfl
    · rcases run_cut (s := s) hlt input with ⟨hsame, -⟩ | ⟨hlimit, -⟩
      · exact (congrArg Prod.snd hsame).symm
      · exact absurd hlimit (hno n)
    · rfl
  · intro limit hlimit
    obtain ⟨rfl, hspent, hself⟩ := steps_of_limited hlimit
    refine ⟨rfl, hspent, ?_⟩
    rcases Nat.lt_or_eq_of_le hle with hlt | rfl
    · rcases run_cut (s := s) hlt input with ⟨-, hno⟩ | ⟨-, -, hgrows, hmore, hprecedes⟩
      · exact absurd hlimit (hno _)
      · exact ⟨hgrows.shown, hprecedes, Or.inr hmore⟩
    · exact ⟨List.prefix_rfl, hself, Or.inl hlimit⟩

/-- A program in which every branch at `a` forks, one way back to `a` and one to `b`. -/
def forking : Simulator where
  program :=
    { alphabet := ["x"]
      states := Dict.ofList
        [("a", Dict.ofList [(.named "x", Dict.ofList [(.named "a", 1), (.named "b", 1)])]),
          ("b", Dict.ofList [(.named "x", Dict.ofList [(.named "b", 1)])])]
      start := "a"
      accept := ["b"]
      mode := .nfa
      commands := Dict.ofList [("b", [⟨"log", ["passed"]⟩])]
      vars := ∅ }

/-- The smaller budget ends in the middle of the third round, the larger one in that of the
fourth. -/
theorem run_withBudget_forking :
    4 ≤ 8 ∧ ((forking.withBudget 4).run none).stop = some (.stepLimit 4) ∧
      ((forking.withBudget 4).run none).meter.steps = 4 ∧
      ((forking.withBudget 4).run none).meter.shown.toList <+:
        ((forking.withBudget 8).run none).meter.shown.toList ∧
      Precedes .nfa ((forking.withBudget 4).run none) ((forking.withBudget 8).run none) ∧
      (((forking.withBudget 8).run none).stop = some (.stepLimit 8) ∨
        4 < ((forking.withBudget 8).run none).meter.steps) := by
  have hlimit : ((forking.withBudget 4).run none).stop = some (.stepLimit 4) := by decide +kernel
  have hle : 4 ≤ 8 := by decide
  obtain ⟨-, hspent, hrest⟩ := (run_withBudget (s := forking) hle none).2.1 4 hlimit
  exact ⟨hle, hlimit, hspent, hrest⟩

end FiniteAutomata.Simulator
