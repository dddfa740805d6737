import FiniteAutomata.Proofs.Simulator.Steps

/-! # Meters along a run

A meter only grows: steps, draws and prompts are counted up, and what was shown stays at the front
(`Meter.Grows`). A step that is not refused by the budget counts itself once, and the rest of it
counts no steps (`act_grows`). Whatever the parts of a run do to a meter they do by steps, so it
becomes one that steps lead to (`Leads`). Such meters have grown (`Leads.grows`) and stay within the
budget (`Leads.within`). -/

namespace FiniteAutomata

/-- A meter that goes on from another one: nothing counted or shown is taken back. -/
structure Meter.Grows (m m' : Meter) : Prop where
  steps : m.steps ≤ m'.steps
  draws : m.draws ≤ m'.draws
  prompts : m.prompts ≤ m'.prompts
  shown : m.shown.toList <+: m'.shown.toList

namespace Meter

variable {m m' m'' : Meter}

@[simp] theorem Grows.refl (m : Meter) : m.Grows m :=
  ⟨Nat.le_refl _, Nat.le_refl _, Nat.le_refl _, List.prefix_rfl⟩

theorem Grows.trans (h : m.Grows m') (h' : m'.Grows m'') : m.Grows m'' :=
  ⟨Nat.le_trans h.steps h'.steps, Nat.le_trans h.draws h'.draws,
    Nat.le_trans h.prompts h'.prompts, h.shown.trans h'.shown⟩

theorem grows_emit (m : Meter) (signal : Signal) : m.Grows (m.emit signal) :=
  ⟨Nat.le_refl _, Nat.le_refl _, Nat.le_refl _, by simp [emit]⟩

/-- The lines of a meter that has grown start with those it had. -/
theorem Grows.lines (h : m.Grows m') : m.lines <+: m'.lines := h.shown.filterMap _

end Meter

namespace Simulator

variable {s : Simulator}

/-! ### The parts of a step -/

theorem execute_grows (c : Command) (m : Meter) : m.Grows (s.execute c m).1 := by
  unfold execute
  split_ifs
  · exact .refl m
  · exact m.grows_emit _
  · exact .refl m
  · have hcounted : m.Grows { m with prompts := m.prompts + 1 } :=
      ⟨Nat.le_refl _, Nat.le_refl _, Nat.le_succ _, List.prefix_rfl⟩
    exact hcounted.trans (Meter.grows_emit _ _)
  · exact .refl m

theorem executeAll_grows : ∀ (cs : List Command) (m : Meter), m.Grows (s.executeAll cs m).1
  | [], m => .refl m
  | c :: cs, m => by
    have hc := execute_grows (s := s) c m
    rw [executeAll]
    rcases h : s.execute c m with ⟨m₁, _ | e⟩
    · rw [h] at hc
      exact hc.trans (executeAll_grows cs m₁)
    · rw [h] at hc
      exact hc

theorem choose_grows (d : Destinations) (m : Meter) : m.Grows (s.choose d m).1 := by
  unfold choose
  split
  · exact .refl m
  · exact ⟨Nat.le_refl _, Nat.le_add_right _ _, Nat.le_refl _, List.prefix_rfl⟩

theorem choose_steps (d : Destinations) (m : Meter) : (s.choose d m).1.steps = m.steps := by
  unfold choose
  split <;> rfl

/-- The meter after a transition of deterministic mode: that of the choice, if there is one. -/
theorem move_meter (state : String) (token : Token) (b : Branch) (m : Meter) :
    (s.move state token b m).1 = m ∨ ∃ d, (s.move state token b m).1 = (s.choose d m).1 := by
  unfold move
  split
  · split_ifs <;> exact Or.inl rfl
  · next d _ =>
    refine Or.inr ⟨d, ?_⟩
    rcases s.choose d m with ⟨m', e | destination⟩ <;> rfl

/-- The meter after the transition that a step takes: that of a choice, if there is one. -/
theorem proceed_meter (exploring : Bool) (token : Token) (b : Branch) (m : Meter) :
    (s.proceed exploring token b m).1 = m ∨
      ∃ d, (s.proceed exploring token b m).1 = (s.choose d m).1 := by
  unfold proceed
  split
  · exact Or.inl rfl
  · split_ifs
    · exact Or.inl rfl
    · split
      · exact move_meter _ _ _ _
      · exact Or.inl rfl

theorem proceed_grows (exploring : Bool) (token : Token) (b : Branch) (m : Meter) :
    m.Grows (s.proceed exploring token b m).1 ∧
      (s.proceed exploring token b m).1.steps = m.steps := by
  rcases proceed_meter (s := s) exploring token b m with h | ⟨d, h⟩
  · rw [h]
    exact ⟨.refl m, rfl⟩
  · rw [h]
    exact ⟨choose_grows d m, choose_steps d m⟩

theorem act_grows (exploring : Bool) (token : Token) (b : Branch) (m : Meter) :
    m.Grows (s.act exploring token b m).1 ∧ (s.act exploring token b m).1.steps = m.steps := by
  have hgrows := executeAll_grows (s := s) (s.program.commandsAt b.state) m
  have hsteps := executeAll_steps (s := s) (s.program.commandsAt b.state) m
  unfold act
  split
  · exact ⟨.refl m, rfl⟩
  · rcases hx : s.executeAll (s.program.commandsAt b.state) m with ⟨m₁, _ | e⟩
    · rw [hx] at hgrows hsteps
      obtain ⟨hgrows', hsteps'⟩ := proceed_grows (s := s) exploring token b m₁
      exact ⟨hgrows.trans hgrows', hsteps'.trans hsteps⟩
    · rw [hx] at hgrows hsteps
      exact ⟨hgrows, hsteps⟩

/-- A step that succeeds has counted itself. -/
theorem steps_of_step_ok {exploring : Bool} {token : Token} {b : Branch} {m m' : Meter}
    {o : Outcome} (h : s.step exploring token b m = (m', .ok o)) : m'.steps = m.steps + 1 := by
  obtain ⟨hlt, -⟩ := step_ok h
  have hsteps := (act_grows (s := s) exploring token b { m with steps := m.steps + 1 }).2
  rw [step_eq, if_neg (by omega)] at h
  rw [h] at hsteps
  exact hsteps

/-! ### Steps that stop -/

theorem execute_draws (c : Command) (m : Meter) : (s.execute c m).1.draws = m.draws := by
  unfold execute
  split_ifs <;> rfl

theorem executeAll_draws : ∀ (cs : List Command) (m : Meter),
    (s.executeAll cs m).1.draws = m.draws
  | [], _ => rfl
  | c :: cs, m => by
    have hc := execute_draws (s := s) c m
    rw [executeAll]
    rcases h : s.execute c m with ⟨m₁, _ | e⟩
    · rw [h] at hc
      exact (executeAll_draws cs m₁).trans hc
    · rw [h] at hc
      exact hc

/-- A choice that fails draws nothing. -/
theorem choose_error {d : Destinations} {m m' : Meter} {e : Stop}
    (h : s.choose d m = (m', .error e)) : m' = m := by
  unfold choose at h
  split at h
  · exact (Prod.mk.inj h).1.symm
  · cases (Prod.mk.inj h).2

theorem move_error {state : String} {token : Token} {b : Branch} {m m' : Meter} {e : Stop}
    (h : s.move state token b m = (m', .error e)) : m' = m := by
  unfold move at h
  split at h
  · split_ifs at h
    · cases (Prod.mk.inj h).2
    · exact (Prod.mk.inj h).1.symm
  · next d _ =>
    rcases hc : s.choose d m with ⟨m₁, e' | destination⟩
    · rw [hc] at h
      obtain ⟨rfl, -⟩ := Prod.mk.inj h
      exact choose_error hc
    · rw [hc] at h
      cases (Prod.mk.inj h).2

theorem proceed_error {exploring : Bool} {token : Token} {b : Branch} {m m' : Meter} {e : Stop}
    (h : s.proceed exploring token b m = (m', .error e)) : m' = m := by
  unfold proceed at h
  split at h
  · cases (Prod.mk.inj h).2
  · split_ifs at h
    · cases (Prod.mk.inj h).2
    · split at h
      · exact move_error h
      · cases (Prod.mk.inj h).2

theorem act_error {exploring : Bool} {token : Token} {b : Branch} {m m' : Meter} {e : Stop}
    (h : s.act exploring token b m = (m', .error e)) : m'.draws = m.draws := by
  unfold act at h
  split at h
  · exact congrArg Meter.draws (Prod.mk.inj h).1.symm
  · have hdraws := executeAll_draws (s := s) (s.program.commandsAt b.state) m
    rcases hx : s.executeAll (s.program.commandsAt b.state) m with ⟨m₁, _ | e'⟩
    · rw [hx] at h hdraws
      rw [proceed_error h]
      exact hdraws
    · rw [hx] at h hdraws
      rw [← (Prod.mk.inj h).1]
      exact hdraws

/-- **A step that stops draws nothing** and has counted itself, if the budget is not what stops
it. -/
theorem step_error {exploring : Bool} {token : Token} {b : Branch} {m m' : Meter} {e : Stop}
    (h : s.step exploring token b m = (m', .error e)) :
    m'.draws = m.draws ∧
      ((e = .stepLimit s.options.maxSteps ∧ m'.steps = m.steps) ∨
        ((∀ limit, e ≠ .stepLimit limit) ∧ m'.steps = m.steps + 1)) := by
  rw [step_eq] at h
  split_ifs at h
  · obtain ⟨rfl, he⟩ := Prod.mk.inj h
    exact ⟨rfl, Or.inl ⟨(Except.error.inj he).symm, rfl⟩⟩
  · have hdraws := act_error h
    refine ⟨hdraws, Or.inr ⟨?_, ?_⟩⟩
    · -- what stops a step that was counted explains itself, which the budget does not
      rintro limit rfl
      exact stop_of_act (congrArg Prod.snd h)
    · have hsteps := (act_grows (s := s) exploring token b { m with steps := m.steps + 1 }).2
      rw [h] at hsteps
      exact hsteps

/-! ### Meters that steps lead to -/

/-- The meters that steps lead to from a meter, whatever branches and tokens they are about. -/
inductive Leads (s : Simulator) (m : Meter) : Meter → Prop
  | refl : Leads s m m
  | step {m' : Meter} (h : Leads s m m') (exploring : Bool) (token : Token) (b : Branch) :
      Leads s m (s.step exploring token b m').1

variable {m m' m'' : Meter}

theorem Leads.trans (h : s.Leads m m') (h' : s.Leads m' m'') : s.Leads m m'' := by
  induction h' with
  | refl => exact h
  | step _ exploring token b ih => exact ih.step exploring token b

theorem leads_step (exploring : Bool) (token : Token) (b : Branch) (m : Meter) :
    s.Leads m (s.step exploring token b m).1 :=
  .step .refl exploring token b

/-- **Meters only grow.** -/
theorem Leads.grows (h : s.Leads m m') : m.Grows m' := by
  induction h with
  | refl => exact .refl m
  | @step m' _ exploring token b ih =>
    refine ih.trans ?_
    rw [step_eq]
    split_ifs
    · exact .refl m'
    · have hcounted : m'.Grows { m' with steps := m'.steps + 1 } :=
        ⟨Nat.le_succ _, Nat.le_refl _, Nat.le_refl _, List.prefix_rfl⟩
      exact hcounted.trans (act_grows _ _ _ _).1

/-- **The budget is never exceeded.** -/
theorem Leads.within (h : s.Leads m m') (hm : m.steps ≤ s.options.maxSteps) :
    m'.steps ≤ s.options.maxSteps := by
  induction h with
  | refl => exact hm
  | @step m' _ exploring token b ih =>
    rw [step_eq]
    split_ifs with hlimit
    · exact ih
    · rw [(act_grows _ _ _ _).2]
      exact Nat.not_le.mp hlimit

/-! ### What a run does, it does by steps -/

theorem leads_walk : ∀ (tokens : List Token) (b : Branch) (m : Meter),
    s.Leads m (s.walk tokens b m).1
  | [], _, _ => .refl
  | token :: rest, b, m => by
    rw [walk]
    split_ifs
    · have hstep := leads_step (s := s) false token b m
      rcases h : s.step false token b m with ⟨m₁, e | o⟩
      · rw [h] at hstep
        exact hstep
      · rw [h] at hstep
        exact hstep.trans (leads_walk rest o.branch m₁)
    · exact .refl

/-- A walk goes on from where its first step leads. -/
theorem leads_walk_cons {b : Branch} (hlive : b.isLive = true) (token : Token) (rest : List Token)
    (m : Meter) : s.Leads (s.step false token b m).1 (s.walk (token :: rest) b m).1 := by
  rw [walk, if_pos hlive]
  rcases s.step false token b m with ⟨m₁, e | o⟩
  · exact .refl
  · exact leads_walk rest o.branch m₁

theorem leads_tryTokens (exploring : Bool) : ∀ (tokens : List Token) (b : Branch) (m : Meter),
    s.Leads m (s.tryTokens exploring tokens b m).1
  | [], _, _ => .refl
  | token :: rest, b, m => by
    rw [tryTokens]
    have hstep := leads_step (s := s) exploring token b m
    rcases h : s.step exploring token b m with ⟨m₁, e | o⟩
    · rw [h] at hstep
      exact hstep
    · rw [h] at hstep
      dsimp only
      split_ifs
      · exact hstep
      · exact hstep.trans (leads_tryTokens exploring rest o.branch m₁)

/-- Tokens are tried from where the first one leads on. -/
theorem leads_tryTokens_cons (exploring : Bool) (token : Token) (rest : List Token) (b : Branch)
    (m : Meter) : s.Leads (s.step exploring token b m).1
      (s.tryTokens exploring (token :: rest) b m).1 := by
  rw [tryTokens]
  rcases s.step exploring token b m with ⟨m₁, e | o⟩
  · exact .refl
  · dsimp only
    split_ifs
    · exact .refl
    · exact leads_tryTokens exploring rest o.branch m₁

theorem leads_visit (offer : Offer) (b : Branch) (m : Meter) :
    s.Leads m (s.visit offer b m).1 := by
  unfold visit
  split_ifs
  · exact .refl
  · exact leads_tryTokens _ _ _ _

theorem leads_visitAll (offer : Offer) : ∀ (frontier : List Branch) (r : Round) (m : Meter),
    s.Leads m (s.visitAll offer frontier r m).1
  | [], _, _ => .refl
  | b :: rest, r, m => by
    rw [visitAll]
    have hvisit := leads_visit (s := s) offer b m
    rcases h : s.visit offer b m with ⟨m₁, v⟩
    rw [h] at hvisit
    dsimp only
    split
    · exact hvisit
    · exact hvisit.trans (leads_visitAll offer rest _ m₁)

/-- A round goes on from where its first visit leads. -/
theorem leads_visitAll_cons (offer : Offer) (b : Branch) (rest : List Branch) (r : Round)
    (m : Meter) : s.Leads (s.visit offer b m).1 (s.visitAll offer (b :: rest) r m).1 := by
  rw [visitAll]
  rcases s.visit offer b m with ⟨m₁, v⟩
  dsimp only
  split
  · exact .refl
  · exact leads_visitAll offer rest _ m₁

theorem leads_round (offer : Offer) (frontier : Array Branch) (m : Meter) :
    s.Leads m (s.round offer frontier m).1 :=
  leads_visitAll _ _ _ _

end Simulator

end FiniteAutomata
