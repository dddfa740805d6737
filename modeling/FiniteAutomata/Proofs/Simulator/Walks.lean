import FiniteAutomata.Proofs.Simulator.Meters

/-! # Walks

In deterministic mode one branch walks along the input. A choice falls on an entry of its set
(`choose_ok`), so a step that succeeds ends the branch at a sentinel or at a state that halts, or
moves it to one of the targets (`step_moves`). A walk never goes back: the path of its branch starts
with the path it had (`path_walk`). -/

namespace FiniteAutomata

/-! ### Choices -/

namespace Choice

variable {α : Type}

theorem walk_mem (fallback : α) : ∀ (value : Float) (entries : List (α × Float)),
    walk fallback value entries = fallback ∨ walk fallback value entries ∈ entries.map Prod.fst
  | _, [] => Or.inl rfl
  | value, (a, weight) :: rest => by
    rw [walk]
    split_ifs
    · exact Or.inr (by simp)
    · exact (walk_mem fallback (value - weight) rest).imp_right fun h => by simp [h]

/-- **The choice falls on an entry.** -/
theorem mem_of_choose? {entries : List (α × Float)} {draw : Float} {a : α}
    (h : choose? entries draw = some a) : a ∈ entries.map Prod.fst := by
  unfold choose? at h
  split at h
  · simp_all
  · unfold pick? at h
    split at h
    · cases h
    · next last hlast =>
      obtain rfl := Option.some.inj h
      rcases walk_mem last.1 (draw * total entries) entries with heq | hmem
      · rw [heq]
        exact List.mem_map.mpr ⟨last, List.mem_of_getLast? hlast, rfl⟩
      · exact hmem

end Choice

/-- Moving a live branch and starting another one from it give the same branch. -/
theorem Branch.advance_of_live {b : Branch} (hlive : b.isLive = true) (e : Event) :
    b.advance e = b.spawn e := by
  obtain ⟨haccepted, hterminated⟩ := isLive_iff.mp hlive
  simp [advance, spawn, haccepted, hterminated]

namespace Simulator

variable {s : Simulator}

/-- How many draws a step takes that moves from a state on a token. -/
def drawsOn (s : Simulator) (state : Ref) (token : Token) : Nat :=
  match s.destinations? state token with
  | none => 0
  | some d => Choice.draws d.entries

theorem choose_ok {d : Destinations} {m m' : Meter} {destination : Ref}
    (h : s.choose d m = (m', .ok destination)) :
    destination ∈ d.keys ∧ m' = { m with draws := m.draws + Choice.draws d.entries } := by
  unfold choose at h
  split at h
  · simp at h
  · next destination' hc =>
    simp only [Prod.mk.injEq, Except.ok.injEq] at h
    obtain ⟨rfl, rfl⟩ := h
    exact ⟨Choice.mem_of_choose? hc, rfl⟩

/-! ### Steps -/

theorem move_ok {state : String} {token : Token} {b : Branch} {m m' : Meter} {o : Outcome}
    (h : s.move state token b m = (m', .ok o)) :
    (∃ destination ∈ s.targets b.state token,
      o = .moved (b.advance ⟨b.state, token, destination⟩)) ∧
      m' = { m with draws := m.draws + s.drawsOn b.state token } := by
  unfold move at h
  unfold targets drawsOn
  cases hd : s.destinations? b.state token with
  | none =>
    rw [hd] at h
    dsimp only at h ⊢
    split_ifs at h
    · simp only [Prod.mk.injEq, Except.ok.injEq] at h
      obtain ⟨rfl, rfl⟩ := h
      exact ⟨⟨.null, by simp, rfl⟩, rfl⟩
    · simp at h
  | some d =>
    rw [hd] at h
    dsimp only at h ⊢
    rcases hc : s.choose d m with ⟨m₁, e | destination⟩
    · simp [hc] at h
    · simp only [hc, Prod.mk.injEq, Except.ok.injEq] at h
      obtain ⟨rfl, rfl⟩ := h
      obtain ⟨hmem, hmeter⟩ := choose_ok hc
      exact ⟨⟨destination, hmem, rfl⟩, hmeter⟩

@[simp] theorem marked_false (b : Branch) : s.marked false b = b := rfl

/-- The transition that a walk takes: its branch ends at a sentinel or at a state that halts, or
moves to a target. -/
theorem proceed_moves {token : Token} {b : Branch} {m m' : Meter} {o : Outcome}
    (hm : s.program.mode = .dfa) (h : s.proceed false token b m = (m', .ok o)) :
    (b.isStuck = true ∧ o = .ended b.terminate ∧ m' = m) ∨
      (s.halts b.state = true ∧ o = .ended (b.conclude true) ∧ m' = m) ∨
      (b.isStuck = false ∧ s.halts b.state = false ∧
        (∃ destination ∈ s.targets b.state token,
          o = .moved (b.advance ⟨b.state, token, destination⟩)) ∧
        m' = { m with draws := m.draws + s.drawsOn b.state token }) := by
  cases hs : b.state with
  | sentinel x =>
    rw [proceed, hs] at h
    simp only [Prod.mk.injEq, Except.ok.injEq] at h
    exact Or.inl ⟨by simp [Branch.isStuck, hs, Ref.isSentinel], h.2.symm, h.1.symm⟩
  | named state =>
    cases hh : s.halts b.state with
    | true =>
      rw [proceed_halts hh] at h
      simp only [Prod.mk.injEq, Except.ok.injEq] at h
      exact Or.inr (Or.inl ⟨hs ▸ hh, h.2.symm, h.1.symm⟩)
    | false =>
      refine Or.inr (Or.inr ⟨by simp [Branch.isStuck, hs, Ref.isSentinel], hs ▸ hh, ?_⟩)
      rw [proceed, hs] at h
      rw [hs, halts] at hh
      simp only [hh, Bool.false_eq_true, if_false, hm, marked_false] at h
      rw [← hs]
      exact move_ok h

/-- **What a step of a walk has done that succeeds.** -/
theorem step_moves {token : Token} {b : Branch} {m m' : Meter} {o : Outcome}
    (hm : s.program.mode = .dfa) (h : s.step false token b m = (m', .ok o)) :
    (b.isStuck = true ∧ o = .ended b.terminate) ∨
      (s.halts b.state = true ∧ o = .ended (b.conclude true)) ∨
      (b.isStuck = false ∧ s.halts b.state = false ∧ ∃ destination ∈ s.targets b.state token,
        o = .moved (b.advance ⟨b.state, token, destination⟩)) := by
  obtain ⟨-, -, m₁, -, hp⟩ := step_ok h
  rcases proceed_moves hm hp with ⟨hb, ho, -⟩ | ⟨hh, ho, -⟩ | ⟨hb, hh, ho, -⟩
  · exact Or.inl ⟨hb, ho⟩
  · exact Or.inr (Or.inl ⟨hh, ho⟩)
  · exact Or.inr (Or.inr ⟨hb, hh, ho⟩)

/-! ### Walks -/

theorem walk_of_not_live {b : Branch} (hb : b.isLive = false) (tokens : List Token) (m : Meter) :
    s.walk tokens b m = (m, b, none) := by
  cases tokens with
  | nil => rfl
  | cons token rest => rw [walk, hb, if_neg (by simp)]

theorem walk_cons_of_live {b : Branch} (hb : b.isLive = true) (token : Token) (rest : List Token)
    (m : Meter) : s.walk (token :: rest) b m =
      match s.step false token b m with
      | (m, .error e) => (m, b, some e)
      | (m, .ok o) => s.walk rest o.branch m := by
  rcases h : s.step false token b m with ⟨m₁, e | o⟩ <;> simp [walk, hb, h]

theorem path_step {token : Token} {b : Branch} {m m' : Meter} {o : Outcome}
    (hm : s.program.mode = .dfa) (h : s.step false token b m = (m', .ok o)) :
    b.path <+: o.branch.path := by
  rcases step_moves hm h with ⟨-, rfl⟩ | ⟨-, rfl⟩ | ⟨-, -, destination, -, rfl⟩
  · exact List.prefix_rfl
  · exact List.prefix_rfl
  · simp [Outcome.branch]

/-- **A walk never goes back.** -/
theorem path_walk (hm : s.program.mode = .dfa) : ∀ (tokens : List Token) (b : Branch) (m : Meter),
    b.path <+: (s.walk tokens b m).2.1.path
  | [], _, _ => List.prefix_rfl
  | token :: rest, b, m => by
    cases hb : b.isLive with
    | false => simp [walk_of_not_live hb]
    | true =>
      rw [walk_cons_of_live hb]
      rcases hs : s.step false token b m with ⟨m₁, e | o⟩
      · exact List.prefix_rfl
      · exact (path_step hm hs).trans (path_walk hm rest o.branch m₁)

/-- A run in deterministic mode does not start without an input. -/
theorem run_none_of_dfa (hm : s.program.mode = .dfa) :
    s.run none = ⟨#[], {}, some .missingInput⟩ := by
  rw [run, runFrom, hm]
  rfl

/-- A deterministic run is a walk; its branch is settled if nothing stopped it. -/
theorem run_of_walk (hm : s.program.mode = .dfa) {word : List Token} {m : Meter} {b : Branch}
    {stop : Option Stop}
    (h : s.walk word (.start (.named s.program.start)) {} = (m, b, stop)) :
    s.run (some word) = ⟨#[if stop.isNone then s.settle b else b], m, stop⟩ := by
  simp only [run, runFrom, hm, runDeterministic, h]
  cases stop <;> rfl

end Simulator

end FiniteAutomata
