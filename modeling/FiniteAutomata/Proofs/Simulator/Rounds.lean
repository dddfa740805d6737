import FiniteAutomata.Proofs.Simulator.Steps
import Mathlib

/-! # Rounds

A round that succeeds has visited every branch of its frontier, started the offspring of all of
them in order, and taken the sum of their costs in steps (`round_ok`). A round that only the budget
can stop succeeds exactly if the budget covers that sum (`round_stop`). -/

namespace FiniteAutomata.Simulator

variable {s : Simulator} {offer : Offer}

/-- The number of steps that a round over a frontier takes. -/
def roundCost (s : Simulator) (offer : Offer) (frontier : List Branch) : ℕ :=
  (frontier.map (s.visitCost offer)).sum

theorem roundCost_cons (b : Branch) (rest : List Branch) :
    s.roundCost offer (b :: rest) = s.visitCost offer b + s.roundCost offer rest := by
  simp [roundCost]

theorem visitAll_ok (hm : s.program.mode = .nfa) (ha : s.options.stopOnAccept = false) :
    ∀ {frontier : List Branch} {r r' : Round} {m m' : Meter},
      (∀ b ∈ frontier, b.terminated = false) → s.visitAll offer frontier r m = (m', r') →
      r'.stop = none → r'.visited.toList = r.visited.toList ++ frontier.map (s.visited offer) ∧
        r'.started.toList = r.started.toList ++ frontier.flatMap (s.offspring offer) ∧
        m'.steps = m.steps + s.roundCost offer frontier
  | [], r, r', m, m', _, h, _ => by
    simp only [visitAll, Prod.mk.injEq] at h
    obtain ⟨rfl, rfl⟩ := h
    simp [roundCost]
  | b :: rest, r, r', m, m', hl, h, hr => by
    rw [visitAll] at h
    rcases hv : s.visit offer b m with ⟨m₁, v⟩
    rw [hv] at h
    cases hs : v.stop with
    | some e =>
      simp only [hs, Prod.mk.injEq] at h
      obtain ⟨rfl, rfl⟩ := h
      simp at hr
    | none =>
      simp only [hs] at h
      obtain ⟨h1, h2, h3⟩ := visit_ok hm (halts_of_goes_on ha _) (hl b (by simp)) hv hs
      obtain ⟨i1, i2, i3⟩ :=
        visitAll_ok hm ha (fun c hc => hl c (List.mem_cons_of_mem _ hc)) h hr
      refine ⟨?_, ?_, ?_⟩
      · rw [i1, h1]; simp
      · rw [i2, h2]; simp
      · rw [i3, h3, roundCost_cons]; omega

/-- **What a round that succeeds has done.** -/
theorem round_ok {frontier : Array Branch} {r : Round} {m m' : Meter}
    (hm : s.program.mode = .nfa) (ha : s.options.stopOnAccept = false)
    (hl : ∀ b ∈ frontier.toList, b.terminated = false)
    (h : s.round offer frontier m = (m', r)) (hr : r.stop = none) :
    r.visited.toList = frontier.toList.map (s.visited offer) ∧
      r.started.toList = frontier.toList.flatMap (s.offspring offer) ∧
      m'.steps = m.steps + s.roundCost offer frontier.toList := by
  simpa using visitAll_ok hm ha hl h hr

/-- A round that succeeds keeps what earlier visits have left, and holds what each of its own visits
leaves. -/
theorem mem_visitAll : ∀ {frontier : List Branch} {r r' : Round} {m m' : Meter},
    s.visitAll offer frontier r m = (m', r') → r'.stop = none →
      (∀ b ∈ r.visited, b ∈ r'.visited) ∧ (∀ b ∈ r.started, b ∈ r'.started) ∧
        ∀ b ∈ frontier, ∃ m₁ m₂ v, s.visit offer b m₁ = (m₂, v) ∧ v.stop = none ∧
          v.branch ∈ r'.visited ∧ ∀ c ∈ v.children, c ∈ r'.started
  | [], r, r', m, m', h, _ => by
    simp only [visitAll, Prod.mk.injEq] at h
    obtain ⟨-, rfl⟩ := h
    exact ⟨fun _ => id, fun _ => id, by simp⟩
  | b :: rest, r, r', m, m', h, hr => by
    rw [visitAll] at h
    rcases hv : s.visit offer b m with ⟨m₁, v⟩
    rw [hv] at h
    cases hs : v.stop with
    | some e =>
      simp only [hs, Prod.mk.injEq] at h
      obtain ⟨-, rfl⟩ := h
      cases hr
    | none =>
      simp only [hs] at h
      obtain ⟨hvisited, hstarted, hrest⟩ := mem_visitAll h hr
      have hstarts : ∀ c, c ∈ r.started ∨ c ∈ v.children → c ∈ r.started ++ v.children := by
        intro c hc
        rw [← Array.mem_toList_iff]
        simpa using hc
      refine ⟨fun c hc => hvisited c (Array.mem_push.mpr (Or.inl hc)),
        fun c hc => hstarted c (hstarts c (Or.inl hc)), ?_⟩
      intro c hc
      rcases List.mem_cons.mp hc with rfl | hc
      · exact ⟨m, m₁, v, hv, hs, hvisited _ Array.mem_push_self,
          fun d hd => hstarted d (hstarts d (Or.inr hd))⟩
      · exact hrest c hc

/-- **A round that succeeds has visited each branch of its frontier** with success, and holds what
the visit leaves. -/
theorem mem_round {frontier : Array Branch} {r : Round} {m m' : Meter}
    (h : s.round offer frontier m = (m', r)) (hr : r.stop = none) {b : Branch}
    (hb : b ∈ frontier) : ∃ m₁ m₂ v, s.visit offer b m₁ = (m₂, v) ∧ v.stop = none ∧
      v.branch ∈ r.visited ∧ ∀ c ∈ v.children, c ∈ r.started :=
  (mem_visitAll h hr).2.2 b (Array.mem_toList_iff.mpr hb)

theorem round_empty (offer : Offer) (m : Meter) : s.round offer #[] m = (m, {}) := rfl

theorem round_singleton {b b' : Branch} {children : List Branch} {m m' : Meter}
    (h : s.visit offer b m = (m', ⟨b', children, none⟩)) :
    s.round offer #[b] m = (m', ⟨#[b'], children.toArray, none⟩) := by
  simp [round, visitAll, h]

theorem visitAll_stop (hm : s.program.mode = .nfa) (ha : s.options.stopOnAccept = false) :
    ∀ {frontier : List Branch} {r : Round} {m : Meter},
      (∀ b ∈ frontier, b.terminated = false) →
      (∀ b ∈ frontier, b.isStuck = false →
        ∀ token ∈ offer.tokens s.program b.state, s.Free b.state token) →
      m.steps ≤ s.options.maxSteps → r.stop = none →
      (s.visitAll offer frontier r m).2.stop =
        if m.steps + s.roundCost offer frontier ≤ s.options.maxSteps then none
        else some (.stepLimit s.options.maxSteps)
  | [], r, m, _, _, hle, hr => by simp [visitAll, roundCost, hle, hr]
  | b :: rest, r, m, hl, hf, hle, _ => by
    have hv := visit_stop hm (halts_of_goes_on ha _) (hl b (by simp)) (hf b (by simp)) hle
    rw [visitAll, roundCost_cons]
    rcases h : s.visit offer b m with ⟨m₁, v⟩
    rw [h] at hv
    dsimp only at hv ⊢
    by_cases hc : m.steps + s.visitCost offer b ≤ s.options.maxSteps
    · rw [if_pos hc] at hv
      have h3 := (visit_ok hm (halts_of_goes_on ha _) (hl b (by simp)) h hv).2.2
      rw [hv]
      dsimp only
      rw [visitAll_stop hm ha (fun c hc => hl c (List.mem_cons_of_mem _ hc))
        (fun c hc => hf c (List.mem_cons_of_mem _ hc)) (by omega) rfl, h3, Nat.add_assoc]
    · rw [if_neg hc] at hv
      rw [hv]
      dsimp only
      rw [if_neg (by omega)]

/-- **A round that only the budget can stop** succeeds exactly if the budget covers its cost. -/
theorem round_stop (offer : Offer) {frontier : Array Branch} {m : Meter}
    (hm : s.program.mode = .nfa) (ha : s.options.stopOnAccept = false)
    (hl : ∀ b ∈ frontier.toList, b.terminated = false)
    (hf : ∀ b ∈ frontier.toList, b.isStuck = false →
      ∀ token ∈ offer.tokens s.program b.state, s.Free b.state token)
    (hle : m.steps ≤ s.options.maxSteps) : (s.round offer frontier m).2.stop =
      if m.steps + s.roundCost offer frontier.toList ≤ s.options.maxSteps then none
      else some (.stepLimit s.options.maxSteps) :=
  visitAll_stop hm ha hl hf hle rfl

end FiniteAutomata.Simulator
