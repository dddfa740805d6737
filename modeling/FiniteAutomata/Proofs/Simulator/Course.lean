import FiniteAutomata.Proofs.Simulator.Rounds
import FiniteAutomata.Proofs.Simulator.Walks

/-! # Courses

A run in rounds as a relation: `Course` leads from a frontier, with what is left of the input, to
the run that the rounds end in. It says the same for rounds along a word and for rounds without an
input, and knows no fuel: a run has a course (`course_run`), and from where it starts there is only
one (`Course.unique`). So what holds of all runs in rounds is proved by one induction with a case
for each way to end and one for each way to go on.

Rounds put marks on branches and start new ones, but never move a branch: the places of the branches
of a course start with those there were (`Course.places`). -/

namespace FiniteAutomata

/-- Where a branch stands: its state, how it went there, and how much it has consumed. -/
def Branch.place (b : Branch) : Ref × List Event × Nat := (b.state, b.path, b.position)

/-- Where the branches of a run stand, in the order in which they were started. -/
def Run.places (r : Run) : List (Ref × List Event × Nat) := r.branches.toList.map Branch.place

namespace Simulator

variable {s : Simulator} {input : Option (List Token)} {before frontier : Array Branch} {m : Meter}
  {run : Run}

/-- What the next round offers, and what is left of the input after it; no round follows once an
input is consumed. -/
def nextRound? : Option (List Token) → Option (Offer × Option (List Token))
  | none => some (.every, none)
  | some [] => none
  | some (token :: rest) => some (.next token, some rest)

/-- The rounds from a frontier on, after branches of earlier rounds, with what is left of the input:
the run they end in. -/
inductive Course (s : Simulator) :
    Option (List Token) → Array Branch → Array Branch → Meter → Run → Prop
  | settled (before frontier : Array Branch) (m : Meter) :
      Course s (some []) before frontier m ⟨before ++ s.settleAll frontier, m, none⟩
  | ended (before : Array Branch) (m : Meter) : Course s none before #[] m ⟨before, m, none⟩
  | stopped {input rest : Option (List Token)} {offer : Offer} {before frontier : Array Branch}
      {m m' : Meter} {r : Round} {e : Stop} (hn : nextRound? input = some (offer, rest))
      (hr : s.round offer frontier m = (m', r)) (hs : r.stop = some e) :
      Course s input before frontier m ⟨before ++ r.visited ++ r.started, m', some e⟩
  | next {input rest : Option (List Token)} {offer : Offer} {before frontier : Array Branch}
      {m m' : Meter} {r : Round} {run : Run} (hn : nextRound? input = some (offer, rest))
      (hr : s.round offer frontier m = (m', r)) (hs : r.stop = none)
      (h : Course s rest (before ++ r.visited) r.started m' run) :
      Course s input before frontier m run

/-! ### A run has a course -/

theorem course_consume : ∀ (tokens : List Token) (before frontier : Array Branch) (m : Meter),
    s.Course (some tokens) before frontier m (s.consume before tokens frontier m)
  | [], before, frontier, m => .settled before frontier m
  | token :: rest, before, frontier, m => by
    rw [consume]
    rcases hr : s.round (.next token) frontier m with ⟨m', visited, started, _ | e⟩
    · exact .next rfl hr rfl (course_consume rest _ _ _)
    · exact .stopped rfl hr rfl

/-- A visit that starts branches has taken a step. -/
theorem tryTokens_started (exploring : Bool) (tokens : List Token) (b : Branch) (m : Meter) :
    (s.tryTokens exploring tokens b m).2.children = [] ∨
      m.steps < (s.tryTokens exploring tokens b m).1.steps := by
  cases tokens with
  | nil => exact Or.inl rfl
  | cons token rest =>
    rw [tryTokens]
    rcases hs : s.step exploring token b m with ⟨m₁, e | o⟩
    · exact Or.inl rfl
    · have hsteps := steps_of_step_ok hs
      have hrest := (leads_tryTokens (s := s) exploring rest o.branch m₁).grows.steps
      dsimp only
      split_ifs
      · exact Or.inr (by dsimp only; omega)
      · exact Or.inr (by dsimp only; omega)

theorem visitAll_started (offer : Offer) : ∀ (frontier : List Branch) (r : Round) (m : Meter),
    (s.visitAll offer frontier r m).2.started = r.started ∨
      m.steps < (s.visitAll offer frontier r m).1.steps
  | [], _, _ => Or.inl rfl
  | b :: rest, r, m => by
    have hvisit : (s.visit offer b m).2.children = [] ∨ m.steps < (s.visit offer b m).1.steps := by
      unfold visit
      split_ifs
      · exact Or.inl rfl
      · exact tryTokens_started _ _ _ _
    rw [visitAll]
    rcases hv : s.visit offer b m with ⟨m₁, v⟩
    rw [hv] at hvisit
    dsimp only at hvisit ⊢
    cases v.stop with
    | some e => exact hvisit.imp_left fun hnil => by simp [hnil]
    | none =>
      have hgrows := (leads_visitAll (s := s) offer rest
        ⟨r.visited.push v.branch, r.started ++ v.children, none⟩ m₁).grows.steps
      rcases hvisit with hnil | hlt
      · have hrest := visitAll_started offer rest
          ⟨r.visited.push v.branch, r.started ++ v.children, none⟩ m₁
        have hm := (leads_visit (s := s) offer b m).grows.steps
        rw [hv] at hm
        rcases hrest with heq | hlt
        · exact Or.inl (heq.trans (by simp [hnil]))
        · exact Or.inr (Nat.lt_of_le_of_lt hm hlt)
      · exact Or.inr (Nat.lt_of_lt_of_le hlt hgrows)

/-- The rounds of an exploration whose fuel covers the budget: each but the last takes a step, so
the fuel is never used up. -/
theorem course_explore : ∀ (fuel : Nat) (before frontier : Array Branch) (m : Meter),
    m.steps ≤ s.options.maxSteps →
    frontier = #[] ∨ s.options.maxSteps - m.steps < fuel →
    s.Course none before frontier m (s.explore before fuel frontier m)
  | 0, before, frontier, m, _, hfuel => by
    obtain rfl := hfuel.resolve_right (Nat.not_lt_zero _)
    rw [explore, Array.append_empty]
    exact .ended before m
  | fuel + 1, before, frontier, m, hle, hfuel => by
    have hstarted := visitAll_started (s := s) .every frontier.toList {} m
    have hwithin := (leads_round (s := s) .every frontier m).within hle
    rw [explore]
    rcases hr : s.round .every frontier m with ⟨m', visited, started, _ | e⟩
    · rw [hr] at hwithin
      rw [show s.visitAll .every frontier.toList {} m = _ from hr] at hstarted
      dsimp only at hstarted hwithin ⊢
      refine .next rfl hr rfl ?_
      cases he : started.isEmpty with
      | true =>
        rw [if_pos rfl, Array.isEmpty_iff.1 he]
        exact .ended _ _
      | false =>
        rw [if_neg (by simp)]
        refine course_explore fuel _ _ _ hwithin (Or.inr ?_)
        have hlt : m.steps < m'.steps := by
          refine hstarted.resolve_left fun hnil => ?_
          rw [hnil] at he
          simp at he
        have hfuel : s.options.maxSteps - m.steps < fuel + 1 := by
          refine hfuel.resolve_left ?_
          -- an empty frontier starts no branch
          rintro rfl
          rw [round, visitAll, Prod.mk.injEq, Round.mk.injEq] at hr
          rw [← hr.2.2.1] at he
          simp at he
        omega
    · exact .stopped rfl hr rfl

/-- Rounds have a course. -/
theorem course_runNondeterministic (input : Option (List Token)) {m : Meter}
    (hle : m.steps ≤ s.options.maxSteps) :
    s.Course input #[] #[.start (.named s.program.start)] m (s.runNondeterministic input m) := by
  cases input with
  | none => exact course_explore _ _ _ _ hle (Or.inr (Nat.lt_succ_self _))
  | some tokens => exact course_consume _ _ _ _

/-- **A run in nondeterministic mode has a course.** -/
theorem course_run (hm : s.program.mode = .nfa) (input : Option (List Token)) :
    s.Course input #[] #[.start (.named s.program.start)] {} (s.run input) := by
  rw [run, runFrom, hm]
  exact course_runNondeterministic input (Nat.zero_le _)

theorem consume_empty (before : Array Branch) : ∀ (tokens : List Token) (m : Meter),
    s.consume before tokens #[] m = ⟨before, m, none⟩
  | [], m => by simp [consume, settleAll]
  | token :: rest, m => by
    rw [consume, round_empty]
    simpa using consume_empty before rest m

/-! ### There is only one course -/

/-- The course of an empty frontier without an input. -/
theorem Course.eq_of_empty (h : s.Course none before #[] m run) : run = ⟨before, m, none⟩ := by
  generalize hi : (none : Option (List Token)) = input at h
  generalize hf : (#[] : Array Branch) = frontier at h
  induction h with
  | settled => cases hi
  | ended => rfl
  | stopped _ hr hs =>
    subst hf
    rw [round_empty, Prod.mk.injEq] at hr
    rw [← hr.2] at hs
    cases hs
  | next hn hr _ _ ih =>
    subst hi hf
    rw [round_empty, Prod.mk.injEq] at hr
    rw [nextRound?, Option.some.injEq, Prod.mk.injEq] at hn
    rw [ih hn.2 (by rw [← hr.2]), ← hr.1, ← hr.2, Array.append_empty]

section Round

variable {rest : Option (List Token)} {offer : Offer} {m' : Meter} {r : Round}

/-- **A course is led by its next round**: it ends with a round that stops, and goes on after one
that succeeds. -/
theorem Course.inv (h : s.Course input before frontier m run)
    (hn : nextRound? input = some (offer, rest)) (hr : s.round offer frontier m = (m', r)) :
    (∃ e, r.stop = some e ∧ run = ⟨before ++ r.visited ++ r.started, m', some e⟩) ∨
      (r.stop = none ∧ s.Course rest (before ++ r.visited) r.started m' run) := by
  cases h with
  | settled => cases hn
  | ended =>
    rw [round_empty, Prod.mk.injEq] at hr
    rw [nextRound?, Option.some.injEq, Prod.mk.injEq] at hn
    rw [← hr.1, ← hr.2, ← hn.2, Array.append_empty]
    exact Or.inr ⟨rfl, .ended _ _⟩
  | stopped hn' hr' hs' =>
    rw [hn] at hn'
    cases hn'
    rw [hr] at hr'
    cases hr'
    exact Or.inl ⟨_, hs', rfl⟩
  | next hn' hr' hs' h' =>
    rw [hn] at hn'
    cases hn'
    rw [hr] at hr'
    cases hr'
    exact Or.inr ⟨hs', h'⟩

/-- A course through a round that a stop ends. -/
theorem Course.eq_of_stopped {e : Stop} (h : s.Course input before frontier m run)
    (hn : nextRound? input = some (offer, rest)) (hr : s.round offer frontier m = (m', r))
    (hs : r.stop = some e) : run = ⟨before ++ r.visited ++ r.started, m', some e⟩ := by
  rcases h.inv hn hr with ⟨e', hs', hrun⟩ | ⟨hs', -⟩ <;> rw [hs] at hs' <;> cases hs'
  exact hrun

/-- A course through a round that succeeds goes on after it. -/
theorem Course.after (h : s.Course input before frontier m run)
    (hn : nextRound? input = some (offer, rest)) (hr : s.round offer frontier m = (m', r))
    (hs : r.stop = none) : s.Course rest (before ++ r.visited) r.started m' run := by
  rcases h.inv hn hr with ⟨e', hs', -⟩ | ⟨-, hafter⟩
  · rw [hs] at hs'
    cases hs'
  · exact hafter

end Round

/-- **There is only one course.** -/
theorem Course.unique {run' : Run} (h : s.Course input before frontier m run)
    (h' : s.Course input before frontier m run') : run = run' := by
  induction h with
  | settled =>
    cases h' with
    | settled => rfl
    | stopped hn => cases hn
    | next hn => cases hn
  | ended => exact h'.eq_of_empty.symm
  | stopped hn hr hs => exact (h'.eq_of_stopped hn hr hs).symm
  | next hn hr hs _ ih => exact ih (h'.after hn hr hs)

/-! ### What a course keeps -/

theorem Course.leads (h : s.Course input before frontier m run) : s.Leads m run.meter := by
  induction h with
  | settled => exact .refl
  | ended => exact .refl
  | @stopped _ _ offer _ frontier m _ _ _ _ hr _ =>
    have hround := leads_round (s := s) offer frontier m
    rw [hr] at hround
    exact hround
  | @next _ _ offer _ frontier m _ _ _ _ hr _ _ ih =>
    have hround := leads_round (s := s) offer frontier m
    rw [hr] at hround
    exact hround.trans ih

/-- **What a run does, it does by steps.** -/
theorem leads_run (input : Option (List Token)) : s.Leads {} (s.run input).meter := by
  cases hm : s.program.mode with
  | nfa => exact (course_run hm input).leads
  | dfa =>
    cases input with
    | none =>
      rw [run_none_of_dfa hm]
      exact .refl
    | some word =>
      have hwalk := leads_walk (s := s) word (.start (.named s.program.start)) {}
      rcases h : s.walk word (.start (.named s.program.start)) {} with ⟨m, b, stop⟩
      rw [h] at hwalk
      rw [run_of_walk hm h]
      exact hwalk

/-! ### Where branches stand -/

@[simp] theorem place_marked (exploring : Bool) (b : Branch) :
    (s.marked exploring b).place = b.place := by
  simp [Branch.place, Branch.path]

theorem place_step {exploring : Bool} {token : Token} {b : Branch} {m m' : Meter} {o : Outcome}
    (hm : s.program.mode = .nfa) (h : s.step exploring token b m = (m', .ok o)) :
    o.branch.place = b.place := by
  obtain ⟨-, -, m₁, -, hp⟩ := step_ok h
  unfold proceed at hp
  split at hp
  · cases hp
    rfl
  · rw [hm] at hp
    split_ifs at hp
    · cases hp
      rfl
    · cases hp
      exact place_marked exploring b

theorem place_tryTokens (hm : s.program.mode = .nfa) (exploring : Bool) :
    ∀ (tokens : List Token) (b : Branch) (m : Meter),
      (s.tryTokens exploring tokens b m).2.branch.place = b.place
  | [], _, _ => rfl
  | token :: rest, b, m => by
    rw [tryTokens]
    rcases hs : s.step exploring token b m with ⟨m₁, e | o⟩
    · rfl
    · have hplace := place_step hm hs
      dsimp only
      split_ifs
      · exact hplace
      · exact (place_tryTokens hm exploring rest o.branch m₁).trans hplace

theorem place_visit (hm : s.program.mode = .nfa) (offer : Offer) (b : Branch) (m : Meter) :
    (s.visit offer b m).2.branch.place = b.place := by
  unfold visit
  split_ifs
  · rfl
  · exact place_tryTokens hm _ _ _ _

/-- A round keeps the branches that were started before it. -/
theorem started_visitAll (offer : Offer) : ∀ (frontier : List Branch) (r : Round) (m : Meter),
    r.started.toList <+: (s.visitAll offer frontier r m).2.started.toList
  | [], _, _ => List.prefix_rfl
  | b :: rest, r, m => by
    rw [visitAll]
    rcases s.visit offer b m with ⟨m₁, v⟩
    dsimp only
    cases v.stop with
    | some e => simp
    | none =>
      have hrest := started_visitAll offer rest
        ⟨r.visited.push v.branch, r.started ++ v.children, none⟩ m₁
      exact List.IsPrefix.trans (by simp) hrest

/-- A round keeps the branches that its first visit has started. -/
theorem started_visitAll_cons (offer : Offer) (b : Branch) (rest : List Branch) (r : Round)
    (m : Meter) : r.started.toList ++ (s.visit offer b m).2.children <+:
      (s.visitAll offer (b :: rest) r m).2.started.toList := by
  rw [visitAll]
  rcases s.visit offer b m with ⟨m₁, v⟩
  dsimp only
  cases v.stop with
  | some e => simp
  | none =>
    have hrest := started_visitAll (s := s) offer rest
      ⟨r.visited.push v.branch, r.started ++ v.children, none⟩ m₁
    simpa using hrest

/-- A round keeps the places of the branches that it visits. -/
theorem places_visitAll (hm : s.program.mode = .nfa) (offer : Offer) :
    ∀ (frontier : List Branch) (r : Round) (m : Meter),
      (s.visitAll offer frontier r m).2.visited.toList.map Branch.place =
        r.visited.toList.map Branch.place ++ frontier.map Branch.place
  | [], r, m => by simp [visitAll]
  | b :: rest, r, m => by
    have hplace := place_visit hm offer b m
    rw [visitAll]
    rcases hv : s.visit offer b m with ⟨m₁, v⟩
    rw [hv] at hplace
    dsimp only at hplace ⊢
    cases v.stop with
    | some e => simp [hplace]
    | none => simp [places_visitAll hm offer rest, hplace]

theorem places_round (hm : s.program.mode = .nfa) (offer : Offer) (frontier : Array Branch)
    (m : Meter) : (s.round offer frontier m).2.visited.toList.map Branch.place =
      frontier.toList.map Branch.place := by
  rw [round, places_visitAll hm offer frontier.toList {} m]
  rfl

/-- A branch ended: it is accepted if it stands at an accept state. -/
def close (s : Simulator) (b : Branch) : Branch := b.conclude (s.program.accepts b.state)

theorem close_of_stuck {b : Branch} (hlive : b.isLive = true) (hb : b.isStuck = true) :
    s.close b = b.terminate := by
  obtain ⟨state, trail, position, accepted, terminated⟩ := b
  cases state with
  | named state => cases hb
  | sentinel x =>
    cases accepted with
    | false => rfl
    | true => cases hlive

theorem settle_of_terminated {b : Branch} (hb : b.terminated = true) : s.settle b = b := by
  rw [settle, if_pos hb]

theorem settle_of_live {b : Branch} (hlive : b.isLive = true) : s.settle b = s.close b := by
  rw [settle, (Branch.isLive_iff.mp hlive).2, if_neg (by simp), close]

/-- The branches of a last frontier are closed. -/
theorem settleAll_of_live (hlive : ∀ b ∈ frontier.toList, b.isLive = true) :
    (s.settleAll frontier).toList = frontier.toList.map s.close := by
  rw [settleAll, Array.toList_map]
  refine List.map_congr_left fun b hb => ?_
  split_ifs with hstuck
  · exact (close_of_stuck (hlive b hb) hstuck).symm
  · exact settle_of_live (hlive b hb)

theorem place_settle (b : Branch) : (s.settle b).place = b.place := by
  unfold settle
  split_ifs <;> rfl

theorem path_settle (b : Branch) : (s.settle b).path = b.path := by
  unfold settle
  split_ifs <;> rfl

theorem places_settleAll (frontier : Array Branch) :
    (s.settleAll frontier).toList.map Branch.place = frontier.toList.map Branch.place := by
  rw [settleAll, Array.toList_map, List.map_map]
  refine List.map_congr_left fun b _ => ?_
  rw [Function.comp_apply]
  split_ifs
  · rfl
  · exact place_settle b

/-- **Branches stay where they are**: the places of a course start with those of the branches there
were. -/
theorem Course.places (hm : s.program.mode = .nfa) (h : s.Course input before frontier m run) :
    (before ++ frontier).toList.map Branch.place <+: run.places := by
  induction h with
  | settled before frontier m => simp [Run.places, places_settleAll]
  | ended => simp [Run.places]
  | @stopped _ _ offer before frontier m _ r _ _ hr _ =>
    have hplaces := places_round hm offer frontier m
    rw [hr] at hplaces
    simp [Run.places, hplaces]
  | @next _ _ offer before frontier m _ r _ _ hr _ _ ih =>
    have hplaces := places_round hm offer frontier m
    rw [hr] at hplaces
    refine List.IsPrefix.trans ?_ ih
    simp [hplaces]

/-- What a round has done stays: the meter goes on from there, and its branches stand first. -/
theorem Course.after_round (hm : s.program.mode = .nfa) (h : s.Course input before frontier m run)
    {rest : Option (List Token)} {offer : Offer} (hn : nextRound? input = some (offer, rest)) :
    s.Leads (s.round offer frontier m).1 run.meter ∧
      (before ++ (s.round offer frontier m).2.visited ++
        (s.round offer frontier m).2.started).toList.map Branch.place <+: run.places := by
  rcases h.inv hn rfl with ⟨e, -, rfl⟩ | ⟨-, hafter⟩
  · exact ⟨.refl, List.prefix_rfl⟩
  · exact ⟨hafter.leads, hafter.places hm⟩

end Simulator

end FiniteAutomata
