import FiniteAutomata.Proofs.Simulator.Course
import FiniteAutomata.Proofs.Traces.Exploration
import FiniteAutomata.Proofs.Traces.Word

/-! # The branches of a run are traces

Whatever the mode and however a run ends, each of its branches has gone along a trace that the
moves on the input reach (`Follows`). A stop other than that of the budget explains itself by the
state of one of these branches and a token that was tried there. Both together are what a run
accounts for (`Accounted`); one induction on the courses of runs in rounds and one on walks show
that every run does (`run_accounted`). -/

namespace FiniteAutomata

/-- How a trace goes on in a run on an input, or on none. -/
def Program.movesOn (p : Program) : Option (List Token) → Trace → List (Token × Ref)
  | none => p.freeMoves
  | some word => p.movesAlong word

theorem Branch.place_spawn (b : Branch) (e : Event) :
    (b.spawn e).place = (e.destination, b.path ++ [e], b.position + 1) := by
  rw [place, path_spawn]
  rfl

theorem Branch.place_eq_iff {b c : Branch} :
    c.place = b.place ↔ c.state = b.state ∧ c.path = b.path ∧ c.position = b.position := by
  simp [place]

namespace Simulator

variable {s : Simulator} {input : Option (List Token)}

/-- The tokens that a run on an input, or on none, tries at a branch. -/
def tokensAt (s : Simulator) (input : Option (List Token)) (b : Branch) : List Token :=
  match input with
  | none => Offer.every.tokens s.program b.state
  | some word => word[b.position]?.toList

/-- A branch that has gone along a trace that the moves on an input, or on none, reach. -/
def Follows (s : Simulator) (input : Option (List Token)) (b : Branch) : Prop :=
  ∃ t, Trace.Reached s.program (s.program.movesOn input) t ∧ b.place = t.branch.place

/-- What a run on an input, or on none, accounts for: its branches follow traces, and what has
stopped it is the budget or explains itself at one of them. -/
structure Accounted (s : Simulator) (input : Option (List Token)) (run : Run) : Prop where
  branches : ∀ b ∈ run.branches, s.Follows input b
  stop : ∀ e, run.stop = some e → ∃ b ∈ run.branches, ∃ token ∈ s.tokensAt input b,
    e = .stepLimit s.options.maxSteps ∨ s.Explains b.state token e

/-! ### Branches that follow traces -/

theorem mem_movesOn {t : Trace} {move : Token × Ref} : move ∈ s.program.movesOn input t ↔
    t.state.isSentinel = false ∧ move.1 ∈ s.tokensAt input t.branch ∧
      move.2 ∈ s.targets t.state move.1 := by
  cases input with
  | some word =>
    rw [Program.movesOn, mem_movesAlong, tokensAt, Option.mem_toList]
    rfl
  | none =>
    rw [Program.movesOn, Program.freeMoves, movesFrom_eq]
    cases t.state.isSentinel with
    | true => simp
    | false =>
      simp only [Bool.false_eq_true, if_false, List.mem_flatMap, List.mem_map, true_and]
      constructor
      · rintro ⟨token, ht, d, hd, rfl⟩
        exact ⟨ht, hd⟩
      · rintro ⟨ht, hd⟩
        exact ⟨move.1, ht, move.2, hd, rfl⟩

theorem follows_start : s.Follows input (.start (.named s.program.start)) :=
  ⟨.root s.program, .root, rfl⟩

theorem Follows.of_place {b c : Branch} (h : s.Follows input b) (hp : c.place = b.place) :
    s.Follows input c := by
  obtain ⟨t, ht, hb⟩ := h
  exact ⟨t, ht, hp.trans hb⟩

theorem tokensAt_of_place {b c : Branch} (hp : c.place = b.place) :
    s.tokensAt input c = s.tokensAt input b := by
  obtain ⟨hstate, -, hposition⟩ := Branch.place_eq_iff.mp hp
  unfold tokensAt
  rw [hstate, hposition]

/-- A branch that is started on a token tried there follows a trace again. -/
theorem Follows.spawn {b c : Branch} {token : Token} (h : s.Follows input b)
    (hstuck : b.isStuck = false) (ht : token ∈ s.tokensAt input b) (hc : c ∈ s.spawns token b) :
    s.Follows input c := by
  obtain ⟨t, hreached, hplace⟩ := h
  obtain ⟨d, hd, rfl⟩ := List.mem_map.mp hc
  have htokens : s.tokensAt input b = s.tokensAt input t.branch := tokensAt_of_place hplace
  obtain ⟨hstate, hpath, hposition⟩ := Branch.place_eq_iff.mp hplace
  refine ⟨t.extend (token, d), hreached.extend (mem_movesOn.mpr ⟨?_, htokens ▸ ht, ?_⟩), ?_⟩
  · rw [Branch.isStuck, hstate] at hstuck
    exact hstuck
  · rw [hstate] at hd
    exact hd
  · rw [← Trace.spawn_branch, Branch.place_spawn, Branch.place_spawn, hpath, hposition, hstate]
    rfl

/-! ### What a round leaves -/

theorem spawns_of_place {b c : Branch} (hp : c.place = b.place) (token : Token) :
    s.spawns token c = s.spawns token b := by
  obtain ⟨hstate, hpath, hposition⟩ := Branch.place_eq_iff.mp hp
  have htrail : c.trail = b.trail := List.reverse_injective hpath
  simp only [spawns, Branch.spawn, hstate, htrail, hposition]

/-- Tokens are stopped by the budget, or by a stop that explains itself at one of them. -/
theorem stop_of_tryTokens (hm : s.program.mode = .nfa) (exploring : Bool) {e : Stop} :
    ∀ (tokens : List Token) (b : Branch) (m : Meter),
      (s.tryTokens exploring tokens b m).2.stop = some e → ∃ token ∈ tokens,
        e = .stepLimit s.options.maxSteps ∨ s.Explains b.state token e
  | [], b, m, h => by simp [tryTokens] at h
  | token :: rest, b, m, h => by
    have hstep : (s.step exploring token b m).2 = .error e →
        e = .stepLimit s.options.maxSteps ∨ s.Explains b.state token e := stop_of_step
    rw [tryTokens] at h
    rcases hs : s.step exploring token b m with ⟨m₁, e' | o⟩
    · rw [hs] at h hstep
      obtain rfl := Option.some.inj h
      exact ⟨token, List.mem_cons_self, hstep rfl⟩
    · have hstate := (Branch.place_eq_iff.mp (place_step hm hs)).1
      rw [hs] at h
      dsimp only at h
      split_ifs at h
      obtain ⟨token', ht, he⟩ := stop_of_tryTokens hm exploring rest o.branch m₁ h
      exact ⟨token', List.mem_cons_of_mem _ ht, hstate ▸ he⟩

/-- The branches that a step starts go on from its branch on its token. -/
theorem children_of_step {exploring : Bool} {token : Token} {b : Branch} {m m' : Meter}
    {o : Outcome} (hm : s.program.mode = .nfa) (h : s.step exploring token b m = (m', .ok o)) :
    ∀ c ∈ o.children, c ∈ s.spawns token b := by
  obtain ⟨-, -, m₁, -, hp⟩ := step_ok h
  unfold proceed at hp
  split at hp
  · cases hp
    simp [Outcome.children]
  · rw [hm] at hp
    split_ifs at hp
    · cases hp
      simp [Outcome.children]
    · cases hp
      exact fun c hc => hc

theorem children_of_tryTokens (hm : s.program.mode = .nfa) (exploring : Bool) :
    ∀ (tokens : List Token) (b : Branch) (m : Meter),
      ∀ c ∈ (s.tryTokens exploring tokens b m).2.children, ∃ token ∈ tokens, c ∈ s.spawns token b
  | [], b, m, c, hc => by simp [tryTokens] at hc
  | token :: rest, b, m, c, hc => by
    rw [tryTokens] at hc
    rcases hs : s.step exploring token b m with ⟨m₁, e | o⟩
    · simp [hs] at hc
    · have hplace := place_step hm hs
      have hstarted := children_of_step hm hs
      have hrest : c ∈ (s.tryTokens exploring rest o.branch m₁).2.children →
          ∃ token' ∈ token :: rest, c ∈ s.spawns token' b := fun hc => by
        obtain ⟨token', ht, hc⟩ := children_of_tryTokens hm exploring rest o.branch m₁ c hc
        exact ⟨token', List.mem_cons_of_mem _ ht, spawns_of_place hplace token' ▸ hc⟩
      rw [hs] at hc
      dsimp only at hc
      split_ifs at hc
      · exact ⟨token, List.mem_cons_self, hstarted c hc⟩
      · rcases List.mem_append.mp hc with hc | hc
        · exact ⟨token, List.mem_cons_self, hstarted c hc⟩
        · exact hrest hc

/-- What a visit leaves: what has stopped it explains itself at one of the tokens on offer, and the
branches started go on from its branch on these. -/
theorem of_visit (hm : s.program.mode = .nfa) (offer : Offer) (b : Branch) (m : Meter) :
    (∀ e, (s.visit offer b m).2.stop = some e → ∃ token ∈ offer.tokens s.program b.state,
        e = .stepLimit s.options.maxSteps ∨ s.Explains b.state token e) ∧
      ∀ c ∈ (s.visit offer b m).2.children, b.isStuck = false ∧
        ∃ token ∈ offer.tokens s.program b.state, c ∈ s.spawns token b := by
  unfold visit
  cases hb : b.isStuck with
  | true => simp
  | false =>
    exact ⟨fun e h => stop_of_tryTokens hm _ _ b m h,
      fun c hc => ⟨rfl, children_of_tryTokens hm _ _ b m c hc⟩⟩

/-- What a round under way leaves, the branches started before it aside. -/
theorem of_visitAll (hm : s.program.mode = .nfa) (offer : Offer) :
    ∀ (frontier : List Branch) (r : Round) (m : Meter), r.stop = none →
      (∀ e, (s.visitAll offer frontier r m).2.stop = some e →
        ∃ b ∈ frontier, ∃ token ∈ offer.tokens s.program b.state,
          e = .stepLimit s.options.maxSteps ∨ s.Explains b.state token e) ∧
        ∀ c ∈ (s.visitAll offer frontier r m).2.started, c ∈ r.started ∨
          ∃ b ∈ frontier, b.isStuck = false ∧
            ∃ token ∈ offer.tokens s.program b.state, c ∈ s.spawns token b
  | [], r, m, hr => by simp [visitAll, hr]
  | b :: rest, r, m, _ => by
    obtain ⟨hstop, hchildren⟩ := of_visit hm offer b m
    rw [visitAll]
    rcases hv : s.visit offer b m with ⟨m₁, v⟩
    rw [hv] at hstop hchildren
    have hstarted : ∀ c ∈ r.started ++ v.children, c ∈ r.started ∨
        ∃ b' ∈ b :: rest, b'.isStuck = false ∧
          ∃ token ∈ offer.tokens s.program b'.state, c ∈ s.spawns token b' := fun c hc => by
      rw [← Array.mem_toList_iff, Array.toList_appendList, List.mem_append,
        Array.mem_toList_iff] at hc
      exact hc.imp_right fun hc => ⟨b, List.mem_cons_self, hchildren c hc⟩
    dsimp only
    cases hs : v.stop with
    | some e =>
      refine ⟨fun e' he => ?_, hstarted⟩
      obtain rfl := Option.some.inj he
      exact ⟨b, List.mem_cons_self, hstop e hs⟩
    | none =>
      obtain ⟨hstop', hstarted'⟩ := of_visitAll hm offer rest
        ⟨r.visited.push v.branch, r.started ++ v.children, none⟩ m₁ rfl
      refine ⟨fun e he => ?_, fun c hc => ?_⟩
      · obtain ⟨b', hb', hexplained⟩ := hstop' e he
        exact ⟨b', List.mem_cons_of_mem _ hb', hexplained⟩
      · rcases hstarted' c hc with hc | ⟨b', hb', hspawned⟩
        · exact hstarted c hc
        · exact Or.inr ⟨b', List.mem_cons_of_mem _ hb', hspawned⟩

/-! ### Courses -/

/-- The round that comes after `k` others offers what is tried at branches that have consumed as
many tokens. -/
theorem nextRound?_drop {k : ℕ} {offer : Offer} {rest : Option (List Token)}
    (h : nextRound? (input.map (List.drop k)) = some (offer, rest)) :
    rest = input.map (List.drop (k + 1)) ∧
      ∀ b : Branch, b.position = k → offer.tokens s.program b.state = s.tokensAt input b := by
  cases input with
  | none =>
    cases h
    exact ⟨rfl, fun b _ => rfl⟩
  | some word =>
    cases hw : word.drop k with
    | nil =>
      rw [Option.map_some, hw] at h
      cases h
    | cons token tokens =>
      rw [Option.map_some, hw] at h
      cases h
      have htoken : word[k]? = some token := by
        rw [← Nat.add_zero k, ← List.getElem?_drop, hw]
        rfl
      refine ⟨?_, fun b hb => ?_⟩
      · rw [Option.map_some, ← List.drop_drop, hw]
        rfl
      · rw [tokensAt, hb, htoken]
        rfl

/-- Where the places of two lists of branches are the same, each branch has one at its place. -/
theorem exists_of_places {bs cs : Array Branch}
    (h : bs.toList.map Branch.place = cs.toList.map Branch.place) {b : Branch} (hb : b ∈ bs) :
    ∃ c ∈ cs, c.place = b.place := by
  have hmem : b.place ∈ cs.toList.map Branch.place :=
    h ▸ List.mem_map_of_mem (Array.mem_toList_iff.mpr hb)
  obtain ⟨c, hc, hplace⟩ := List.mem_map.mp hmem
  exact ⟨c, Array.mem_toList_iff.mp hc, hplace⟩

/-- The branches of a frontier that follow traces and have consumed `k` tokens. -/
def Frontier (s : Simulator) (input : Option (List Token)) (k : ℕ) (frontier : Array Branch) :
    Prop :=
  ∀ b ∈ frontier, s.Follows input b ∧ b.position = k

section Round

variable {left rest : Option (List Token)} {offer : Offer} {k : ℕ} {frontier : Array Branch}

/-- A round visits branches that follow traces, and starts others that follow them one event on. -/
theorem Frontier.round (hm : s.program.mode = .nfa) (hf : s.Frontier input k frontier)
    (hn : nextRound? (input.map (List.drop k)) = some (offer, rest)) (m : Meter) :
    (∀ b ∈ (s.round offer frontier m).2.visited, s.Follows input b) ∧
      s.Frontier input (k + 1) (s.round offer frontier m).2.started := by
  refine ⟨fun b hb => ?_, fun c hc => ?_⟩
  · obtain ⟨c, hc, hplace⟩ := exists_of_places (places_round hm offer frontier m) hb
    exact (hf c hc).1.of_place hplace.symm
  · rcases (of_visitAll hm offer frontier.toList {} m rfl).2 c hc with hc | hc
    · simp at hc
    · obtain ⟨b, hb, hstuck, token, ht, hspawned⟩ := hc
      obtain ⟨hfollows, hposition⟩ := hf b (Array.mem_toList_iff.mp hb)
      rw [(nextRound?_drop hn).2 b hposition] at ht
      refine ⟨hfollows.spawn hstuck ht hspawned, ?_⟩
      obtain ⟨d, -, rfl⟩ := List.mem_map.mp hspawned
      exact congrArg (· + 1) hposition

/-- What stops a round is the budget or explains itself at one of the branches visited. -/
theorem Frontier.stop (hm : s.program.mode = .nfa) (hf : s.Frontier input k frontier)
    (hn : nextRound? (input.map (List.drop k)) = some (offer, rest)) {m : Meter} {e : Stop}
    (he : (s.round offer frontier m).2.stop = some e) :
    ∃ b ∈ (s.round offer frontier m).2.visited, ∃ token ∈ s.tokensAt input b,
      e = .stepLimit s.options.maxSteps ∨ s.Explains b.state token e := by
  obtain ⟨b, hb, token, ht, hexplained⟩ :=
    (of_visitAll hm offer frontier.toList {} m rfl).1 e he
  rw [(nextRound?_drop hn).2 b (hf b (Array.mem_toList_iff.mp hb)).2] at ht
  obtain ⟨c, hc, hplace⟩ := exists_of_places (places_round hm offer frontier m).symm
    (Array.mem_toList_iff.mp hb)
  refine ⟨c, hc, token, tokensAt_of_place hplace ▸ ht, ?_⟩
  rwa [(Branch.place_eq_iff.mp hplace).1]

end Round

/-- **A course accounts for its run**, if `k` rounds before it have led along traces to its
frontier. -/
theorem Course.accounted {left : Option (List Token)} {before frontier : Array Branch} {m : Meter}
    {run : Run} (hm : s.program.mode = .nfa) (h : s.Course left before frontier m run) :
    ∀ {k : ℕ}, left = input.map (List.drop k) → (∀ b ∈ before, s.Follows input b) →
      s.Frontier input k frontier → s.Accounted input run := by
  induction h with
  | settled before frontier m =>
    intro k _ hbefore hfrontier
    refine ⟨fun b hb => ?_, by simp⟩
    rcases Array.mem_append.mp hb with hb | hb
    · exact hbefore b hb
    · obtain ⟨c, hc, hplace⟩ := exists_of_places (places_settleAll frontier) hb
      exact (hfrontier c hc).1.of_place hplace.symm
  | ended before m =>
    intro k _ hbefore _
    exact ⟨hbefore, by simp⟩
  | @stopped _ _ offer before frontier m _ r e hn hr hs =>
    intro k hleft hbefore hfrontier
    subst hleft
    have hround := hfrontier.round hm hn m
    have hstop := hfrontier.stop (m := m) (e := e) hm hn
    rw [hr] at hround hstop
    refine ⟨fun b hb => ?_, fun e' he => ?_⟩
    · rcases Array.mem_append.mp hb with hb | hb
      · rcases Array.mem_append.mp hb with hb | hb
        · exact hbefore b hb
        · exact hround.1 b hb
      · exact (hround.2 b hb).1
    · obtain rfl := Option.some.inj he
      obtain ⟨b, hb, hexplained⟩ := hstop hs
      exact ⟨b, Array.mem_append.mpr (Or.inl (Array.mem_append.mpr (Or.inr hb))), hexplained⟩
  | @next _ _ offer before frontier m _ r _ hn hr hs _ ih =>
    intro k hleft hbefore hfrontier
    subst hleft
    have hround := hfrontier.round hm hn m
    rw [hr] at hround
    refine ih (nextRound?_drop (s := s) hn).1 (fun b hb => ?_) hround.2
    rcases Array.mem_append.mp hb with hb | hb
    · exact hbefore b hb
    · exact hround.1 b hb

/-! ### Walks -/

/-- **A walk accounts for its branch**, if this has followed a trace so far: where it ends the
branch follows one too, and a stop is that of the budget or explains itself there. -/
theorem walk_accounted {word : List Token} (hm : s.program.mode = .dfa) :
    ∀ (rest : List Token) (b : Branch) (m : Meter), rest = word.drop b.position →
      b.isLive = true → s.Follows (some word) b →
      s.Follows (some word) (s.walk rest b m).2.1 ∧
        ∀ e, (s.walk rest b m).2.2 = some e →
          ∃ token ∈ s.tokensAt (some word) (s.walk rest b m).2.1,
            e = .stepLimit s.options.maxSteps ∨ s.Explains (s.walk rest b m).2.1.state token e
  | [], b, m, _, _, hb => ⟨hb, by simp [walk]⟩
  | token :: rest, b, m, hrest, hlive, hb => by
    have hstop : ∀ e, (s.step false token b m).2 = .error e →
        e = .stepLimit s.options.maxSteps ∨ s.Explains b.state token e := fun _ => stop_of_step
    have htoken : token ∈ s.tokensAt (some word) b := by
      rw [tokensAt, ← Nat.add_zero b.position, ← List.getElem?_drop, ← hrest]
      simp
    rw [walk_cons_of_live hlive]
    rcases hs : s.step false token b m with ⟨m₁, e | o⟩
    · rw [hs] at hstop
      refine ⟨hb, fun e' he => ⟨token, htoken, ?_⟩⟩
      obtain rfl := Option.some.inj he
      exact hstop e rfl
    · dsimp only
      rcases step_moves hm hs with ⟨-, rfl⟩ | ⟨-, rfl⟩ | ⟨hstuck, -, d, hd, rfl⟩
      · rw [Outcome.branch, walk_of_not_live b.isLive_terminate]
        exact ⟨hb.of_place rfl, by simp⟩
      · rw [Outcome.branch, walk_of_not_live (b.isLive_conclude true)]
        exact ⟨hb.of_place rfl, by simp⟩
      · rw [Outcome.branch, Branch.advance_of_live hlive]
        refine walk_accounted hm rest _ m₁ ?_ (b.isLive_spawn _)
          (hb.spawn hstuck htoken (List.mem_map.mpr ⟨d, hd, rfl⟩))
        change rest = word.drop (b.position + 1)
        rw [← List.drop_drop, ← hrest]
        rfl

/-! ### Runs -/

/-- **Every run accounts for its branches and its stop**, if it is not a deterministic one without
an input, which does not start. -/
theorem run_accounted (s : Simulator) (input : Option (List Token)) :
    (s.program.mode = .dfa ∧ input = none ∧ s.run input = ⟨#[], {}, some .missingInput⟩) ∨
      s.Accounted input (s.run input) := by
  cases hm : s.program.mode with
  | nfa =>
    have hcourse := course_run hm input
    have hinput : input = input.map (List.drop 0) := by cases input <;> rfl
    refine Or.inr (hcourse.accounted hm hinput
      (fun b hb => absurd hb (Array.not_mem_empty b)) fun b hb => ?_)
    obtain rfl := Array.mem_singleton.mp hb
    exact ⟨follows_start, rfl⟩
  | dfa =>
    cases input with
    | none => exact Or.inl ⟨rfl, rfl, run_none_of_dfa hm⟩
    | some word =>
      have hwalk := walk_accounted (s := s) hm word (.start (.named s.program.start)) {} rfl rfl
        follows_start
      rcases hw : s.walk word (.start (.named s.program.start)) {} with ⟨m, b, stop⟩
      rw [hw] at hwalk
      rw [run_of_walk hm hw]
      refine Or.inr ⟨fun c hc => ?_, fun e he => ?_⟩
      · obtain rfl := Array.mem_singleton.mp hc
        split_ifs
        · exact hwalk.1.of_place (place_settle b)
        · exact hwalk.1
      · dsimp only at he
        subst he
        exact ⟨b, Array.mem_singleton.mpr rfl, hwalk.2 e rfl⟩

end Simulator

end FiniteAutomata
