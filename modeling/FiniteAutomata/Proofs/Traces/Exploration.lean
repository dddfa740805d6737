import FiniteAutomata.Proofs.Producers.Basic
import FiniteAutomata.Proofs.Traces.Basic
import Mathlib

/-! # Exploration without an input

Without an input a trace goes on by every transition of its state, or by `null` to `null` where the
state has none; at a sentinel it ends (`Program.freeMoves`). These moves span the path tree of a
program. Trying the tokens of a state takes as many steps as there are tokens, and at least one; the
sum over the whole tree is the cost of exploration, which may be infinite.

* `explore_levels`: as long as the budget covers the levels, the rounds of an exploration go through
  the path tree level by level.
* `exploration_exhaustive`: an exploration ends normally exactly if the cost of the whole tree is
  within the budget; its branches are then the traces of the tree in level order, and otherwise it
  stops at the limit of steps. -/

namespace FiniteAutomata

open Finset (range)

namespace Program

/-- The transitions from a state, in order of declaration; `null` stands in where there is none. -/
def movesFrom (p : Program) (state : Ref) : List (Token × Ref) :=
  match (p.table state).entries with
  | [] => [(.null, .null)]
  | entries => entries.flatMap fun e => e.2.keys.map fun destination => (e.1, destination)

/-- How a trace goes on without an input: by every transition, and not at all from a sentinel. -/
def freeMoves (p : Program) (t : Trace) : List (Token × Ref) :=
  if t.state.isSentinel then [] else p.movesFrom t.state

/-- How many steps it takes to try every token at the end of a trace. -/
def freeCost (p : Program) (t : Trace) : ℕ :=
  if t.state.isSentinel then 0 else max 1 (p.table t.state).size

/-- How many steps it takes to try every token at the end of every trace of a level. -/
def levelCost (p : Program) (k : ℕ) : ℕ := ((Trace.level p p.freeMoves k).map p.freeCost).sum

/-- The steps that exploring the whole path tree takes, possibly infinitely many. -/
noncomputable def explorationCost (p : Program) : ℕ∞ :=
  ⨆ depth, ((∑ k ∈ range depth, p.levelCost k : ℕ) : ℕ∞)

/-- Every command of a program writes a line or waits. -/
def OnlyLogsAndPauses (p : Program) : Prop :=
  ∀ e ∈ p.commands.entries, ∀ c ∈ e.2, c.name = "log" ∨ c.name = "pause"

theorem OnlyLogsAndPauses.of_mem_commandsAt {p : Program} (hp : p.OnlyLogsAndPauses) {state : Ref}
    {c : Command} (hc : c ∈ p.commandsAt state) : c.name = "log" ∨ c.name = "pause" := by
  cases state with
  | sentinel x => cases hc
  | named state =>
    cases hf : p.commands.find? state with
    | none =>
      rw [commandsAt, hf] at hc
      cases hc
    | some cs =>
      rw [commandsAt, hf] at hc
      exact hp _ (Dict.find?_eq_some_iff.mp hf) c hc

theorem explorationCost_le_iff {p : Program} {n : ℕ} :
    p.explorationCost ≤ n ↔ ∀ depth, ∑ k ∈ range depth, p.levelCost k ≤ n := by
  rw [explorationCost, iSup_le_iff]
  exact forall_congr' fun depth => Nat.cast_le

/-! ### The moves without an input -/

theorem nodup_movesFrom (p : Program) (state : Ref) : (p.movesFrom state).Nodup := by
  unfold movesFrom
  split
  · simp
  · have hk : (p.table state).entries.Pairwise (fun e e' => e.1 ≠ e'.1) :=
      List.pairwise_map.mp (p.table state).nodup
    refine List.nodup_flatMap.mpr ⟨fun e _ => ?_, ?_⟩
    · exact List.Nodup.map (fun _ _ h => (Prod.mk.injEq ..▸ h).2) e.2.nodup
    · refine hk.imp fun {e e'} hne => ?_
      rw [Function.onFun, List.disjoint_iff_ne]
      intro a ha b hb hab
      obtain ⟨d, -, rfl⟩ := List.mem_map.mp ha
      obtain ⟨d', -, rfl⟩ := List.mem_map.mp hb
      exact hne (Prod.mk.inj hab).1

theorem nodup_freeMoves (p : Program) (t : Trace) : (p.freeMoves t).Nodup := by
  unfold freeMoves
  split_ifs
  · simp
  · exact p.nodup_movesFrom t.state

theorem length_tokens_every (p : Program) (state : Ref) :
    (Simulator.Offer.every.tokens p state).length = max 1 (p.table state).size := by
  unfold Simulator.Offer.tokens
  have hl : (p.table state).keys.length = (p.table state).size := by
    simp [Dict.keys, Entries.keys, Dict.size]
  cases hk : (p.table state).keys with
  | nil => rw [hk] at hl; simp [← hl]
  | cons k ks => rw [hk] at hl; simp [← hl]

end Program

namespace Simulator

variable {s : Simulator}

theorem movesFrom_eq (state : Ref) : s.program.movesFrom state =
    (Offer.every.tokens s.program state).flatMap fun token =>
      (s.targets state token).map fun destination => (token, destination) := by
  by_cases he : (s.program.table state).entries = []
  · simp [Program.movesFrom, Offer.tokens, targets, destinations?, Dict.find?, Entries.find?,
      Dict.keys, Entries.keys, he]
  · have ht : Offer.every.tokens s.program state =
        (s.program.table state).entries.map Prod.fst := by
      unfold Offer.tokens Dict.keys Entries.keys
      cases hk : (s.program.table state).entries with
      | nil => exact absurd hk he
      | cons e es => rfl
    rw [ht, List.flatMap_map, Program.movesFrom]
    split
    · contradiction
    · refine List.flatMap_congr fun e he' => ?_
      simp [targets, destinations?, Dict.find?_eq_some_iff.2 he']

theorem offspring_every (t : Trace) : s.offspring .every t.branch =
    (t.children s.program.freeMoves).map Trace.branch := by
  refine offspring_branch ?_
  rw [Program.freeMoves, movesFrom_eq]

theorem visitCost_every (t : Trace) : s.visitCost .every t.branch = s.program.freeCost t := by
  simp [visitCost, Program.freeCost, Program.length_tokens_every]

theorem visited_every (t : Trace) :
    s.visited .every t.branch = t.ended (s.program.accepts t.state) := by
  cases ha : s.program.accepts t.state <;>
    simp [visited, marked, Offer.explores, ha, Trace.ended, Trace.branch, Branch.terminate,
      Branch.conclude]

/-- The names that are tried without an input are in the alphabet of a program that was produced. -/
theorem mem_alphabet_of_every {d : Draft} (hd : d.Resolves s.program) {state : Ref} {name : String}
    (ht : .named name ∈ Offer.every.tokens s.program state) : name ∈ s.program.alphabet := by
  cases state with
  | sentinel x => simp [Offer.tokens, Program.table] at ht
  | named state =>
    cases ht' : s.program.states.find? state with
    | none => simp [Offer.tokens, Program.table, ht'] at ht
    | some table =>
      refine hd.mem_alphabet (Dict.find?_eq_some_iff.1 ht') ?_
      simp only [Offer.tokens, Program.table, ht', Option.getD_some] at ht
      split at ht
      · simp at ht
      · exact ht

/-- Nothing but the budget stops the tokens of a program that was produced. -/
theorem free_of_resolves {d : Draft} (hd : d.Resolves s.program)
    (hc : s.program.OnlyLogsAndPauses) (hp : s.prompts = none) (state : Ref) {token : Token}
    (ht : token ∈ Offer.every.tokens s.program state) : s.Free state token := by
  refine ⟨tokenFault?_eq_none_iff.2 (Or.inr ?_), executeAll_goes_on hp ?_⟩
  · rintro name rfl
    exact mem_alphabet_of_every hd ht
  · exact fun c => hc.of_mem_commandsAt

/-! ### The rounds -/

theorem roundCost_level (k : ℕ) :
    s.roundCost .every ((Trace.level s.program s.program.freeMoves k).map Trace.branch) =
      s.program.levelCost k := by
  simp only [roundCost, Program.levelCost, List.map_map]
  exact congrArg List.sum (List.map_congr_left fun t _ => visitCost_every t)

/-- A level that costs nothing is followed by an empty one. -/
theorem level_succ_eq_nil {p : Program} {k : ℕ} (h : p.levelCost k = 0) :
    Trace.level p p.freeMoves (k + 1) = [] := by
  rw [Trace.level, List.flatMap_eq_nil_iff]
  intro t ht
  have h0 : p.freeCost t = 0 :=
    List.sum_eq_zero_iff.1 h _ (List.mem_map.mpr ⟨t, ht, rfl⟩)
  have hs : t.state.isSentinel = true := by
    by_contra hn
    rw [Program.freeCost, if_neg hn] at h0
    omega
  simp [Trace.children, Program.freeMoves, hs]

/-- Beyond an empty level nothing costs a step. -/
theorem explorationCost_le_of_level_eq_nil {p : Program} {depth n : ℕ}
    (hnil : Trace.level p p.freeMoves depth = [])
    (hsum : ∑ k ∈ range depth, p.levelCost k ≤ n) : p.explorationCost ≤ n := by
  rw [Program.explorationCost_le_iff]
  intro depth'
  rcases Nat.le_total depth' depth with h | h
  · exact (Finset.sum_le_sum_of_subset (Finset.range_subset_range.mpr h)).trans hsum
  · have hzero : ∀ k ∈ Finset.Ico depth depth', p.levelCost k = 0 := by
      intro k hk
      rw [Program.levelCost, Trace.level_eq_nil_of_le hnil (Finset.mem_Ico.mp hk).1]
      rfl
    rw [← Finset.sum_range_add_sum_Ico _ h, Finset.sum_eq_zero hzero]
    exact hsum

/-- **The rounds of an exploration** that has gone through `k` levels: either they end with the
tree, within the budget, or they stop because the levels cost more than the budget. -/
theorem explore_levels (hm : s.program.mode = .nfa) (ha : s.options.stopOnAccept = false)
    (hf : ∀ state, ∀ token ∈ Offer.every.tokens s.program state, s.Free state token) :
    ∀ (fuel k : ℕ) (before frontier : Array Branch) (m : Meter),
      s.AtLevel s.program.freeMoves (fun t => s.program.accepts t.state) k before frontier →
      m.steps = ∑ j ∈ range k, s.program.levelCost j → m.steps ≤ s.options.maxSteps →
      s.options.maxSteps - m.steps + 1 ≤ fuel →
      ((s.explore before fuel frontier m).stop = none ∧
        ∃ depth, Trace.level s.program s.program.freeMoves depth = [] ∧
          (s.explore before fuel frontier m).branches.toList =
            (Trace.levels s.program s.program.freeMoves depth).map
              (fun t => t.ended (s.program.accepts t.state)) ∧
          ∑ j ∈ range depth, s.program.levelCost j ≤ s.options.maxSteps) ∨
      ((s.explore before fuel frontier m).stop = some (.stepLimit s.options.maxSteps) ∧
        ∃ depth, s.options.maxSteps < ∑ j ∈ range depth, s.program.levelCost j)
  | 0, _, _, _, _, _, _, _, hfuel => by omega
  | fuel + 1, k, before, frontier, m, hlevel, hsteps, hle, hfuel => by
    have hstop := round_stop .every (m := m) hm ha hlevel.live (fun b _ _ => hf b.state) hle
    rw [hlevel.pending, roundCost_level] at hstop
    have hsum : ∑ j ∈ range (k + 1), s.program.levelCost j = m.steps + s.program.levelCost k := by
      rw [Finset.sum_range_succ, hsteps]
    rw [explore]
    rcases hr : s.round .every frontier m with ⟨m', visited, started, stop⟩
    rw [hr] at hstop
    dsimp only at hstop
    by_cases hc : m.steps + s.program.levelCost k ≤ s.options.maxSteps
    · rw [if_pos hc] at hstop
      subst hstop
      obtain ⟨hnext, hsteps'⟩ := hlevel.next hm ha (fun t _ => visited_every t)
        (fun t _ => offspring_every t) hr rfl
      rw [roundCost_level] at hsteps'
      have hstarted := hnext.pending
      dsimp only at hnext hstarted ⊢
      cases he : started.isEmpty with
      | true =>
        rw [if_pos rfl]
        refine Or.inl ⟨rfl, k + 1, ?_, hnext.done, by omega⟩
        rw [Array.isEmpty_iff.1 he] at hstarted
        simpa using hstarted.symm
      | false =>
        rw [if_neg (by simp)]
        -- a level that is not the last one has cost at least one step
        have hpos : s.program.levelCost k ≠ 0 := by
          intro h0
          rw [level_succ_eq_nil h0, List.map_nil, Array.toList_eq_nil_iff] at hstarted
          simp [hstarted] at he
        exact explore_levels hm ha hf fuel (k + 1) _ _ _ hnext (by omega) (by omega) (by omega)
    · -- the levels up to this one cost more than the budget
      rw [if_neg hc] at hstop
      subst hstop
      exact Or.inr ⟨rfl, k + 1, by omega⟩

/-- **Exploration is exhaustive and exact.** An exploration of a program that was produced, whose
commands only write and wait for prompts that are all answered, ends normally exactly if the whole
path tree costs no more than the budget, and otherwise stops at the limit of steps. When it ends,
its branches are the traces of the path tree in level order, each once; every branch has ended, has
consumed as many tokens as its path is long, and is accepted exactly if it stands at an accept
state. -/
theorem exploration_exhaustive (hp : Produced s.program) (hm : s.program.mode = .nfa)
    (hc : s.program.OnlyLogsAndPauses) (hprompts : s.prompts = none)
    (ha : s.options.stopOnAccept = false) :
    ((s.run none).stop = none ↔ s.program.explorationCost ≤ s.options.maxSteps) ∧
      ((s.run none).stop ≠ none → (s.run none).stop = some (.stepLimit s.options.maxSteps)) ∧
      ((s.run none).stop = none →
        (∃ depth, Trace.level s.program s.program.freeMoves depth = [] ∧
          (s.run none).branches.toList = (Trace.levels s.program s.program.freeMoves depth).map
            fun t => t.ended (s.program.accepts t.state)) ∧
        ((s.run none).branches.toList.map Branch.path).Nodup ∧
        ∀ b ∈ (s.run none).branches.toList, b.terminated = true ∧ b.position = b.path.length ∧
          b.accepted = s.program.accepts b.state) := by
  obtain ⟨d, hd⟩ := hp.exists_resolves
  have hrun : s.run none = s.explore #[] (s.options.maxSteps - 0 + 1)
      #[.start (.named s.program.start)] {} := by
    simp [run, runFrom, hm, runNondeterministic]
  have hrounds := explore_levels hm ha
    (fun state _ ht => free_of_resolves hd hc hprompts state ht)
    (s.options.maxSteps - 0 + 1) 0 #[] #[.start (.named s.program.start)] {} .root (by simp)
    (Nat.zero_le _) le_rfl
  rw [← hrun] at hrounds
  rcases hrounds with ⟨hstop, depth, hnil, hbranches, hsum⟩ | ⟨hstop, depth, hsum⟩
  · refine ⟨?_, fun h => absurd hstop h, fun _ => ⟨⟨depth, hnil, hbranches⟩, ?_, ?_⟩⟩
    · exact ⟨fun _ => explorationCost_le_of_level_eq_nil hnil hsum, fun _ => hstop⟩
    · rw [hbranches, List.map_map]
      have hpath : Branch.path ∘ (fun t : Trace => t.ended (s.program.accepts t.state)) =
          Trace.path := funext fun t => t.path_ended _
      rw [hpath]
      exact Trace.nodup_levels (Program.nodup_freeMoves _) depth
    · intro b hb
      rw [hbranches] at hb
      obtain ⟨t, -, rfl⟩ := List.mem_map.mp hb
      exact ⟨rfl, by rw [Trace.path_ended]; rfl, rfl⟩
  · have hne : (s.run none).stop ≠ none := by rw [hstop]; simp
    refine ⟨⟨fun h => absurd h hne, fun h => ?_⟩, fun _ => hstop, fun h => absurd h hne⟩
    exact absurd (Program.explorationCost_le_iff.mp h depth) (by omega)

/-- A program with a fork, a sentinel and a state without transitions. -/
def forked : Simulator where
  program :=
    { alphabet := ["x"]
      states := Dict.ofList
        [("a", Dict.ofList [(.named "x", Dict.ofList [(.named "b", 1), (.null, 1)])]), ("b", ∅)]
      start := "a"
      accept := ["b"]
      mode := .nfa
      commands := Dict.ofList [("b", [⟨"log", ["done"]⟩])]
      vars := Dict.ofList
        [("start", .literal "a"), ("accept", .array ["b"]), ("mode", .literal "NFA")] }
  options := { maxSteps := 2 }

/-- The listing of `forked`. -/
def forkedText : String :=
  "start = a\naccept = [b]\nmode = NFA\na:\n\tx\t[b, null]\nb:\n\t$log(done)\n"

theorem exploration_exhaustive_forked :
    Produced forked.program ∧ forked.program.mode = .nfa ∧ forked.program.OnlyLogsAndPauses ∧
      forked.prompts = none ∧ forked.options.stopOnAccept = false ∧
      forked.program.explorationCost ≤ forked.options.maxSteps ∧
      ∃ depth, (forked.run none).branches.toList =
        (Trace.levels forked.program forked.program.freeMoves depth).map
          fun t => t.ended (forked.program.accepts t.state) := by
  have hparse : Listing.parse forkedText = .ok forked.program := rfl
  have hp : Produced forked.program := .parsed hparse
  have hc : forked.program.OnlyLogsAndPauses := by unfold Program.OnlyLogsAndPauses; decide
  have h := exploration_exhaustive hp rfl hc rfl rfl
  have hstop : (forked.run none).stop = none := by decide
  obtain ⟨⟨depth, -, hbranches⟩, -⟩ := h.2.2 hstop
  exact ⟨hp, rfl, hc, rfl, rfl, h.1.1 hstop, depth, hbranches⟩

end Simulator

end FiniteAutomata
