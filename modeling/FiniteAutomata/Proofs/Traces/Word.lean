import FiniteAutomata.Proofs.Traces.Basic
import Mathlib.Computability.NFA
import Mathlib.Data.Set.Card

/-! # Runs on a word

On a word a trace goes on by the token at its position, to each declared destination or to `null`
where nothing is declared (`Program.movesAlong`); it ends at a sentinel and at the end of the word.
The traces that arise so are the partial runs of the program on the word (`mem_levels_iff`).

* `consume_levels`: the rounds over a word go through the partial runs level by level.
* `mem_eval_iff`: the names in which partial runs stand are what the simulation by sets of states
  computes.
* `run_on_word`: a run on a word that ends normally has exactly the partial runs as its branches,
  and accepts those that have consumed the word and stand at an accept state. -/

namespace FiniteAutomata

namespace Program

/-- Where a state and a token lead: to each destination declared, else to `null`. -/
def destinationsOn (p : Program) (state : Ref) (token : Token) : List Ref :=
  match (p.table state).find? token with
  | none => [.null]
  | some d => d.keys

/-- How a trace goes on along a word: by the token at its position. -/
def movesAlong (p : Program) (word : List Token) (t : Trace) : List (Token × Ref) :=
  if t.state.isSentinel then []
  else
    match word[t.path.length]? with
    | none => []
    | some token => (p.destinationsOn t.state token).map fun destination => (token, destination)

/-- Whether a trace has consumed a word and stands at an accept state. -/
def acceptsTrace (p : Program) (word : List Token) (t : Trace) : Bool :=
  t.path.length == word.length && p.accepts t.state

/-- The automaton of the tables, weights and sentinels left aside. -/
def toNFA (p : Program) : NFA Token String where
  step state token :=
    {destination | ∃ d, (p.table (.named state)).find? token = some d ∧ .named destination ∈ d.keys}
  start := {p.start}
  accept := {state | state ∈ p.accept}

theorem mem_accept_toNFA {p : Program} {state : String} :
    state ∈ p.toNFA.accept ↔ p.accepts (.named state) = true := by
  simp [Program.toNFA, Program.accepts]

theorem nodup_movesAlong (p : Program) (word : List Token) (t : Trace) :
    (p.movesAlong word t).Nodup := by
  unfold movesAlong destinationsOn
  split_ifs
  · simp
  · split
    · simp
    · refine List.Nodup.map (fun _ _ h => (Prod.mk.inj h).2) ?_
      split
      · simp
      · next d _ => exact d.nodup

end Program

/-- A partial run of a program on a word: it starts at the start state without events, and goes on
from a state that is a name, on the token at its position, to a destination. -/
inductive PartialRun (p : Program) (word : List Token) : Trace → Prop where
  | root : PartialRun p word (.root p)
  | extend {t : Trace} {token : Token} {destination : Ref} (h : PartialRun p word t)
      (hs : t.state.isSentinel = false) (ht : word[t.path.length]? = some token)
      (hd : destination ∈ p.destinationsOn t.state token) :
      PartialRun p word (t.extend (token, destination))

variable {p : Program} {word : List Token}

/-! ### Partial runs by levels -/

theorem mem_movesAlong {t : Trace} {move : Token × Ref} : move ∈ p.movesAlong word t ↔
    t.state.isSentinel = false ∧ word[t.path.length]? = some move.1 ∧
      move.2 ∈ p.destinationsOn t.state move.1 := by
  unfold Program.movesAlong
  cases hs : t.state.isSentinel with
  | true => simp
  | false =>
    cases ht : word[t.path.length]? with
    | none => simp
    | some token =>
      simp only [Bool.false_eq_true, if_false, List.mem_map, true_and, Option.some.injEq]
      constructor
      · rintro ⟨d, hd, rfl⟩
        exact ⟨rfl, hd⟩
      · rintro ⟨rfl, hd⟩
        exact ⟨move.2, hd, rfl⟩

/-- The partial runs on a word are the traces that its moves reach. -/
theorem partialRun_iff_reached {t : Trace} :
    PartialRun p word t ↔ Trace.Reached p (p.movesAlong word) t := by
  constructor
  · intro h
    induction h with
    | root => exact .root
    | extend _ hs ht hd ih => exact .extend ih (mem_movesAlong.mpr ⟨hs, ht, hd⟩)
  · intro h
    induction h with
    | root => exact .root
    | extend _ hm ih =>
      obtain ⟨hs, ht, hd⟩ := mem_movesAlong.mp hm
      exact .extend ih hs ht hd

/-- A partial run has at most as many events as the word has tokens. -/
theorem PartialRun.length_le {t : Trace} (h : PartialRun p word t) :
    t.path.length ≤ word.length := by
  cases h with
  | root => exact Nat.zero_le _
  | extend h hs ht hd =>
    rw [Trace.length_path_extend]
    exact (List.getElem?_eq_some_iff.1 ht).1

/-- **The partial runs on a word** are the traces of the levels up to its length. -/
theorem mem_levels_iff {t : Trace} :
    t ∈ Trace.levels p (p.movesAlong word) (word.length + 1) ↔ PartialRun p word t := by
  rw [Trace.mem_levels, ← partialRun_iff_reached]
  exact ⟨And.left, fun h => ⟨h, Nat.lt_succ_of_le h.length_le⟩⟩

/-! ### Simulation by sets of states -/

theorem mem_destinationsOn_named {state : String} {token : Token} {destination : String} :
    .named destination ∈ p.destinationsOn (.named state) token ↔
      destination ∈ p.toNFA.step state token := by
  change _ ↔ ∃ d, (p.table (.named state)).find? token = some d ∧ .named destination ∈ d.keys
  unfold Program.destinationsOn
  cases (p.table (.named state)).find? token <;> simp

/-- **The names in which the partial runs on a part of the word stand** are the set of states that
the simulation computes for it. -/
theorem mem_eval_iff {state : String} : ∀ {k : ℕ}, k ≤ word.length →
    (state ∈ p.toNFA.eval (word.take k) ↔
      ∃ t, PartialRun p word t ∧ t.path.length = k ∧ t.state = .named state)
  | 0, _ => by
    rw [List.take_zero, NFA.eval_nil]
    constructor
    · intro h
      exact ⟨.root p, .root, rfl, congrArg Ref.named (Set.mem_singleton_iff.mp h).symm⟩
    · rintro ⟨t, ht, hl, hs⟩
      cases ht with
      | root => exact Set.mem_singleton_iff.mpr (Ref.named.inj hs).symm
      | extend => simp at hl
  | k + 1, hk => by
    have hlt : k < word.length := hk
    rw [List.take_succ_eq_append_getElem hlt, NFA.eval_append_singleton, NFA.mem_stepSet]
    constructor
    · rintro ⟨u, hu, hstep⟩
      obtain ⟨t, ht, hl, hs⟩ := (mem_eval_iff (Nat.le_of_lt hlt)).mp hu
      refine ⟨t.extend (word[k], .named state), .extend ht (by rw [hs]; rfl) ?_ ?_, ?_, rfl⟩
      · rw [hl, List.getElem?_eq_getElem hlt]
      · rw [hs]
        exact mem_destinationsOn_named.mpr hstep
      · rw [Trace.length_path_extend, hl]
    · rintro ⟨t, ht, hl, hs⟩
      cases ht with
      | root => simp [Trace.root] at hl
      | @extend u token destination hu hus hut hud =>
        -- the run without its last event stands at a name, as no run goes on from a sentinel
        rw [Trace.length_path_extend, Nat.succ.injEq] at hl
        rw [Trace.state_extend] at hs
        dsimp only at hs
        subst hs
        rw [hl, List.getElem?_eq_getElem hlt, Option.some.injEq] at hut
        cases hn : u.state with
        | sentinel x => simp [hn, Ref.isSentinel] at hus
        | named name =>
          rw [hn, ← hut] at hud
          exact ⟨name, (mem_eval_iff (Nat.le_of_lt hlt)).mpr ⟨u, hu, hl, hn⟩,
            mem_destinationsOn_named.mp hud⟩

/-- Some partial run is accepted exactly if the simulation by sets of states accepts the word. -/
theorem exists_accepted_iff :
    (∃ t, PartialRun p word t ∧ p.acceptsTrace word t = true) ↔ word ∈ p.toNFA.accepts := by
  have heval : ∀ state, state ∈ p.toNFA.eval word ↔
      ∃ t, PartialRun p word t ∧ t.path.length = word.length ∧ t.state = .named state := by
    intro state
    have h : state ∈ p.toNFA.eval (word.take word.length) ↔
        ∃ t, PartialRun p word t ∧ t.path.length = word.length ∧ t.state = .named state :=
      mem_eval_iff le_rfl
    rwa [List.take_length] at h
  simp only [NFA.mem_accepts, Program.acceptsTrace, Bool.and_eq_true, beq_iff_eq]
  constructor
  · rintro ⟨t, ht, hl, ha⟩
    cases hs : t.state with
    | sentinel x => simp [hs, Program.accepts] at ha
    | named state =>
      rw [hs] at ha
      exact ⟨state, Program.mem_accept_toNFA.mpr ha, (heval state).mpr ⟨t, ht, hl, hs⟩⟩
  · rintro ⟨state, ha, he⟩
    obtain ⟨t, ht, hl, hs⟩ := (heval state).mp he
    refine ⟨t, ht, hl, ?_⟩
    rw [hs]
    exact Program.mem_accept_toNFA.mp ha

namespace Simulator

variable {s : Simulator}

/-! ### Rounds over a word -/

theorem targets_eq_destinationsOn (state : Ref) (token : Token) :
    s.targets state token = s.program.destinationsOn state token := rfl

theorem offspring_next {t : Trace} {token : Token} (h : word[t.path.length]? = some token) :
    s.offspring (.next token) t.branch =
      (t.children (s.program.movesAlong word)).map Trace.branch := by
  refine offspring_branch ?_
  simp [Program.movesAlong, h, Offer.tokens, targets_eq_destinationsOn]

theorem visited_next (t : Trace) (token : Token) :
    s.visited (.next token) t.branch = t.ended false := by
  simp [visited, marked, Offer.explores, Trace.ended, Trace.branch, Branch.terminate,
    Branch.conclude]

theorem roundCost_next (token : Token) (ts : List Trace) :
    s.roundCost (.next token) (ts.map Trace.branch) =
      ts.countP fun t => !t.state.isSentinel := by
  induction ts with
  | nil => rfl
  | cons t ts ih =>
    rw [List.map_cons, roundCost_cons, ih, List.countP_cons]
    cases hs : t.state.isSentinel <;> simp [visitCost, Offer.tokens, hs, Nat.add_comm]

/-- The last frontier is settled: a branch on it is accepted if it stands at an accept state. -/
theorem settleAll_level {frontier : Array Branch} {ts : List Trace}
    (h : frontier.toList = ts.map Trace.branch) :
    (s.settleAll frontier).toList = ts.map fun t => t.ended (s.program.accepts t.state) := by
  rw [settleAll, Array.toList_map, h, List.map_map]
  refine List.map_congr_left fun t _ => ?_
  rw [Function.comp_apply, Trace.branch_isStuck]
  cases hs : t.state with
  | named state => simp [Ref.isSentinel, settle, Trace.ended, Trace.branch, hs]
  | sentinel x => simp [Ref.isSentinel, Program.accepts, Trace.ended, Branch.terminate,
      Branch.conclude, Trace.branch]

/-- **The rounds over the rest of a word** that end normally: they go through the levels of the
partial runs that are left, and take a step for each trace that goes on. -/
theorem consume_levels (hm : s.program.mode = .nfa) (ha : s.options.stopOnAccept = false) :
    ∀ (rest done : List Token) (before frontier : Array Branch) (m : Meter), done ++ rest = word →
      s.AtLevel (s.program.movesAlong word) (fun _ => false) done.length before frontier →
      m.steps = (Trace.levels s.program (s.program.movesAlong word) done.length).countP
        (fun t => !t.state.isSentinel) →
      (s.consume before rest frontier m).stop = none →
      (s.consume before rest frontier m).branches.toList =
        (Trace.levels s.program (s.program.movesAlong word) word.length).map
            (fun t => t.ended false) ++
          (Trace.level s.program (s.program.movesAlong word) word.length).map
            (fun t => t.ended (s.program.accepts t.state)) ∧
        (s.consume before rest frontier m).meter.steps =
          (Trace.levels s.program (s.program.movesAlong word) word.length).countP
            (fun t => !t.state.isSentinel)
  | [], done, before, frontier, m, hw, hlevel, hsteps, _ => by
    obtain rfl : done = word := by simpa using hw
    refine ⟨?_, hsteps⟩
    rw [consume, Array.toList_append, hlevel.done, settleAll_level hlevel.pending]
  | token :: rest, done, before, frontier, m, hw, hlevel, hsteps, hstop => by
    have htoken : word[done.length]? = some token := by rw [← hw]; simp
    rw [consume] at hstop ⊢
    rcases hr : s.round (.next token) frontier m with ⟨m', visited, started, stop⟩
    rw [hr] at hstop
    cases stop with
    | some e => simp at hstop
    | none =>
      have hlength : (done ++ [token]).length = done.length + 1 := by simp
      obtain ⟨hnext, hsteps'⟩ := hlevel.next hm ha (fun t _ => visited_next t token)
        (fun t ht => offspring_next (by rw [Trace.length_path_of_mem_level ht, htoken])) hr rfl
      refine consume_levels hm ha rest (done ++ [token]) _ _ _ (by simpa using hw)
        (hlength ▸ hnext) ?_ hstop
      rw [hsteps', roundCost_next, hsteps, hlength, Trace.levels_succ, List.countP_append]

/-- The branches and the steps of a run on a word that ends normally. -/
theorem run_levels (hm : s.program.mode = .nfa) (ha : s.options.stopOnAccept = false)
    (hstop : (s.run (some word)).stop = none) :
    (s.run (some word)).branches.toList =
        (Trace.levels s.program (s.program.movesAlong word) (word.length + 1)).map
          (fun t => t.ended (s.program.acceptsTrace word t)) ∧
      (s.run (some word)).meter.steps =
        (Trace.levels s.program (s.program.movesAlong word) word.length).countP
          (fun t => !t.state.isSentinel) := by
  have hrun : s.run (some word) = s.consume #[] word #[.start (.named s.program.start)] {} := by
    simp [run, runFrom, hm, runNondeterministic]
  obtain ⟨hbranches, hsteps⟩ := consume_levels hm ha word [] #[]
    #[.start (.named s.program.start)] {} (List.nil_append word) .root (by simp [Trace.levels])
    (hrun ▸ hstop)
  rw [← hrun] at hbranches hsteps
  refine ⟨?_, hsteps⟩
  rw [hbranches, Trace.levels_succ, List.map_append]
  congr 1
  · refine List.map_congr_left fun t ht => ?_
    have hshort := (Trace.length_path_lt_of_mem_levels ht).ne
    rw [Program.acceptsTrace, beq_eq_false_iff_ne.mpr hshort, Bool.false_and]
  · refine List.map_congr_left fun t ht => ?_
    rw [Program.acceptsTrace, Trace.length_path_of_mem_level ht, beq_self_eq_true, Bool.true_and]

/-- The branches of the levels that have not consumed the word are those of the earlier levels. -/
theorem countP_pending (p : Program) (word : List Token) :
    ((Trace.levels p (p.movesAlong word) (word.length + 1)).map
        (fun t => t.ended (p.acceptsTrace word t))).countP
          (fun b => !b.isStuck && decide (b.position < word.length)) =
      (Trace.levels p (p.movesAlong word) word.length).countP (fun t => !t.state.isSentinel) := by
  rw [List.countP_map, Trace.levels_succ, List.countP_append]
  have hpending : (Trace.levels p (p.movesAlong word) word.length).countP
      ((fun b => !b.isStuck && decide (b.position < word.length)) ∘
        fun t => t.ended (p.acceptsTrace word t)) =
      (Trace.levels p (p.movesAlong word) word.length).countP (fun t => !t.state.isSentinel) := by
    refine List.countP_congr fun t ht => ?_
    have hshort := Trace.length_path_lt_of_mem_levels ht
    simp [Trace.ended, Trace.branch, Branch.conclude, Branch.isStuck, hshort]
  have hconsumed : (Trace.level p (p.movesAlong word) word.length).countP
      ((fun b => !b.isStuck && decide (b.position < word.length)) ∘
        fun t => t.ended (p.acceptsTrace word t)) = 0 := by
    refine List.countP_eq_zero.mpr fun t ht => ?_
    simp [Trace.ended, Trace.branch, Branch.conclude, Trace.length_path_of_mem_level ht]
  rw [hpending, hconsumed, Nat.add_zero]

/-- **A run on a word computes the partial runs on it.** When it ends normally, its branches are the
partial runs in level order, each once; those are accepted that have consumed the word and stand at
an accept state. There are as many answers as accepting partial runs, and some exactly if the
simulation by sets of states accepts the word. Every branch at a name that has not consumed the word
has taken one step. -/
theorem run_on_word (hm : s.program.mode = .nfa) (ha : s.options.stopOnAccept = false)
    (hstop : (s.run (some word)).stop = none) :
    (s.run (some word)).branches.toList =
        (Trace.levels s.program (s.program.movesAlong word) (word.length + 1)).map
          (fun t => t.ended (s.program.acceptsTrace word t)) ∧
      (Trace.levels s.program (s.program.movesAlong word) (word.length + 1)).Nodup ∧
      (∀ t, t ∈ Trace.levels s.program (s.program.movesAlong word) (word.length + 1) ↔
        PartialRun s.program word t) ∧
      (s.run (some word)).answers.length =
        {t | PartialRun s.program word t ∧ s.program.acceptsTrace word t = true}.ncard ∧
      ((s.run (some word)).answers ≠ [] ↔ word ∈ s.program.toNFA.accepts) ∧
      (s.run (some word)).meter.steps = (s.run (some word)).branches.toList.countP
        fun b => !b.isStuck && decide (b.position < word.length) := by
  obtain ⟨hbranches, hsteps⟩ := run_levels hm ha hstop
  set traces := Trace.levels s.program (s.program.movesAlong word) (word.length + 1) with htraces
  have hnodup : traces.Nodup :=
    List.Nodup.of_map _ (Trace.nodup_levels (Program.nodup_movesAlong s.program word) _)
  have hmem : ∀ t, t ∈ traces ↔ PartialRun s.program word t := fun t => mem_levels_iff
  have hanswers : (s.run (some word)).answers.length =
      (traces.filter fun t => s.program.acceptsTrace word t).length := by
    rw [Run.answers, answersOf, hbranches, List.filter_map, List.length_map, List.length_map]
    rfl
  refine ⟨hbranches, hnodup, hmem, ?_, ?_, ?_⟩
  · have hset : {t | PartialRun s.program word t ∧ s.program.acceptsTrace word t = true} =
        (traces.filter fun t => s.program.acceptsTrace word t).toFinset := by
      ext t
      simp [hmem]
    rw [hanswers, hset, Set.ncard_coe_finset, List.toFinset_card_of_nodup (hnodup.filter _)]
  · rw [← exists_accepted_iff, Ne, ← List.length_eq_zero_iff, hanswers, List.length_eq_zero_iff,
      List.filter_eq_nil_iff]
    simp [hmem]
  · rw [hsteps, hbranches, countP_pending]

/-- A program that reads its word along two ways to accept states and a third one to `null`. -/
def threeWays : Simulator where
  program :=
    { alphabet := ["x"]
      states := Dict.ofList
        [("a", Dict.ofList
          [(.named "x", Dict.ofList [(.named "b", 1), (.null, 1), (.named "a", 1)])]), ("b", ∅)]
      start := "a"
      accept := ["a", "b"]
      mode := .nfa
      commands := ∅
      vars := ∅ }

theorem run_on_word_threeWays :
    threeWays.program.mode = .nfa ∧ threeWays.options.stopOnAccept = false ∧
      (threeWays.run (some [.named "x"])).stop = none ∧
      {t | PartialRun threeWays.program [.named "x"] t ∧
        threeWays.program.acceptsTrace [.named "x"] t = true}.ncard = 2 := by
  have hstop : (threeWays.run (some [.named "x"])).stop = none := by decide
  have h := run_on_word (s := threeWays) rfl rfl hstop
  exact ⟨rfl, rfl, hstop, h.2.2.2.1.symm.trans (by decide +kernel)⟩

end Simulator

end FiniteAutomata
