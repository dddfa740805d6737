import FiniteAutomata.Proofs.Simulator.Rounds
import Mathlib.Data.List.Nodup
import Mathlib.Data.Nat.Init

/-! # Traces and their levels

A trace is a way through a program: the events from the start state on and the state they lead to. A
rule that gives the moves of every trace (token and destination, in order) spans a tree, whose level
`k` lists the traces of `k` events in the order in which their ancestors stand
(`length_path_of_mem_level`, `nodup_levels`); the levels hold the traces that the moves reach
(`mem_levels`). A branch of a simulator under way is a trace
(`Trace.branch`), and the branches that a visit starts are the next traces (`offspring_branch`). So
rounds that go from level to level keep `AtLevel` (`AtLevel.next`). -/

namespace FiniteAutomata

/-- A way through a program: the events from the start state on and the state they lead to. -/
structure Trace where
  path : List Event
  state : Ref
deriving DecidableEq, Repr

namespace Trace

/-- The trace without events. -/
def root (p : Program) : Trace := ⟨[], .named p.start⟩

/-- The trace one event longer. -/
def extend (t : Trace) (move : Token × Ref) : Trace :=
  ⟨t.path ++ [⟨t.state, move.1, move.2⟩], move.2⟩

/-- The traces that continue a trace by one of its moves, in order. -/
def children (moves : Trace → List (Token × Ref)) (t : Trace) : List Trace :=
  (moves t).map t.extend

/-- The traces of a number of events, in level order. -/
def level (p : Program) (moves : Trace → List (Token × Ref)) : ℕ → List Trace
  | 0 => [root p]
  | k + 1 => (level p moves k).flatMap (children moves)

/-- The traces of less than a number of events, level by level. -/
def levels (p : Program) (moves : Trace → List (Token × Ref)) (depth : ℕ) : List Trace :=
  (List.range depth).flatMap (level p moves)

variable {p : Program} {moves : Trace → List (Token × Ref)}

@[simp] theorem length_path_extend (t : Trace) (move : Token × Ref) :
    (t.extend move).path.length = t.path.length + 1 := by simp [extend]

@[simp] theorem state_extend (t : Trace) (move : Token × Ref) : (t.extend move).state = move.2 :=
  rfl

theorem levels_succ (depth : ℕ) :
    levels p moves (depth + 1) = levels p moves depth ++ level p moves depth := by
  simp [levels, List.range_succ]

theorem length_path_of_mem_level : ∀ {k : ℕ} {t : Trace}, t ∈ level p moves k → t.path.length = k
  | 0, t, h => by
    obtain rfl : t = root p := by simpa [level] using h
    rfl
  | k + 1, t, h => by
    simp only [level, children, List.mem_flatMap, List.mem_map] at h
    obtain ⟨u, hu, move, -, rfl⟩ := h
    rw [length_path_extend, length_path_of_mem_level hu]

theorem length_path_lt_of_mem_levels {depth : ℕ} {t : Trace} (h : t ∈ levels p moves depth) :
    t.path.length < depth := by
  obtain ⟨k, hk, ht⟩ := List.mem_flatMap.mp h
  rw [length_path_of_mem_level ht]
  exact List.mem_range.mp hk

theorem level_eq_nil_of_le {k : ℕ} (h : level p moves k = []) :
    ∀ {j : ℕ}, k ≤ j → level p moves j = [] := by
  intro j hj
  induction j, hj using Nat.le_induction with
  | base => exact h
  | succ j _ ih => rw [level, ih]; rfl

/-! ### Reached traces -/

/-- The traces that moves lead to from the start. -/
inductive Reached (p : Program) (moves : Trace → List (Token × Ref)) : Trace → Prop where
  | root : Reached p moves (root p)
  | extend {t : Trace} {move : Token × Ref} (h : Reached p moves t) (hm : move ∈ moves t) :
      Reached p moves (t.extend move)

theorem Reached.mem_level {t : Trace} (h : Reached p moves t) : t ∈ level p moves t.path.length := by
  induction h with
  | root => exact List.mem_singleton.mpr rfl
  | extend h hm ih =>
    rw [length_path_extend]
    exact List.mem_flatMap.mpr ⟨_, ih, List.mem_map.mpr ⟨_, hm, rfl⟩⟩

theorem reached_of_mem_level : ∀ {k : ℕ} {t : Trace}, t ∈ level p moves k → Reached p moves t
  | 0, t, h => by
    obtain rfl : t = root p := by simpa [level] using h
    exact .root
  | k + 1, t, h => by
    simp only [level, children, List.mem_flatMap, List.mem_map] at h
    obtain ⟨u, hu, move, hmove, rfl⟩ := h
    exact .extend (reached_of_mem_level hu) hmove

/-- **The traces of less than a number of events** are those reached with fewer. -/
theorem mem_levels {depth : ℕ} {t : Trace} :
    t ∈ levels p moves depth ↔ Reached p moves t ∧ t.path.length < depth := by
  constructor
  · intro h
    obtain ⟨k, -, ht⟩ := List.mem_flatMap.mp h
    exact ⟨reached_of_mem_level ht, length_path_lt_of_mem_levels h⟩
  · rintro ⟨h, hlt⟩
    exact List.mem_flatMap.mpr ⟨_, List.mem_range.mpr hlt, h.mem_level⟩

/-- Where a level is empty, every trace that is reached has fewer events. -/
theorem Reached.length_lt {depth : ℕ} {t : Trace} (h : Reached p moves t)
    (hnil : level p moves depth = []) : t.path.length < depth := by
  by_contra hge
  have hmem := h.mem_level
  rw [level_eq_nil_of_le hnil (Nat.le_of_not_lt hge)] at hmem
  cases hmem

/-! ### No path comes twice -/

theorem extend_path_inj {t : Trace} {m m' : Token × Ref}
    (h : (t.extend m).path = (t.extend m').path) : m = m' := by
  have h1 := List.append_cancel_left h
  simp only [List.cons.injEq, Event.mk.injEq, and_true, true_and] at h1
  exact Prod.ext h1.1 h1.2

theorem nodup_level (hm : ∀ t, (moves t).Nodup) : ∀ k, ((level p moves k).map path).Nodup
  | 0 => by simp [level]
  | k + 1 => by
    have ih := nodup_level hm k
    rw [level, List.map_flatMap]
    refine List.nodup_flatMap.mpr ⟨fun t _ => ?_, ?_⟩
    · rw [children, List.map_map]
      exact List.Nodup.map (fun _ _ h => extend_path_inj h) (hm t)
    · -- the paths of two traces of one level differ, and each is what its children drop last
      refine (List.pairwise_map.mp ih).imp fun {t u} hne => ?_
      refine List.disjoint_iff_ne.mpr ?_
      intro a ha b hb hab
      simp only [children, List.map_map, List.mem_map, Function.comp_apply] at ha hb
      obtain ⟨m, -, rfl⟩ := ha
      obtain ⟨m', -, rfl⟩ := hb
      have h := congrArg List.dropLast hab
      simp only [extend, List.dropLast_concat] at h
      exact hne h

/-- **No path comes twice** in the levels of a tree whose moves do not come twice. -/
theorem nodup_levels (hm : ∀ t, (moves t).Nodup) (depth : ℕ) :
    ((levels p moves depth).map path).Nodup := by
  induction depth with
  | zero => simp [levels]
  | succ depth ih =>
    rw [levels_succ, List.map_append, List.nodup_append]
    refine ⟨ih, nodup_level hm depth, ?_⟩
    intro a ha b hb hab
    obtain ⟨t, ht, rfl⟩ := List.mem_map.mp ha
    obtain ⟨u, hu, rfl⟩ := List.mem_map.mp hb
    have h1 := length_path_lt_of_mem_levels ht
    rw [hab, length_path_of_mem_level hu] at h1
    exact Nat.lt_irrefl _ h1

/-! ### Traces as branches -/

/-- The branch that has gone along a trace and goes on. -/
def branch (t : Trace) : Branch :=
  { state := t.state, trail := t.path.reverse, position := t.path.length }

/-- The branch that has gone along a trace and has ended. -/
def ended (t : Trace) (accepted : Bool) : Branch := t.branch.conclude accepted

@[simp] theorem branch_root : (root p).branch = .start (.named p.start) := rfl

@[simp] theorem branch_isStuck (t : Trace) : t.branch.isStuck = t.state.isSentinel := rfl

@[simp] theorem branch_state (t : Trace) : t.branch.state = t.state := rfl

@[simp] theorem path_branch (t : Trace) : t.branch.path = t.path := by
  simp [branch, Branch.path]

theorem spawn_branch (t : Trace) (move : Token × Ref) :
    t.branch.spawn ⟨t.state, move.1, move.2⟩ = (t.extend move).branch := by
  simp [branch, Branch.spawn, extend]

@[simp] theorem path_ended (t : Trace) (accepted : Bool) : (t.ended accepted).path = t.path := by
  simp [ended, branch, Branch.conclude, Branch.path]

end Trace

namespace Simulator

variable {s : Simulator}

theorem spawns_branch (token : Token) (t : Trace) :
    s.spawns token t.branch =
      ((s.targets t.state token).map fun destination => t.extend (token, destination)).map
        Trace.branch := by
  simp only [spawns, Trace.branch_state, List.map_map]
  exact List.map_congr_left fun d _ => t.spawn_branch (token, d)

/-- The branches that a visit of a trace starts are its children, if the moves are what is on
offer. -/
theorem offspring_branch {offer : Offer} {moves : Trace → List (Token × Ref)} {t : Trace}
    (h : moves t = if t.state.isSentinel then [] else
      (offer.tokens s.program t.state).flatMap fun token =>
        (s.targets t.state token).map fun d => (token, d)) :
    s.offspring offer t.branch = (t.children moves).map Trace.branch := by
  unfold offspring Trace.children
  rw [h, Trace.branch_isStuck]
  split_ifs
  · rfl
  · simp only [spawns_branch, Trace.branch_state, List.map_flatMap, List.map_map]
    rfl

/-! ### Rounds from level to level -/

variable {moves : Trace → List (Token × Ref)} {accepted : Trace → Bool} {k : ℕ}
  {before frontier : Array Branch}

/-- What holds before round `k`: the branches of the rounds before are the traces of less than `k`
events, each ended as `accepted` says, and those of the frontier are the traces of `k` events. -/
structure AtLevel (s : Simulator) (moves : Trace → List (Token × Ref)) (accepted : Trace → Bool)
    (k : ℕ) (before frontier : Array Branch) : Prop where
  done : before.toList = (Trace.levels s.program moves k).map fun t => t.ended (accepted t)
  pending : frontier.toList = (Trace.level s.program moves k).map Trace.branch

theorem AtLevel.root : s.AtLevel moves accepted 0 #[] #[.start (.named s.program.start)] :=
  ⟨by simp [Trace.levels], by simp [Trace.level]⟩

theorem AtLevel.live (h : s.AtLevel moves accepted k before frontier) :
    ∀ b ∈ frontier.toList, b.terminated = false := by
  rw [h.pending]
  intro b hb
  obtain ⟨t, -, rfl⟩ := List.mem_map.mp hb
  rfl

/-- **A round that succeeds goes on to the next level**, if it ends the traces as `accepted` says
and starts their children. -/
theorem AtLevel.next {offer : Offer} {m m' : Meter} {r : Round}
    (h : s.AtLevel moves accepted k before frontier) (hm : s.program.mode = .nfa)
    (ha : s.options.stopOnAccept = false)
    (hv : ∀ t ∈ Trace.level s.program moves k, s.visited offer t.branch = t.ended (accepted t))
    (ho : ∀ t ∈ Trace.level s.program moves k,
      s.offspring offer t.branch = (t.children moves).map Trace.branch)
    (hr : s.round offer frontier m = (m', r)) (hstop : r.stop = none) :
    s.AtLevel moves accepted (k + 1) (before ++ r.visited) r.started ∧
      m'.steps = m.steps +
        s.roundCost offer ((Trace.level s.program moves k).map Trace.branch) := by
  obtain ⟨h1, h2, h3⟩ := round_ok hm ha h.live hr hstop
  rw [h.pending] at h1 h2 h3
  refine ⟨⟨?_, ?_⟩, h3⟩
  · rw [Array.toList_append, h.done, h1, Trace.levels_succ, List.map_append, List.map_map]
    exact congrArg _ (List.map_congr_left hv)
  · rw [h2, Trace.level, List.map_flatMap, List.flatMap_map]
    exact List.flatMap_congr ho

end Simulator

end FiniteAutomata
