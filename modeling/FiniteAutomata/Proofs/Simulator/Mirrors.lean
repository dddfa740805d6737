import FiniteAutomata.Proofs.Simulator.Steps

/-! # Simulators seen in other terms

A view shows what a simulator does in other terms: other names of its states, less of its meters,
its stops in other words (`View`). One simulator mirrors another one in a view if what it does in a
step that is counted is what the other one does, seen so (`Mirrors.act`). Then so is every step, and
every part of its runs, from walks, visits and rounds to the run as a whole (`Mirrors.run`). In
particular, simulators of one program that do the same in every step have the same runs
(`run_congr`). -/

namespace FiniteAutomata

/-! ### Branches along other states -/

/-- An event between other states. -/
def Event.mapStates (f : Ref → Ref) (e : Event) : Event :=
  { e with state := f e.state, destination := f e.destination }

@[simp] theorem Event.mapStates_id : Event.mapStates id = id := rfl

namespace Branch

/-- A branch along other states. -/
def mapStates (f : Ref → Ref) (b : Branch) : Branch :=
  { b with state := f b.state, trail := b.trail.map (Event.mapStates f) }

variable {f : Ref → Ref}

@[simp] theorem mapStates_id : mapStates id = id := by
  funext b
  simp [mapStates]

@[simp] theorem isLive_mapStates (b : Branch) : (b.mapStates f).isLive = b.isLive := rfl

end Branch

/-- What a step makes of a branch, with other branches in their places. -/
def Outcome.map (f : Branch → Branch) : Outcome → Outcome
  | .ended b => .ended (f b)
  | .moved b => .moved (f b)
  | .spread b children => .spread (f b) (children.map f)

@[simp] theorem Outcome.branch_map (f : Branch → Branch) (o : Outcome) :
    (o.map f).branch = f o.branch := by
  cases o <;> rfl

@[simp] theorem Outcome.children_map (f : Branch → Branch) (o : Outcome) :
    (o.map f).children = o.children.map f := by
  cases o <;> rfl

theorem map_append_list {α β : Type} (f : α → β) (items : Array α) (more : List α) :
    (items ++ more).map f = items.map f ++ more.map f := by
  rw [← Array.toList_inj]
  simp

namespace Simulator

/-! ### Views -/

/-- How what a simulator does is seen: its states, its meters and its stops in other terms. -/
structure View where
  state : Ref → Ref
  meter : Meter → Meter
  stop : Stop → Stop

namespace View

variable (v : View)

/-- A branch in a view. -/
def branch (b : Branch) : Branch := b.mapStates v.state

/-- What a step comes to, in a view. -/
def step (r : Meter × Except Stop Outcome) : Meter × Except Stop Outcome :=
  (v.meter r.1, (r.2.mapError v.stop).map (Outcome.map v.branch))

/-- What a walk comes to, in a view. -/
def walk (r : Meter × Branch × Option Stop) : Meter × Branch × Option Stop :=
  (v.meter r.1, v.branch r.2.1, r.2.2.map v.stop)

/-- A visit in a view. -/
def visit (x : Visit) : Visit := ⟨v.branch x.branch, x.children.map v.branch, x.stop.map v.stop⟩

/-- A round in a view. -/
def round (r : Round) : Round :=
  ⟨r.visited.map v.branch, r.started.map v.branch, r.stop.map v.stop⟩

@[simp] theorem round_empty : v.round {} = {} := by simp [round]

/-- A run in a view. -/
def run (r : Run) : Run := ⟨r.branches.map v.branch, v.meter r.meter, r.stop.map v.stop⟩

/-! A view may leave states and stops as they are and show only less of the meters. -/

/-- The view of a simulator in which its meters alone are seen in other terms. -/
def ofMeter (f : Meter → Meter) : View := ⟨id, f, id⟩

variable (f : Meter → Meter)

theorem branch_ofMeter : (ofMeter f).branch = id := Branch.mapStates_id

theorem step_ofMeter (r : Meter × Except Stop Outcome) : (ofMeter f).step r = (f r.1, r.2) := by
  rw [step, branch_ofMeter]
  rcases r with ⟨m, e | o⟩
  · rfl
  · cases o <;> simp [ofMeter, Except.mapError, Except.map, Outcome.map]

theorem run_ofMeter (r : Run) : (ofMeter f).run r = { r with meter := f r.meter } := by
  rw [run, branch_ofMeter]
  simp [ofMeter]

end View

/-- What the second simulator does is what the first one does, seen in a view. -/
structure Mirrors (v : View) (s t : Simulator) : Prop where
  mode : t.program.mode = s.program.mode
  start : .named t.program.start = v.state (.named s.program.start)
  accepts : ∀ state, t.program.accepts (v.state state) = s.program.accepts state
  sentinels : ∀ state, (v.state state).isSentinel = state.isSentinel
  tokens : ∀ state, (t.program.table (v.state state)).keys = (s.program.table state).keys
  budget : t.options.maxSteps = s.options.maxSteps
  fresh : v.meter {} = {}
  counted : ∀ m n, v.meter { m with steps := n } = { v.meter m with steps := n }
  missing : v.stop .missingInput = .missingInput
  limit : ∀ n, v.stop (.stepLimit n) = .stepLimit n
  act : ∀ exploring token b m,
    t.act exploring token (v.branch b) (v.meter m) = v.step (s.act exploring token b m)

variable {v : View} {s t : Simulator}

/-! ### Steps -/

theorem Mirrors.steps (h : Mirrors v s t) (m : Meter) : (v.meter m).steps = m.steps := by
  have hcounted : v.meter m = { v.meter m with steps := m.steps } := h.counted m m.steps
  rw [hcounted]

/-- **Every step is what the step of the other simulator looks like.** -/
theorem Mirrors.step (h : Mirrors v s t) (exploring : Bool) (token : Token) (b : Branch)
    (m : Meter) :
    t.step exploring token (v.branch b) (v.meter m) = v.step (s.step exploring token b m) := by
  rw [step_eq, step_eq, h.budget, h.steps]
  by_cases hlimit : s.options.maxSteps ≤ m.steps
  · rw [if_pos hlimit, if_pos hlimit]
    simp [View.step, Except.mapError, Except.map, h.limit]
  · rw [if_neg hlimit, if_neg hlimit, ← h.counted, h.act]

/-! ### Walks -/

theorem Mirrors.walk (h : Mirrors v s t) : ∀ (tokens : List Token) (b : Branch) (m : Meter),
    t.walk tokens (v.branch b) (v.meter m) = v.walk (s.walk tokens b m)
  | [], _, _ => rfl
  | token :: rest, b, m => by
    have hlive : (v.branch b).isLive = b.isLive := rfl
    rw [Simulator.walk, Simulator.walk, hlive, h.step]
    cases b.isLive with
    | false => rfl
    | true =>
      rcases s.step false token b m with ⟨m₁, e | o⟩
      · rfl
      · have hrest := h.walk rest o.branch m₁
        simpa [View.step, Except.mapError, Except.map] using hrest

theorem Mirrors.settle (h : Mirrors v s t) (b : Branch) :
    t.settle (v.branch b) = v.branch (s.settle b) := by
  have haccepts : t.program.accepts (v.branch b).state = s.program.accepts b.state :=
    h.accepts b.state
  have hended : (v.branch b).terminated = b.terminated := rfl
  rw [Simulator.settle, Simulator.settle, haccepts, hended]
  split_ifs <;> rfl

/-! ### Rounds -/

theorem Mirrors.tryTokens (h : Mirrors v s t) (exploring : Bool) :
    ∀ (tokens : List Token) (b : Branch) (m : Meter),
      t.tryTokens exploring tokens (v.branch b) (v.meter m) =
        Prod.map v.meter v.visit (s.tryTokens exploring tokens b m)
  | [], _, _ => rfl
  | token :: rest, b, m => by
    rw [Simulator.tryTokens, Simulator.tryTokens, h.step]
    rcases s.step exploring token b m with ⟨m₁, e | o⟩
    · rfl
    · have hended : (o.map v.branch).branch.terminated = o.branch.terminated := by
        rw [Outcome.branch_map]
        rfl
      have hrest := h.tryTokens exploring rest o.branch m₁
      simp only [View.step, Except.mapError, Except.map, hended]
      split_ifs
      · simp [View.visit]
      · rw [Outcome.branch_map, hrest]
        simp [View.visit]

theorem Mirrors.isStuck (h : Mirrors v s t) (b : Branch) : (v.branch b).isStuck = b.isStuck :=
  h.sentinels b.state

/-- The tokens on offer are the same. -/
theorem Mirrors.offer (h : Mirrors v s t) (offer : Offer) (b : Branch) :
    offer.tokens t.program (v.branch b).state = offer.tokens s.program b.state := by
  have hkeys : (t.program.table (v.branch b).state).keys = (s.program.table b.state).keys :=
    h.tokens b.state
  cases offer with
  | next token => rfl
  | every => rw [Offer.tokens, Offer.tokens, hkeys]

theorem Mirrors.visit (h : Mirrors v s t) (offer : Offer) (b : Branch) (m : Meter) :
    t.visit offer (v.branch b) (v.meter m) = Prod.map v.meter v.visit (s.visit offer b m) := by
  rw [Simulator.visit, Simulator.visit, h.isStuck, h.offer]
  split_ifs
  · rfl
  · exact h.tryTokens _ _ _ _

theorem Mirrors.visitAll (h : Mirrors v s t) (offer : Offer) :
    ∀ (frontier : List Branch) (r : Round) (m : Meter),
      t.visitAll offer (frontier.map v.branch) (v.round r) (v.meter m) =
        Prod.map v.meter v.round (s.visitAll offer frontier r m)
  | [], _, _ => rfl
  | b :: rest, r, m => by
    rw [List.map_cons, Simulator.visitAll, Simulator.visitAll, h.visit]
    rcases s.visit offer b m with ⟨m₁, x⟩
    have hvisited : (v.round r).visited.push (v.visit x).branch =
        (r.visited.push x.branch).map v.branch := by
      simp [View.round, View.visit]
    have hstarted : (v.round r).started ++ (v.visit x).children =
        (r.started ++ x.children).map v.branch := by
      rw [map_append_list, View.round, View.visit]
    simp only [Prod.map_apply, hvisited, hstarted]
    cases hx : x.stop with
    | none =>
      have hrest := h.visitAll offer rest
        ⟨r.visited.push x.branch, r.started ++ x.children, none⟩ m₁
      simpa [View.visit, View.round, hx] using hrest
    | some e => simp [View.visit, View.round, hx, map_append_list]

theorem Mirrors.round (h : Mirrors v s t) (offer : Offer) (frontier : Array Branch) (m : Meter) :
    t.round offer (frontier.map v.branch) (v.meter m) =
      Prod.map v.meter v.round (s.round offer frontier m) := by
  have hfirst := h.visitAll offer frontier.toList {} m
  rwa [v.round_empty, ← Array.toList_map] at hfirst

theorem Mirrors.settleAll (h : Mirrors v s t) (frontier : Array Branch) :
    t.settleAll (frontier.map v.branch) = (s.settleAll frontier).map v.branch := by
  rw [Simulator.settleAll, Simulator.settleAll, Array.map_map, Array.map_map]
  refine Array.map_congr_left fun b _ => ?_
  rw [Function.comp_apply, Function.comp_apply, h.isStuck, h.settle]
  split_ifs <;> rfl

/-! ### Runs -/

theorem Mirrors.consume (h : Mirrors v s t) : ∀ (before : Array Branch) (tokens : List Token)
    (frontier : Array Branch) (m : Meter),
      t.consume (before.map v.branch) tokens (frontier.map v.branch) (v.meter m) =
        v.run (s.consume before tokens frontier m)
  | before, [], frontier, m => by
    rw [Simulator.consume, Simulator.consume, h.settleAll, View.run, Array.map_append]
    rfl
  | before, token :: rest, frontier, m => by
    rw [Simulator.consume, Simulator.consume, h.round]
    rcases s.round (.next token) frontier m with ⟨m₁, visited, started, _ | e⟩
    · have hrest := h.consume (before ++ visited) rest started m₁
      rwa [Array.map_append] at hrest
    · simp [View.run, View.round]

theorem Mirrors.explore (h : Mirrors v s t) : ∀ (before : Array Branch) (fuel : Nat)
    (frontier : Array Branch) (m : Meter),
      t.explore (before.map v.branch) fuel (frontier.map v.branch) (v.meter m) =
        v.run (s.explore before fuel frontier m)
  | before, 0, frontier, m => by
    simp [Simulator.explore, View.run]
  | before, fuel + 1, frontier, m => by
    rw [Simulator.explore, Simulator.explore, h.round]
    rcases s.round .every frontier m with ⟨m₁, visited, started, _ | e⟩
    · have hrest := h.explore (before ++ visited) fuel started m₁
      rw [Array.map_append] at hrest
      have hempty : (started.map v.branch).isEmpty = started.isEmpty := by simp [Array.isEmpty]
      simp only [Prod.map_apply, View.round, Option.map_none, hempty]
      split_ifs
      · simp [View.run]
      · exact hrest
    · simp [View.run, View.round]

/-- The branch from which a run starts. -/
theorem Mirrors.root (h : Mirrors v s t) :
    Branch.start (.named t.program.start) = v.branch (.start (.named s.program.start)) := by
  rw [h.start]
  rfl

/-- **A simulator whose steps mirror those of another one has runs that do.** -/
theorem Mirrors.run (h : Mirrors v s t) (input : Option (List Token)) :
    t.run input = v.run (s.run input) := by
  unfold Simulator.run Simulator.runFrom
  rw [h.mode]
  cases s.program.mode with
  | dfa =>
    cases input with
    | none => simp [Simulator.runDeterministic, View.run, h.fresh, h.missing]
    | some tokens =>
      have hwalk := h.walk tokens (.start (.named s.program.start)) {}
      rw [h.fresh, ← h.root] at hwalk
      simp only [Simulator.runDeterministic, hwalk]
      rcases s.walk tokens (.start (.named s.program.start)) {} with ⟨m, b, _ | e⟩
      · simp [View.walk, View.run, h.settle]
      · simp [View.walk, View.run]
  | nfa =>
    cases input with
    | none =>
      have hexplore := h.explore #[] (s.options.maxSteps - ({} : Meter).steps + 1)
        #[.start (.named s.program.start)] {}
      simpa [Simulator.runNondeterministic, h.budget, h.root, h.fresh] using hexplore
    | some tokens =>
      have hconsume := h.consume #[] tokens #[.start (.named s.program.start)] {}
      simpa [Simulator.runNondeterministic, h.root, h.fresh] using hconsume

/-- A simulator of the same program whose meters alone are seen in other terms. -/
theorem Mirrors.ofMeter {f : Meter → Meter} (hprogram : t.program = s.program)
    (hbudget : t.options.maxSteps = s.options.maxSteps) (hfresh : f {} = {})
    (hcounted : ∀ m n, f { m with steps := n } = { f m with steps := n })
    (hact : ∀ exploring token b m, t.act exploring token b (f m) =
      (f (s.act exploring token b m).1, (s.act exploring token b m).2)) :
    Mirrors (.ofMeter f) s t where
  mode := by rw [hprogram]
  start := by rw [hprogram]; rfl
  accepts _ := by rw [hprogram]; rfl
  sentinels _ := rfl
  tokens _ := by rw [hprogram]; rfl
  budget := hbudget
  fresh := hfresh
  counted := hcounted
  missing := rfl
  limit _ := rfl
  act exploring token b m := by
    rw [View.step_ofMeter, View.branch_ofMeter]
    exact hact exploring token b m

/-- **Simulators of one program that do the same in every step have the same runs.** -/
theorem run_congr (hprogram : t.program = s.program)
    (hbudget : t.options.maxSteps = s.options.maxSteps)
    (hact : ∀ exploring token b m, t.act exploring token b m = s.act exploring token b m)
    (input : Option (List Token)) : t.run input = s.run input := by
  rw [(Mirrors.ofMeter (f := id) hprogram hbudget rfl (fun _ _ => rfl) hact).run,
    View.run_ofMeter]
  rfl

end Simulator

end FiniteAutomata
