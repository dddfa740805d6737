import FiniteAutomata.Proofs.Simulator.Course
import FiniteAutomata.Simulator.Machine

/-! # Steps of a machine

A step of a machine changes it as it goes: the steps are counted, commands are performed, a branch
may be marked, and only then it turns out whether there is a transition to take. Each of its actions
is computed once (`tick_run`, `executeAll_run`, `spawnAll_run`), which makes the whole a step of the
simulator put in the place of the branch (`step_eq`): a branch is marked early only in rounds, where
nothing stops a step any more, since only machines in nondeterministic mode explore
(`Reached.exploring`). So whatever operations have led to a machine, a step that stops leaves its
branches as they were, and one that succeeds touches only its own (`step_frame`). -/

namespace FiniteAutomata

namespace Machine

variable {s : Simulator} {index : ℕ} {token : Token}

/-! ### Added branches -/

theorem toList_add (m : Machine) (bs : List Branch) :
    (m.add bs).1.branches.toList = m.branches.toList ++ bs := Array.toList_appendList

theorem size_add (m : Machine) (bs : List Branch) :
    (m.add bs).1.branches.size = m.branches.size + bs.length := by
  rw [← Array.length_toList, toList_add, List.length_append, Array.length_toList]

theorem add_nil (m : Machine) : (m.add []).1 = m := rfl

theorem add_add (m : Machine) (bs cs : List Branch) :
    ((m.add bs).1.add cs).1 = (m.add (bs ++ cs)).1 := by
  have hbranches : ((m.add bs).1.add cs).1.branches = (m.add (bs ++ cs)).1.branches := by
    rw [← Array.toList_inj, toList_add, toList_add, toList_add, List.append_assoc]
  exact congrArg (fun branches => { m with branches }) hbranches

/-- A branch that is there stays where it is when others are added. -/
theorem branch_add {m : Machine} (hi : index < m.branches.size) (bs : List Branch) :
    (m.add bs).1.branch index = m.branch index := by
  have hlookup : (m.add bs).1.branches[index]? = m.branches[index]? := by
    rw [← Array.getElem?_toList, toList_add, List.getElem?_append_left (by simpa using hi),
      Array.getElem?_toList]
  rw [branch, branch, Array.getD_eq_getD_getElem?, hlookup, Array.getD_eq_getD_getElem?]

/-! ### Replaced branches -/

@[simp] theorem size_replace (m : Machine) (b : Branch) :
    (m.replace index b).branches.size = m.branches.size := by simp [replace]

theorem branch_replace {m : Machine} (hi : index < m.branches.size) (b : Branch) :
    (m.replace index b).branch index = b := by
  simp [replace, branch, hi]

theorem replace_branch {m : Machine} (hi : index < m.branches.size) :
    m.replace index (m.branch index) = m := by
  have hbranches : m.branches.setIfInBounds index (m.branch index) = m.branches := by
    rw [branch, Array.getD_eq_getD_getElem?, Array.getElem?_eq_getElem hi, Option.getD_some,
      Array.setIfInBounds, dif_pos hi, Array.set_getElem_self]
  exact congrArg (fun branches => { m with branches }) hbranches

/-! ### Actions -/

namespace Action

theorem tick_run (m : Machine) : (tick s).run m =
    if s.options.maxSteps ≤ m.meter.steps then .error (.stepLimit s.options.maxSteps) m
    else .ok () { m with meter := { m.meter with steps := m.meter.steps + 1 } } := by
  unfold tick Simulator.tick
  simp only [EStateM.run_bind, EStateM.run_get]
  split_ifs <;> rfl

theorem check_run (m : Machine) : (check s token).run m =
    match s.tokenFault? token with
    | some e => .error e m
    | none => .ok () m := by
  unfold check
  cases s.tokenFault? token <;> rfl

theorem execute_run (c : Command) (m : Machine) : (execute s c).run m =
    match s.execute c m.meter with
    | (meter, some e) => .error e { m with meter }
    | (meter, none) => .ok () { m with meter } := by
  unfold execute Machine.execute
  simp only [EStateM.run_bind, EStateM.run_get, EStateM.run_set]
  rcases s.execute c m.meter with ⟨meter, _ | e⟩ <;> rfl

theorem executeAll_run : ∀ (cs : List Command) (m : Machine), (cs.forM (execute s)).run m =
    match s.executeAll cs m.meter with
    | (meter, some e) => .error e { m with meter }
    | (meter, none) => .ok () { m with meter }
  | [], m => rfl
  | c :: cs, m => by
    rw [List.forM, EStateM.run_bind, execute_run, Simulator.executeAll]
    rcases s.execute c m.meter with ⟨meter, _ | e⟩
    · exact executeAll_run cs _
    · rfl

theorem resolve_run (state : Ref) (m : Machine) : (resolve s state token).run m =
    match s.resolve state token m.meter with
    | (meter, .error e) => .error e { m with meter }
    | (meter, .ok r) => .ok r { m with meter } := by
  unfold resolve Machine.resolve
  simp only [EStateM.run_bind, EStateM.run_get, EStateM.run_set]
  rcases s.resolve state token m.meter with ⟨meter, e | r⟩ <;> rfl

theorem spawn_run (e : Event) (m : Machine) :
    (spawn index e).run m = .ok m.branches.size (m.spawn index e).1 := rfl

/-- Branches started one after the other go to the end, in order. -/
theorem spawnAll_run (f : Ref → Event) : ∀ (ds : List Ref) (m : Machine), index < m.branches.size →
    (ds.mapM fun d => spawn index (f d)).run m =
      .ok (List.range' m.branches.size ds.length)
        (m.add (ds.map fun d => (m.branch index).spawn (f d))).1
  | [], m, _ => by rw [List.map_nil, add_nil]; rfl
  | d :: ds, m, hi => by
    have hrest := spawnAll_run f ds (m.spawn index (f d)).1
      (by rw [Machine.spawn, size_add]; exact Nat.lt_add_right _ hi)
    rw [Machine.spawn, size_add, branch_add hi, add_add] at hrest
    rw [List.mapM_cons, EStateM.run_bind, spawn_run]
    dsimp only
    rw [EStateM.run_bind, Machine.spawn, hrest]
    rfl

end Action

/-! ### Steps -/

/-- The machine after a step of a branch. -/
def after (m : Machine) (meter : Meter) (index : ℕ) (o : Outcome) : Machine :=
  ((({ m with meter } : Machine).replace index o.branch).add o.children).1

/-- The branches that go on after a step of a branch. -/
def followers (m : Machine) (index : ℕ) (o : Outcome) : List ℕ :=
  match o with
  | .moved _ => [index]
  | _ => List.range' m.branches.size o.children.length

namespace Action

/-- The transition of deterministic mode moves the branch. -/
theorem transition_moves (hm : s.program.mode = .dfa) {m : Machine} {state : String}
    (hb : (m.branch index).state = .named state) :
    (transition s token index state).run m =
      match s.move state token (m.branch index) m.meter with
      | (meter, .error e) => .error e { m with meter }
      | (meter, .ok o) => .ok (m.followers index o) (m.after meter index o) := by
  unfold transition Simulator.move
  rw [EStateM.run_bind, resolve_run, Simulator.resolve, hb]
  cases hd : s.destinations? (.named state) token with
  | none =>
    dsimp only
    rw [hm]
    cases s.options.autoNull <;> rfl
  | some d =>
    dsimp only
    rw [hm]
    rcases s.choose d m.meter with ⟨meter, e | destination⟩ <;> rfl

/-- In rounds every destination starts a branch. -/
theorem transition_spreads (hm : s.program.mode = .nfa) {m : Machine}
    (hi : index < m.branches.size) {state : String}
    (hb : (m.branch index).state = .named state) :
    (transition s token index state).run m =
      .ok (List.range' m.branches.size (s.spawns token (m.branch index)).length)
        (m.add (s.spawns token (m.branch index))).1 := by
  unfold transition Simulator.spawns Simulator.targets
  rw [EStateM.run_bind, resolve_run, Simulator.resolve, hb]
  cases hd : s.destinations? (.named state) token with
  | none =>
    dsimp only
    rw [hm]
    dsimp only
    rw [spawnAll_run _ _ _ hi, List.length_map]
  | some d =>
    dsimp only
    rw [hm]
    dsimp only
    rw [spawnAll_run _ _ _ hi, List.length_map]

theorem mark_run {m : Machine} (hi : index < m.branches.size) :
    (mark s (m.branch index).state index).run m =
      .ok () (m.replace index (s.marked m.exploring (m.branch index))) := by
  unfold mark Simulator.marked
  rw [EStateM.run_bind, EStateM.run_get, Bool.and_comm]
  dsimp only
  split_ifs
  · rfl
  · rw [replace_branch hi]
    rfl

/-- **What is left of a step after the commands** is what the simulator says, put in the place of
the branch. -/
theorem proceed_run {m : Machine} (hx : m.exploring = true → s.program.mode = .nfa)
    (hi : index < m.branches.size) : (proceed s token index).run m =
      match s.proceed m.exploring token (m.branch index) m.meter with
      | (meter, .error e) => .error e { m with meter }
      | (meter, .ok o) => .ok (m.followers index o) (m.after meter index o) := by
  have hmark := mark_run (s := s) hi
  unfold proceed Simulator.proceed
  rw [EStateM.run_bind, EStateM.run_get]
  dsimp only
  cases hb : (m.branch index).state with
  | sentinel x => rfl
  | named state =>
    dsimp only
    split_ifs with hhalt
    · rfl
    · rw [hb] at hmark
      rw [EStateM.run_bind, hmark]
      dsimp only
      cases hm : s.program.mode with
      | dfa =>
        have hunmarked : s.marked m.exploring (m.branch index) = m.branch index := by
          cases hexploring : m.exploring with
          | false => rfl
          | true =>
            rw [hx hexploring] at hm
            cases hm
        rw [hunmarked, replace_branch hi, transition_moves hm hb]
      | nfa =>
        have hstate : ((m.replace index (s.marked m.exploring (m.branch index))).branch
            index).state = .named state := by
          rw [branch_replace hi, Simulator.marked_state, hb]
        rw [transition_spreads hm (by rwa [size_replace]) hstate, branch_replace hi, size_replace,
          Simulator.spawns_marked]
        rfl

/-- **A step of a machine** is a step of the simulator, put in the place of the branch. -/
theorem step_run {m : Machine} (hx : m.exploring = true → s.program.mode = .nfa)
    (hi : index < m.branches.size) : (step s token index).run m =
      match s.step m.exploring token (m.branch index) m.meter with
      | (meter, .error e) => .error e { m with meter }
      | (meter, .ok o) => .ok (m.followers index o) (m.after meter index o) := by
  unfold step
  rw [EStateM.run_bind, tick_run, Simulator.step_eq, Simulator.act]
  split_ifs
  · rfl
  · dsimp only
    rw [EStateM.run_bind, check_run]
    cases s.tokenFault? token with
    | some e => rfl
    | none =>
      dsimp only
      rw [EStateM.run_bind, EStateM.run_get]
      dsimp only
      rw [EStateM.run_bind, executeAll_run]
      dsimp only [branch]
      rcases s.executeAll _ _ with ⟨meter, _ | e⟩
      · exact proceed_run (m := { m with meter }) hx hi
      · rfl

end Action

/-- **A step of a machine** is a step of the simulator, put in the place of the branch. -/
theorem step_eq {m : Machine} (hx : m.exploring = true → s.program.mode = .nfa)
    (hi : index < m.branches.size) : m.step s token index =
      match s.step m.exploring token (m.branch index) m.meter with
      | (meter, .error e) => ({ m with meter }, .error e)
      | (meter, .ok o) => (m.after meter index o, .ok (m.followers index o)) := by
  rw [step, Action.step_run hx hi]
  rcases s.step m.exploring token (m.branch index) m.meter with ⟨meter, e | o⟩ <;> rfl

/-! ### Operations -/

/-- The machines that operations on a fresh one lead to. -/
inductive Reached (s : Simulator) : Machine → Prop
  | fresh : Reached s {}
  | run {m : Machine} (h : Reached s m) (input : Option (List Token)) : Reached s (m.run s input).1
  | step {m : Machine} (h : Reached s m) (token : Token) {index : ℕ}
      (hi : index < m.branches.size) : Reached s (m.step s token index).1
  | start {m : Machine} (h : Reached s m) (b : Branch) : Reached s (m.add [b]).1
  | advance {m : Machine} (h : Reached s m) (index : ℕ) (e : Event) : Reached s (m.advance index e)
  | spawn {m : Machine} (h : Reached s m) (index : ℕ) (e : Event) : Reached s (m.spawn index e).1
  | resolve {m : Machine} (h : Reached s m) (state : Ref) (token : Token) :
      Reached s (m.resolve s state token).1
  | execute {m : Machine} (h : Reached s m) (c : Command) : Reached s (m.execute s c).1

/-- **Only machines in nondeterministic mode explore.** -/
theorem Reached.exploring {m : Machine} (h : Reached s m) :
    m.exploring = true → s.program.mode = .nfa := by
  induction h with
  | fresh => exact fun hx => by cases hx
  | @run m _ input ih =>
    intro hx
    rw [Machine.run] at hx
    dsimp only at hx
    cases hm : s.program.mode with
    | dfa => rw [hm] at hx; exact hm ▸ ih hx
    | nfa => rfl
  | @step m _ token index hi ih =>
    rw [step_eq ih hi]
    rcases s.step m.exploring token (m.branch index) m.meter with ⟨meter, e | o⟩ <;> exact ih
  | start _ _ ih => exact ih
  | advance _ _ _ ih => exact ih
  | spawn _ _ _ ih => exact ih
  | resolve _ _ _ ih => exact ih
  | execute _ _ ih => exact ih

/-- The destinations that a step of a branch resolves in rounds: none where the branch ends. -/
def resolved (m : Machine) (s : Simulator) (token : Token) (index : ℕ) : List Ref :=
  if (m.branch index).isStuck || s.halts (m.branch index).state then []
  else
    match (m.resolve s (m.branch index).state token).2 with
    | .ok r => r.destinations
    | .error _ => []

/-- In rounds a step of a branch that does not end resolves what is declared. -/
theorem resolved_of_nfa (hm : s.program.mode = .nfa) (m : Machine) (token : Token) (index : ℕ)
    (hstuck : (m.branch index).isStuck = false) (hhalt : s.halts (m.branch index).state = false) :
    m.resolved s token index = s.targets (m.branch index).state token := by
  rw [resolved, hstuck, hhalt, if_neg (by simp), resolve, Simulator.resolve, Simulator.targets]
  cases s.destinations? (m.branch index).state token with
  | none => rfl
  | some d =>
    dsimp only
    rw [hm]

/-- The branches that a step starts in rounds are those of the destinations that it resolves. -/
theorem children_of_step (hm : s.program.mode = .nfa) {m : Machine} {meter : Meter} {o : Outcome}
    (h : s.step m.exploring token (m.branch index) m.meter = (meter, .ok o)) :
    o.children = (m.resolved s token index).map fun d =>
      (m.branch index).spawn ⟨(m.branch index).state, token, d⟩ := by
  cases hstuck : (m.branch index).isStuck with
  | true =>
    obtain ⟨rfl, -⟩ := Simulator.step_stuck hstuck h
    rw [resolved, hstuck]
    rfl
  | false =>
    cases hhalt : s.halts (m.branch index).state with
    | true =>
      obtain ⟨-, -, m₁, -, hp⟩ := Simulator.step_ok h
      rw [Simulator.proceed_halts hhalt] at hp
      obtain rfl := Except.ok.inj (Prod.mk.inj hp).2
      rw [resolved, hhalt, Bool.or_true]
      rfl
    | false =>
      obtain ⟨rfl, -⟩ := Simulator.step_spreads hm hhalt hstuck h
      rw [resolved_of_nfa hm m token index hstuck hhalt]
      rfl

theorem toList_after (m : Machine) (meter : Meter) (index : ℕ) (o : Outcome) :
    (m.after meter index o).branches.toList =
      m.branches.toList.set index o.branch ++ o.children := by
  rw [after, toList_add, replace, Array.toList_setIfInBounds]

/-- **A step is atomic where it stops, and touches only its own branch.** Let operations on a fresh
machine have led to some machine. If a step of one of its branches stops, all branches stay as they
are, nothing is drawn, and the step has counted itself unless the budget is what stops it. If it
succeeds in nondeterministic mode, its branch stays at its place, all others stay as they are, and
each destination that is resolved starts a branch at the end, in order. If it succeeds in
deterministic mode no branch is started, and only its own changes: it stays at its place, or it
moves by one event. -/
theorem step_frame {m : Machine} (h : Reached s m) (hi : index < m.branches.size) (token : Token) :
    (∀ m' e, m.step s token index = (m', .error e) →
        m'.branches = m.branches ∧ m'.exploring = m.exploring ∧
          m'.meter.draws = m.meter.draws ∧
          ((e = .stepLimit s.options.maxSteps ∧ m'.meter.steps = m.meter.steps) ∨
            ((∀ limit, e ≠ .stepLimit limit) ∧ m'.meter.steps = m.meter.steps + 1))) ∧
      (s.program.mode = .nfa → ∀ m' indexes, m.step s token index = (m', .ok indexes) →
        ∃ b : Branch, b.place = (m.branch index).place ∧
          m'.branches.toList = m.branches.toList.set index b ++
            (m.resolved s token index).map fun d =>
              (m.branch index).spawn ⟨(m.branch index).state, token, d⟩) ∧
      (s.program.mode = .dfa → ∀ m' indexes, m.step s token index = (m', .ok indexes) →
        ∃ b : Branch, m'.branches.toList = m.branches.toList.set index b ∧
          (b.place = (m.branch index).place ∨
            ∃ d, b = (m.branch index).advance ⟨(m.branch index).state, token, d⟩)) := by
  have hstep := @step_eq s index token m h.exploring hi
  rcases hs : s.step m.exploring token (m.branch index) m.meter with ⟨meter, e | o⟩
  · rw [hs] at hstep
    rw [hstep]
    refine ⟨?_, fun _ m' indexes h => (by cases (Prod.mk.inj h).2),
      fun _ m' indexes h => (by cases (Prod.mk.inj h).2)⟩
    rintro m' e' hstop
    obtain ⟨rfl, he⟩ := Prod.mk.inj hstop
    obtain rfl := Except.error.inj he
    exact ⟨rfl, rfl, Simulator.step_error hs⟩
  · rw [hs] at hstep
    rw [hstep]
    refine ⟨fun m' e h => (by cases (Prod.mk.inj h).2), ?_, ?_⟩
    · rintro hm m' indexes hok
      obtain ⟨rfl, -⟩ := Prod.mk.inj hok
      refine ⟨o.branch, Simulator.place_step hm hs, ?_⟩
      rw [toList_after, children_of_step hm hs]
    · rintro hm m' indexes hok
      obtain ⟨rfl, -⟩ := Prod.mk.inj hok
      have hexploring : m.exploring = false := by
        cases hx : m.exploring with
        | false => rfl
        | true =>
          rw [h.exploring hx] at hm
          cases hm
      rw [hexploring] at hs
      refine ⟨o.branch, ?_⟩
      rw [toList_after]
      rcases Simulator.step_moves hm hs with ⟨-, rfl⟩ | ⟨-, rfl⟩ | ⟨-, -, d, -, rfl⟩
      · exact ⟨List.append_nil _, Or.inl rfl⟩
      · exact ⟨List.append_nil _, Or.inl rfl⟩
      · exact ⟨List.append_nil _, Or.inr ⟨d, rfl⟩⟩

/-- A program with a state from which a token leads two ways. -/
def fork : Simulator where
  program :=
    { alphabet := ["x"]
      states := Dict.ofList
        [("a", Dict.ofList [(.named "x", Dict.ofList [(.named "b", 1), (.null, 2)])]), ("b", ∅)]
      start := "a"
      accept := ["b"]
      mode := .nfa
      commands := ∅
      vars := ∅ }

/-- The machine after a run and the start of another branch. -/
def forked : Machine := (((({} : Machine).run fork (some [])).1.add [.start (.named "a")])).1

theorem step_frame_forked :
    Reached fork forked ∧ 1 < forked.branches.size ∧
      (∃ m', forked.step fork (.named "q") 1 = (m', .error (.unknownToken "q" ["x"])) ∧
        m'.branches = forked.branches ∧ m'.meter.steps = forked.meter.steps + 1) ∧
      ∃ m' indexes, forked.step fork (.named "x") 1 = (m', .ok indexes) ∧
        ∃ b : Branch, b.place = (forked.branch 1).place ∧
          m'.branches.toList = forked.branches.toList.set 1 b ++
            [(forked.branch 1).spawn ⟨.named "a", .named "x", .named "b"⟩,
              (forked.branch 1).spawn ⟨.named "a", .named "x", .null⟩] := by
  have hreached : Reached fork forked := .start (.run .fresh _) _
  have hi : 1 < forked.branches.size := by decide +kernel
  refine ⟨hreached, hi, ?_, ?_⟩
  · have hstop := (step_frame hreached hi (.named "q")).1
    have hresult : (forked.step fork (.named "q") 1).2 = .error (.unknownToken "q" ["x"]) := by
      decide +kernel
    obtain ⟨hbranches, -, -, hsteps⟩ := hstop _ _ (Prod.ext rfl hresult)
    refine ⟨_, Prod.ext rfl hresult, hbranches, ?_⟩
    rcases hsteps with ⟨he, -⟩ | ⟨-, hsteps⟩
    · cases he
    · exact hsteps
  · have hspread := (step_frame hreached hi (.named "x")).2.1 rfl
    have hresult : (forked.step fork (.named "x") 1).2 = .ok [2, 3] := by decide +kernel
    have hresolved : forked.resolved fork (.named "x") 1 = [.named "b", .null] := by decide +kernel
    obtain ⟨b, hplace, hbranches⟩ := hspread _ _ (Prod.ext rfl hresult)
    have hstate : (forked.branch 1).state = .named "a" := by decide +kernel
    rw [hresolved, hstate] at hbranches
    exact ⟨_, _, Prod.ext rfl hresult, b, hplace, hbranches⟩

end Machine

end FiniteAutomata
