import FiniteAutomata.Proofs.Dict
import FiniteAutomata.Proofs.Simulator.Mirrors
import FiniteAutomata.Proofs.Simulator.Reordered

/-! # States under other names

A program under a renaming has the same tables, with other names on its states (`Program.rename`).
Names that stay different are found where they were, the sentinels are not renamed, and no name is
taken for a sentinel, whatever its text. So each step under the other names is the step it was
(`proceed_renamed`), and the simulator of the renamed program mirrors the one there was
(`mirrors_renamed`): its runs are the same, with the other names in them (`run_renamed`). -/

namespace FiniteAutomata

/-! ### References -/

/-- A reference under a renaming; the sentinels stay. -/
def Ref.rename (f : String → String) : Ref → Ref
  | .named name => .named (f name)
  | .sentinel x => .sentinel x

/-- A renaming keeps different references apart. -/
def Ref.renaming (f : String ↪ String) : Ref ↪ Ref where
  toFun := Ref.rename f
  inj' := by
    rintro (name | x) (name' | x') h
    · rw [f.injective (Ref.named.inj h)]
    · cases h
    · cases h
    · exact h

theorem Ref.coe_renaming (f : String ↪ String) : ⇑(Ref.renaming f) = Ref.rename f := rfl

/-- A stop whose report names another state. -/
def Stop.rename (f : String → String) : Stop → Stop
  | .undefinedTransition state token => .undefinedTransition (f state) token
  | e => e

/-! ### Choices -/

namespace Choice

variable {α β : Type} (f : α → β)

theorem total_map_fst (entries : List (α × Float)) :
    total (entries.map fun e => (f e.1, e.2)) = total entries := by
  simp [total, List.foldl_map]

theorem walk_map_fst (fallback : α) : ∀ (value : Float) (entries : List (α × Float)),
    walk (f fallback) value (entries.map fun e => (f e.1, e.2)) = f (walk fallback value entries)
  | _, [] => rfl
  | value, (a, weight) :: rest => by
    simp only [List.map_cons, walk]
    split_ifs
    · rfl
    · exact walk_map_fst fallback (value - weight) rest

theorem pick?_map_fst (entries : List (α × Float)) (draw : Float) :
    pick? (entries.map fun e => (f e.1, e.2)) draw = (pick? entries draw).map f := by
  rw [pick?, pick?, List.getLast?_map, total_map_fst]
  cases entries.getLast? with
  | none => rfl
  | some last => exact congrArg some (walk_map_fst f last.1 _ entries)

/-- **The choice does not depend on what is chosen from**, but for the weights. -/
theorem choose?_map_fst (entries : List (α × Float)) (draw : Float) :
    choose? (entries.map fun e => (f e.1, e.2)) draw = (choose? entries draw).map f := by
  match entries with
  | [] => rfl
  | [(a, weight)] => rfl
  | e :: e' :: rest => exact pick?_map_fst f (e :: e' :: rest) draw

end Choice

/-! ### Programs -/

namespace Program

variable (f : String ↪ String) (p : Program)

/-- A table whose destinations are renamed. -/
def renameTable (t : Table) : Table := t.map fun _ d => d.mapKeys (Ref.renaming f)

/-- The program under a renaming of its states. -/
def rename : Program :=
  { p with
    states := (p.states.map fun _ t => renameTable f t).mapKeys f
    start := f p.start
    accept := p.accept.map f
    commands := p.commands.mapKeys f }

theorem table_rename (state : Ref) :
    (p.rename f).table (state.rename f) = renameTable f (p.table state) := by
  cases state with
  | sentinel x => rfl
  | named name =>
    have hfind : (p.rename f).states.find? (f name) =
        (p.states.find? name).map (renameTable f) := by
      rw [rename, Dict.find?_mapKeys, Dict.find?_map]
    rw [Ref.rename, table, table, hfind]
    cases p.states.find? name <;> rfl

theorem accepts_rename (state : Ref) : (p.rename f).accepts (state.rename f) = p.accepts state := by
  cases state with
  | sentinel x => rfl
  | named name =>
    rw [Ref.rename, accepts, accepts, rename, Bool.eq_iff_iff, List.contains_iff_mem,
      List.contains_iff_mem, List.mem_map_of_injective f.injective]

theorem commandsAt_rename (state : Ref) :
    (p.rename f).commandsAt (state.rename f) = p.commandsAt state := by
  cases state with
  | sentinel x => rfl
  | named name => rw [Ref.rename, commandsAt, commandsAt, rename, Dict.find?_mapKeys]

theorem mem_states_rename {name : String} : f name ∈ (p.rename f).states ↔ name ∈ p.states := by
  rw [rename, Dict.mem_mapKeys, Dict.mem_iff_mem_keys, Dict.keys_map, ← Dict.mem_iff_mem_keys]

/-- Renamed destinations are known if and only if they were. -/
theorem validDestinations_rename {d : Destinations} :
    (p.rename f).ValidDestinations (d.mapKeys (Ref.renaming f)) ↔ p.ValidDestinations d := by
  have hnonempty : (d.mapKeys (Ref.renaming f)).entries ≠ [] ↔ d.entries ≠ [] := by
    simp [Dict.mapKeys]
  have hweights : (∀ e ∈ (d.mapKeys (Ref.renaming f)).entries, isWeight e.2 = true) ↔
      ∀ e ∈ d.entries, isWeight e.2 = true := d.forall_mem_mapKeys (Ref.renaming f)
  have hknown : (∀ e ∈ (d.mapKeys (Ref.renaming f)).entries, ∀ name, e.1 = .named name →
        name ∈ (p.rename f).states) ↔
      ∀ e ∈ d.entries, ∀ name, e.1 = .named name → name ∈ p.states := by
    rw [d.forall_mem_mapKeys]
    refine forall₂_congr fun e _ => ?_
    cases e.1 with
    | sentinel x => simp [Ref.coe_renaming, Ref.rename]
    | named name => simp [Ref.coe_renaming, Ref.rename, p.mem_states_rename f]
  exact ⟨fun h => ⟨hnonempty.mp h.nonempty, hweights.mp h.weights, hknown.mp h.known⟩,
    fun h => ⟨hnonempty.mpr h.nonempty, hweights.mpr h.weights, hknown.mpr h.known⟩⟩

/-- **A program is valid under a renaming if and only if it was.** -/
theorem valid_rename : (p.rename f).Valid ↔ p.Valid := by
  have hstart : (p.rename f).start ∈ (p.rename f).states ↔ p.start ∈ p.states :=
    p.mem_states_rename f
  have haccept : (∀ state ∈ (p.rename f).accept, state ∈ (p.rename f).states) ↔
      ∀ state ∈ p.accept, state ∈ p.states :=
    List.forall_mem_map.trans (forall₂_congr fun _ _ => p.mem_states_rename f)
  have hdestinations : (∀ s ∈ (p.rename f).states.entries, ∀ t ∈ s.2.entries,
        (p.rename f).ValidDestinations t.2) ↔
      ∀ s ∈ p.states.entries, ∀ t ∈ s.2.entries, p.ValidDestinations t.2 := by
    refine (Dict.forall_mem_mapKeys _ f).trans ((Dict.forall_mem_map _).trans ?_)
    refine forall₂_congr fun s _ => (Dict.forall_mem_map _).trans ?_
    exact forall₂_congr fun t _ => p.validDestinations_rename f
  exact ⟨fun h => ⟨hstart.mp h.start, haccept.mp h.accept, hdestinations.mp h.destinations⟩,
    fun h => ⟨hstart.mpr h.start, haccept.mpr h.accept, hdestinations.mpr h.destinations⟩⟩

end Program

namespace Simulator

variable (s : Simulator) (f : String ↪ String)

/-! ### Steps -/

/-- The simulator of the program under a renaming. -/
def renamed : Simulator := s.withProgram (s.program.rename f)

/-- What a simulator does, under a renaming. -/
def View.renamed : View := ⟨Ref.rename f, id, Stop.rename f⟩

theorem destinations?_renamed (state : Ref) (token : Token) :
    (s.renamed f).destinations? (state.rename f) token =
      (s.destinations? state token).map fun d => d.mapKeys (Ref.renaming f) := by
  have htable : (s.renamed f).program.table (state.rename f) =
      Program.renameTable f (s.program.table state) := s.program.table_rename f state
  rw [destinations?, htable, Program.renameTable, Dict.find?_map]
  rfl

theorem choose_renamed (d : Destinations) (m : Meter) :
    (s.renamed f).choose (d.mapKeys (Ref.renaming f)) m =
      ((s.choose d m).1, (s.choose d m).2.map (Ref.rename f)) := by
  have hchoice : Choice.choose? (d.mapKeys (Ref.renaming f)).entries ((s.renamed f).draw m.draws) =
      (Choice.choose? d.entries (s.draw m.draws)).map (Ref.rename f) :=
    Choice.choose?_map_fst (Ref.rename f) d.entries _
  have hdraws : Choice.draws (d.mapKeys (Ref.renaming f)).entries = Choice.draws d.entries := by
    simp [Choice.draws, Dict.mapKeys]
  rw [choose, choose, hchoice, hdraws]
  cases Choice.choose? d.entries (s.draw m.draws) <;> rfl

theorem targets_renamed (state : Ref) (token : Token) :
    (s.renamed f).targets (state.rename f) token =
      (s.targets state token).map (Ref.rename f) := by
  rw [targets, targets, destinations?_renamed]
  cases s.destinations? state token with
  | none => rfl
  | some d => exact d.keys_mapKeys (Ref.renaming f)

theorem spawns_renamed (token : Token) (b : Branch) :
    (s.renamed f).spawns token (b.mapStates (Ref.rename f)) =
      (s.spawns token b).map (Branch.mapStates (Ref.rename f)) := by
  have htargets : (s.renamed f).targets (b.mapStates (Ref.rename f)).state token =
      (s.targets b.state token).map (Ref.rename f) := s.targets_renamed f b.state token
  rw [spawns, spawns, htargets, List.map_map, List.map_map]
  rfl

theorem marked_renamed (exploring : Bool) (b : Branch) :
    (s.renamed f).marked exploring (b.mapStates (Ref.rename f)) =
      (s.marked exploring b).mapStates (Ref.rename f) := by
  have haccepts : (s.renamed f).program.accepts (b.mapStates (Ref.rename f)).state =
      s.program.accepts b.state := s.program.accepts_rename f b.state
  rw [marked, marked, haccepts]
  split_ifs <;> rfl

theorem move_renamed (state : String) (token : Token) (b : Branch) (m : Meter) :
    (s.renamed f).move (f state) token (b.mapStates (Ref.rename f)) m =
      (View.renamed f).step (s.move state token b m) := by
  have hdestinations : (s.renamed f).destinations? (b.mapStates (Ref.rename f)).state token =
      (s.destinations? b.state token).map fun d => d.mapKeys (Ref.renaming f) :=
    s.destinations?_renamed f b.state token
  have hnull : (s.renamed f).options.autoNull = s.options.autoNull := rfl
  rw [move, move, hdestinations, hnull]
  cases s.destinations? b.state token with
  | none =>
    dsimp only [Option.map_none]
    split_ifs <;> rfl
  | some d =>
    dsimp only [Option.map_some]
    rw [choose_renamed]
    rcases hc : s.choose d m with ⟨m₁, e | destination⟩
    · obtain ⟨rfl, -⟩ := stop_of_choose (congrArg Prod.snd hc)
      rfl
    · rfl

/-- **A transition under other names** is the transition that it was. -/
theorem proceed_renamed (exploring : Bool) (token : Token) (b : Branch) (m : Meter) :
    (s.renamed f).proceed exploring token (b.mapStates (Ref.rename f)) m =
      (View.renamed f).step (s.proceed exploring token b m) := by
  have haccepts : (s.renamed f).program.accepts (b.mapStates (Ref.rename f)).state =
      s.program.accepts b.state := s.program.accepts_rename f b.state
  have hmode : (s.renamed f).program.mode = s.program.mode := rfl
  have hstop : (s.renamed f).options.stopOnAccept = s.options.stopOnAccept := rfl
  cases hb : b.state with
  | sentinel x =>
    have hb' : (b.mapStates (Ref.rename f)).state = .sentinel x := by
      simp [Branch.mapStates, hb, Ref.rename]
    rw [proceed, proceed, hb, hb']
    rfl
  | named name =>
    have hb' : (b.mapStates (Ref.rename f)).state = .named (f name) := by
      simp [Branch.mapStates, hb, Ref.rename]
    rw [hb, hb'] at haccepts
    simp only [proceed, hb, hb', haccepts, hmode, hstop]
    split_ifs
    · rfl
    · rw [marked_renamed, spawns_renamed]
      cases s.program.mode with
      | dfa => exact s.move_renamed f name token (s.marked exploring b) m
      | nfa => rfl

/-- What stops a step before its transition names no state. -/
theorem rename_of_stop_of_executeAll {cs : List Command} {m : Meter} {e : Stop}
    (h : (s.executeAll cs m).2 = some e) : e.rename f = e := by
  rcases stop_of_executeAll cs m h with ⟨rfl, -⟩ | ⟨c, -, rfl, -⟩ <;> rfl

theorem rename_of_tokenFault? {token : Token} {e : Stop} (h : s.tokenFault? token = some e) :
    e.rename f = e := by
  cases token with
  | sentinel x => cases h
  | named name =>
    rw [tokenFault?] at h
    split_ifs at h
    obtain rfl := Option.some.inj h
    rfl

theorem act_renamed (exploring : Bool) (token : Token) (b : Branch) (m : Meter) :
    (s.renamed f).act exploring token (b.mapStates (Ref.rename f)) m =
      (View.renamed f).step (s.act exploring token b m) := by
  have hfault : (s.renamed f).tokenFault? token = s.tokenFault? token := rfl
  have hcommands : (s.renamed f).program.commandsAt (b.mapStates (Ref.rename f)).state =
      s.program.commandsAt b.state := s.program.commandsAt_rename f b.state
  have hexecute : (s.renamed f).executeAll (s.program.commandsAt b.state) m =
      s.executeAll (s.program.commandsAt b.state) m :=
    executeAll_congr (s := s.renamed f) (t := s) rfl rfl _ m
  rw [act, act, hfault, hcommands, hexecute]
  cases hf : s.tokenFault? token with
  | some e =>
    have he : e.rename f = e := s.rename_of_tokenFault? f hf
    simp [View.step, View.renamed, Except.mapError, Except.map, he]
  | none =>
    rcases hx : s.executeAll (s.program.commandsAt b.state) m with ⟨m₁, _ | e⟩
    · exact s.proceed_renamed f exploring token b m₁
    · have he : e.rename f = e := s.rename_of_stop_of_executeAll f (congrArg Prod.snd hx)
      simp [View.step, View.renamed, Except.mapError, Except.map, he]

/-! ### Runs -/

/-- **The simulator of a renamed program mirrors the one of the program.** -/
theorem mirrors_renamed : Mirrors (View.renamed f) s (s.renamed f) where
  mode := rfl
  start := rfl
  accepts := s.program.accepts_rename f
  sentinels state := by cases state <;> rfl
  tokens state := by
    have htable : (s.renamed f).program.table ((View.renamed f).state state) =
        Program.renameTable f (s.program.table state) := s.program.table_rename f state
    rw [htable, Program.renameTable, Dict.keys_map]
  budget := rfl
  fresh := rfl
  counted _ _ := rfl
  missing := rfl
  limit _ := rfl
  act := s.act_renamed f

/-- **Runs do not depend on the names of states.** Under a renaming that keeps them apart, the runs
of a program are the runs that it had, with the other names in their branches, their events and
their stops, and the program is valid if it was. No name is special, whatever its text. -/
theorem run_renamed (s : Simulator) (f : String ↪ String) (input : Option (List Token)) :
    (s.withProgram (s.program.rename f)).run input =
        { branches := (s.run input).branches.map (Branch.mapStates (Ref.rename f))
          meter := (s.run input).meter
          stop := (s.run input).stop.map (Stop.rename f) } ∧
      ((s.program.rename f).Valid ↔ s.program.Valid) :=
  ⟨(s.mirrors_renamed f).run input, s.program.valid_rename f⟩


end Simulator

end FiniteAutomata
