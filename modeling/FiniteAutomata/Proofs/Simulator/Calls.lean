import FiniteAutomata.Proofs.Simulator.Course

/-! # The calls of a run

A run does what it does by calling steps: it applies a token to a branch, with what the meter shows
by then (`Call`). The calls of a run, in order, are computed along its walk or its rounds (`calls`).
They are made one after the other: each starts from the meter that the one before has left, and the
last one leaves the meter of the run (`chain_calls`). In nondeterministic mode the branches of a run
stand where its start and the branches that its calls have started stand (`places_calls`). -/

namespace FiniteAutomata

/-- A call of a step: the token, the branch that it is applied to, and what the meter shows. -/
structure Call where
  exploring : Bool
  token : Token
  branch : Branch
  meter : Meter
deriving DecidableEq, Repr

namespace Simulator

variable {s : Simulator}

/-- What a call comes to. -/
def answer (s : Simulator) (c : Call) : Meter × Except Stop Outcome :=
  s.step c.exploring c.token c.branch c.meter

/-- The branches that a call starts. -/
def startedBy (s : Simulator) (c : Call) : List Branch :=
  match (s.answer c).2 with
  | .ok o => o.children
  | .error _ => []

/-- Calls made one after the other, from a meter to a meter. -/
def Chain (s : Simulator) : Meter → List Call → Meter → Prop
  | m, [], m' => m' = m
  | m, c :: rest, m' => c.meter = m ∧ s.Chain (s.answer c).1 rest m'

theorem Chain.append : ∀ {calls calls' : List Call} {m m' m'' : Meter}, s.Chain m calls m' →
    s.Chain m' calls' m'' → s.Chain m (calls ++ calls') m''
  | [], _, _, _, _, h, h' => by
    obtain rfl := h
    exact h'
  | _ :: _, _, _, _, _, h, h' => ⟨h.1, h.2.append h'⟩

/-! ### The calls of each part of a run -/

/-- The calls of a walk, up to the one that is stopped or ends the branch. -/
def walkCalls (s : Simulator) : List Token → Branch → Meter → List Call
  | [], _, _ => []
  | token :: rest, b, m =>
    if b.isLive then
      ⟨false, token, b, m⟩ ::
        match s.step false token b m with
        | (_, .error _) => []
        | (m, .ok o) => s.walkCalls rest o.branch m
    else []

/-- The calls that try tokens at a branch, up to the one that is stopped or ends the branch. -/
def tryCalls (s : Simulator) (exploring : Bool) : List Token → Branch → Meter → List Call
  | [], _, _ => []
  | token :: rest, b, m =>
    ⟨exploring, token, b, m⟩ ::
      match s.step exploring token b m with
      | (_, .error _) => []
      | (m, .ok o) => if o.branch.terminated then [] else s.tryCalls exploring rest o.branch m

/-- The calls of a visit: none at a sentinel. -/
def visitCalls (s : Simulator) (offer : Offer) (b : Branch) (m : Meter) : List Call :=
  if b.isStuck then [] else s.tryCalls offer.explores (offer.tokens s.program b.state) b m

/-- The calls of the visits of a frontier, up to the visit that is stopped. -/
def roundCalls (s : Simulator) (offer : Offer) : List Branch → Meter → List Call
  | [], _ => []
  | b :: rest, m =>
    s.visitCalls offer b m ++
      match s.visit offer b m with
      | (_, ⟨_, _, some _⟩) => []
      | (m, ⟨_, _, none⟩) => s.roundCalls offer rest m

/-- The calls of the rounds over the tokens of an input. -/
def consumeCalls (s : Simulator) : List Token → Array Branch → Meter → List Call
  | [], _, _ => []
  | token :: rest, frontier, m =>
    s.roundCalls (.next token) frontier.toList m ++
      match s.round (.next token) frontier m with
      | (_, ⟨_, _, some _⟩) => []
      | (m, ⟨_, started, none⟩) => s.consumeCalls rest started m

/-- The calls of at most `fuel` rounds without an input. -/
def exploreCalls (s : Simulator) : (fuel : Nat) → Array Branch → Meter → List Call
  | 0, _, _ => []
  | fuel + 1, frontier, m =>
    s.roundCalls .every frontier.toList m ++
      match s.round .every frontier m with
      | (_, ⟨_, _, some _⟩) => []
      | (m, ⟨_, started, none⟩) => if started.isEmpty then [] else s.exploreCalls fuel started m

/-- **The calls of a run**, in order. -/
def calls (s : Simulator) (input : Option (List Token)) : List Call :=
  let root := Branch.start (.named s.program.start)
  match s.program.mode, input with
  | .dfa, none => []
  | .dfa, some tokens => s.walkCalls tokens root {}
  | .nfa, none => s.exploreCalls (s.options.maxSteps + 1) #[root] {}
  | .nfa, some tokens => s.consumeCalls tokens #[root] {}

/-! ### Calls are made one after the other -/

theorem chain_walkCalls : ∀ (tokens : List Token) (b : Branch) (m : Meter),
    s.Chain m (s.walkCalls tokens b m) (s.walk tokens b m).1
  | [], _, _ => rfl
  | token :: rest, b, m => by
    rw [walkCalls, walk]
    split_ifs
    · refine ⟨rfl, ?_⟩
      have hanswer : s.answer ⟨false, token, b, m⟩ = s.step false token b m := rfl
      rw [hanswer]
      rcases s.step false token b m with ⟨m₁, e | o⟩
      · exact rfl
      · exact chain_walkCalls rest o.branch m₁
    · exact rfl

theorem chain_tryCalls (exploring : Bool) : ∀ (tokens : List Token) (b : Branch) (m : Meter),
    s.Chain m (s.tryCalls exploring tokens b m) (s.tryTokens exploring tokens b m).1
  | [], _, _ => rfl
  | token :: rest, b, m => by
    rw [tryCalls, tryTokens]
    refine ⟨rfl, ?_⟩
    have hanswer : s.answer ⟨exploring, token, b, m⟩ = s.step exploring token b m := rfl
    rw [hanswer]
    rcases s.step exploring token b m with ⟨m₁, e | o⟩
    · exact rfl
    · dsimp only
      split_ifs
      · exact rfl
      · exact chain_tryCalls exploring rest o.branch m₁

theorem chain_visitCalls (offer : Offer) (b : Branch) (m : Meter) :
    s.Chain m (s.visitCalls offer b m) (s.visit offer b m).1 := by
  unfold visitCalls visit
  split_ifs
  · exact rfl
  · exact chain_tryCalls _ _ _ _

theorem chain_roundCalls (offer : Offer) : ∀ (frontier : List Branch) (r : Round) (m : Meter),
    s.Chain m (s.roundCalls offer frontier m) (s.visitAll offer frontier r m).1
  | [], _, _ => rfl
  | b :: rest, r, m => by
    have hvisit := chain_visitCalls (s := s) offer b m
    rw [roundCalls, visitAll]
    rcases hv : s.visit offer b m with ⟨m₁, branch, children, _ | e⟩ <;> rw [hv] at hvisit
    · exact hvisit.append (chain_roundCalls offer rest _ m₁)
    · exact hvisit.append rfl

theorem chain_consumeCalls : ∀ (tokens : List Token) (before frontier : Array Branch) (m : Meter),
    s.Chain m (s.consumeCalls tokens frontier m) (s.consume before tokens frontier m).meter
  | [], _, _, _ => rfl
  | token :: rest, before, frontier, m => by
    have hround := chain_roundCalls (s := s) (.next token) frontier.toList {} m
    rw [← round] at hround
    rw [consumeCalls, consume]
    rcases hr : s.round (.next token) frontier m with ⟨m₁, visited, started, _ | e⟩ <;>
      rw [hr] at hround
    · exact hround.append (chain_consumeCalls rest _ started m₁)
    · exact hround.append rfl

theorem chain_exploreCalls : ∀ (fuel : Nat) (before frontier : Array Branch) (m : Meter),
    s.Chain m (s.exploreCalls fuel frontier m) (s.explore before fuel frontier m).meter
  | 0, _, _, _ => rfl
  | fuel + 1, before, frontier, m => by
    have hround := chain_roundCalls (s := s) .every frontier.toList {} m
    rw [← round] at hround
    rw [exploreCalls, explore]
    rcases hr : s.round .every frontier m with ⟨m₁, visited, started, _ | e⟩ <;>
      rw [hr] at hround
    · dsimp only
      split_ifs
      · exact hround.append rfl
      · exact hround.append (chain_exploreCalls fuel _ started m₁)
    · exact hround.append rfl

/-- **The calls of a run are made one after the other**, and with the last one the run is over. -/
theorem chain_calls (s : Simulator) (input : Option (List Token)) :
    s.Chain {} (s.calls input) (s.run input).meter := by
  unfold calls run runFrom
  cases s.program.mode with
  | dfa =>
    cases input with
    | none => exact rfl
    | some tokens =>
      have hwalk := chain_walkCalls (s := s) tokens (.start (.named s.program.start)) {}
      rw [runDeterministic]
      rcases h : s.walk tokens (.start (.named s.program.start)) {} with ⟨m, b, _ | e⟩ <;>
        rwa [h] at hwalk
  | nfa =>
    cases input with
    | none => exact chain_exploreCalls _ _ _ _
    | some tokens => exact chain_consumeCalls _ _ _ _

/-! ### What calls start -/

theorem children_tryTokens (exploring : Bool) : ∀ (tokens : List Token) (b : Branch) (m : Meter),
    (s.tryTokens exploring tokens b m).2.children =
      (s.tryCalls exploring tokens b m).flatMap s.startedBy
  | [], _, _ => rfl
  | token :: rest, b, m => by
    rw [tryTokens, tryCalls, List.flatMap_cons, startedBy, answer]
    rcases s.step exploring token b m with ⟨m₁, e | o⟩
    · rfl
    · dsimp only
      split_ifs
      · simp
      · rw [← children_tryTokens exploring rest o.branch m₁]

theorem children_visit (offer : Offer) (b : Branch) (m : Meter) :
    (s.visit offer b m).2.children = (s.visitCalls offer b m).flatMap s.startedBy := by
  unfold visit visitCalls
  split_ifs
  · rfl
  · exact children_tryTokens _ _ _ _

theorem started_roundCalls (offer : Offer) : ∀ (frontier : List Branch) (r : Round) (m : Meter),
    (s.visitAll offer frontier r m).2.started.toList =
      r.started.toList ++ (s.roundCalls offer frontier m).flatMap s.startedBy
  | [], _, _ => by simp [visitAll, roundCalls]
  | b :: rest, r, m => by
    have hchildren := children_visit (s := s) offer b m
    rw [roundCalls, visitAll, List.flatMap_append, ← hchildren]
    rcases s.visit offer b m with ⟨m₁, branch, children, _ | e⟩
    · simp [started_roundCalls offer rest]
    · simp

/-- Where the branches of a round stand: where its frontier and the branches that it starts do. -/
theorem places_roundCalls (hm : s.program.mode = .nfa) (offer : Offer)
    (before frontier : Array Branch) {m m' : Meter} {r : Round}
    (h : s.round offer frontier m = (m', r)) :
    (before ++ r.visited ++ r.started).toList.map Branch.place =
      (before ++ frontier).toList.map Branch.place ++
        ((s.roundCalls offer frontier.toList m).flatMap s.startedBy).map Branch.place := by
  have hvisited := places_round hm offer frontier m
  have hstarted := started_roundCalls (s := s) offer frontier.toList {} m
  rw [← round, h] at hstarted
  rw [h] at hvisited
  simp only [List.nil_append] at hstarted
  simp [hvisited, hstarted]

theorem places_consumeCalls (hm : s.program.mode = .nfa) :
    ∀ (before : Array Branch) (tokens : List Token) (frontier : Array Branch) (m : Meter),
      (s.consume before tokens frontier m).places =
        (before ++ frontier).toList.map Branch.place ++
          ((s.consumeCalls tokens frontier m).flatMap s.startedBy).map Branch.place
  | before, [], frontier, m => by
    simp [consume, consumeCalls, Run.places, places_settleAll]
  | before, token :: rest, frontier, m => by
    rw [consume, consumeCalls, List.flatMap_append, List.map_append, ← List.append_assoc]
    rcases hr : s.round (.next token) frontier m with ⟨m₁, visited, started, _ | e⟩ <;>
      rw [← places_roundCalls hm (.next token) before frontier hr]
    · exact places_consumeCalls hm (before ++ visited) rest started m₁
    · simp [Run.places]

theorem places_exploreCalls (hm : s.program.mode = .nfa) :
    ∀ (before : Array Branch) (fuel : Nat) (frontier : Array Branch) (m : Meter),
      (s.explore before fuel frontier m).places =
        (before ++ frontier).toList.map Branch.place ++
          ((s.exploreCalls fuel frontier m).flatMap s.startedBy).map Branch.place
  | before, 0, frontier, m => by simp [explore, exploreCalls, Run.places]
  | before, fuel + 1, frontier, m => by
    rw [explore, exploreCalls, List.flatMap_append, List.map_append, ← List.append_assoc]
    rcases hr : s.round .every frontier m with ⟨m₁, visited, started, _ | e⟩ <;>
      rw [← places_roundCalls hm .every before frontier hr]
    · dsimp only
      split_ifs with hempty
      · simp [Run.places, Array.isEmpty_iff.mp hempty]
      · exact places_exploreCalls hm (before ++ visited) fuel started m₁
    · simp [Run.places]

/-- **The branches of a run in rounds are its start and what its calls start**, in this order. -/
theorem places_calls (hm : s.program.mode = .nfa) (input : Option (List Token)) :
    (s.run input).places = (Branch.start (.named s.program.start)).place ::
      ((s.calls input).flatMap s.startedBy).map Branch.place := by
  unfold calls run runFrom
  rw [hm]
  cases input with
  | none => exact places_exploreCalls hm #[] _ _ _
  | some tokens => exact places_consumeCalls hm #[] _ _ _

end Simulator

end FiniteAutomata
