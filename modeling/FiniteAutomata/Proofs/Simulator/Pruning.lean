import FiniteAutomata.Proofs.Simulator.Course

/-! # Stopping at accept states

A run that is told to stop at accept states against the same run that goes on there. A path is kept
if no proper prefix of it ends in an accept state (`Program.keeps`). The run that stops has exactly
the kept branches of the other one, in the same order (`Course.stopping`); in deterministic mode its
path is the first prefix that ends in an accept state (`walk_stopping`). All it does the other one
does too, with no less on the meter (`Meter.Below`), so it cannot fail where that does not. -/

namespace FiniteAutomata

/-! ### Accept states along a path -/

namespace Program

variable {p : Program} {path : List Event}

/-- The state in which a path from the start ends. -/
def endOf (p : Program) (path : List Event) : Ref :=
  match path.getLast? with
  | none => .named p.start
  | some e => e.destination

/-- Whether a path from the start ends in an accept state. -/
def acceptsPath (p : Program) (path : List Event) : Bool := p.accepts (p.endOf path)

/-- Whether no proper prefix of a path from the start ends in an accept state. -/
def keeps (p : Program) (path : List Event) : Bool :=
  path.inits.dropLast.all fun q => !p.acceptsPath q

/-- The shortest prefix of a path that ends in an accept state. -/
def firstAccepted? (p : Program) (path : List Event) : Option (List Event) :=
  path.inits.find? p.acceptsPath

@[simp] theorem endOf_nil : p.endOf [] = .named p.start := rfl

@[simp] theorem endOf_append (path : List Event) (e : Event) :
    p.endOf (path ++ [e]) = e.destination := by
  simp [endOf]

/-- The prefixes of a path are the proper ones and the path itself. -/
theorem inits_eq (path : List Event) : path.inits = path.inits.dropLast ++ [path] := by
  rcases List.eq_nil_or_concat path with rfl | ⟨q, e, rfl⟩
  · rfl
  · simp [List.inits_append]

@[simp] theorem keeps_nil : p.keeps [] = true := rfl

@[simp] theorem keeps_append (path : List Event) (e : Event) :
    p.keeps (path ++ [e]) = (p.keeps path && !p.acceptsPath path) := by
  have hproper : (path ++ [e]).inits.dropLast = path.inits.dropLast ++ [path] := by
    rw [← inits_eq, List.inits_append]
    simp
  rw [keeps, hproper, List.all_append]
  simp [keeps]

/-- What it means that a path is kept. -/
theorem keeps_iff : p.keeps path = true ↔
    ∀ q, q <+: path → q ≠ path → p.acceptsPath q = false := by
  induction path using List.reverseRecOn with
  | nil => simp
  | append_singleton path e ih =>
    rw [keeps_append, Bool.and_eq_true, ih, Bool.not_eq_true']
    constructor
    · rintro ⟨hbefore, hpath⟩ q hq hne
      rcases List.prefix_concat_iff.mp hq with rfl | hq
      · exact absurd rfl hne
      · by_cases hqp : q = path
        · exact hqp ▸ hpath
        · exact hbefore q hq hqp
    · intro h
      refine ⟨fun q hq _ => h q (hq.trans (List.prefix_append _ _)) ?_, h path ?_ (by simp)⟩
      · rintro rfl
        simpa using hq.length_le
      · exact List.prefix_append _ _

theorem firstAccepted?_of_keeps (hk : p.keeps path = true) :
    p.firstAccepted? path = if p.acceptsPath path then some path else none := by
  have hproper : path.inits.dropLast.find? p.acceptsPath = none := by
    simpa [keeps] using hk
  rw [firstAccepted?, inits_eq, List.find?_append, hproper]
  cases h : p.acceptsPath path <;> simp [h]

/-- A kept path that ends in an accept state is the first such prefix of every path that goes on
from it. -/
theorem firstAccepted?_of_prefix {path' : List Event} (hk : p.keeps path = true)
    (ha : p.acceptsPath path = true) (hp : path <+: path') :
    p.firstAccepted? path' = some path := by
  obtain ⟨rest, rfl⟩ := hp
  have hfirst := firstAccepted?_of_keeps hk
  rw [ha, if_pos rfl, firstAccepted?] at hfirst
  rw [firstAccepted?, List.inits_append, List.find?_append, hfirst]
  rfl

/-- A kept path is as long as it gets before an accept state, or up to one. -/
theorem getD_firstAccepted? (hk : p.keeps path = true) :
    (p.firstAccepted? path).getD path = path := by
  rw [firstAccepted?_of_keeps hk]
  split_ifs <;> rfl

end Program

/-! ### Meters below each other -/

/-- A meter that leaves no less room than another one: as many steps and prompts at most. -/
structure Meter.Below (m' m : Meter) : Prop where
  steps : m'.steps ≤ m.steps
  prompts : m'.prompts ≤ m.prompts

theorem Meter.Below.refl (m : Meter) : m.Below m := ⟨Nat.le_refl _, Nat.le_refl _⟩

theorem Meter.Below.grows {m' m m₁ : Meter} (h : m'.Below m) (hg : m.Grows m₁) : m'.Below m₁ :=
  ⟨Nat.le_trans h.steps hg.steps, Nat.le_trans h.prompts hg.prompts⟩

namespace Simulator

variable {s : Simulator}

/-- The simulator told to stop at accept states. -/
def stopping (s : Simulator) : Simulator :=
  { s with options := { s.options with stopOnAccept := true } }

/-! ### Steps -/

theorem execute_below {c : Command} {m' m m₁ : Meter} (hb : m'.Below m)
    (h : s.execute c m = (m₁, none)) : ∃ m₁', s.execute c m' = (m₁', none) ∧ m₁'.Below m₁ := by
  unfold execute at h ⊢
  split_ifs at h with hlog hquiet hpause hprompts
  · cases h
    exact ⟨m', by rw [if_pos hlog, if_pos hquiet], hb⟩
  · cases h
    exact ⟨m'.emit _, by rw [if_pos hlog, if_neg hquiet], hb.steps, hb.prompts⟩
  · cases h
  · cases h
    have hprompts' : ¬ s.prompts.any (· ≤ m'.prompts) = true := by
      have hle := hb.prompts
      cases hp : s.prompts with
      | none => simp
      | some k =>
        simp only [hp, Option.any_some, decide_eq_true_eq] at hprompts ⊢
        omega
    exact ⟨({ m' with prompts := m'.prompts + 1 } : Meter).emit .prompt,
      by rw [if_neg hlog, if_pos hpause, if_neg hprompts'],
      hb.steps, Nat.succ_le_succ hb.prompts⟩
  · cases h

/-- Commands that succeed do so on every meter below, which stays below. -/
theorem executeAll_below : ∀ {cs : List Command} {m' m m₁ : Meter}, m'.Below m →
    s.executeAll cs m = (m₁, none) → ∃ m₁', s.executeAll cs m' = (m₁', none) ∧ m₁'.Below m₁
  | [], m', m, m₁, hb, h => by
    cases h
    exact ⟨m', rfl, hb⟩
  | c :: cs, m', m, m₁, hb, h => by
    rw [executeAll] at h
    rcases hc : s.execute c m with ⟨m₂, _ | e⟩
    · rw [hc] at h
      obtain ⟨m₂', hc', hb₂⟩ := execute_below hb hc
      obtain ⟨m₁', h', hb₁⟩ := executeAll_below hb₂ h
      exact ⟨m₁', by rw [executeAll, hc']; exact h', hb₁⟩
    · rw [hc] at h
      cases h

/-- Where a step succeeds, nothing keeps the run that stops from the transition, with a meter
below. -/
theorem step_stopping {exploring : Bool} {token : Token} {b : Branch} {m' m m₁ : Meter}
    {o : Outcome} (hb : m'.Below m) (h : s.step exploring token b m = (m₁, .ok o)) :
    ∃ m₂ m₂', s.proceed exploring token b m₂ = (m₁, .ok o) ∧ m₂'.Below m₂ ∧
      s.stopping.step exploring token b m' = s.stopping.proceed exploring token b m₂' := by
  obtain ⟨hlt, hfault, m₂, hx, hp⟩ := step_ok h
  have hb' : Meter.Below { m' with steps := m'.steps + 1 } { m with steps := m.steps + 1 } :=
    ⟨Nat.succ_le_succ hb.steps, hb.prompts⟩
  obtain ⟨m₂', hx', hb₂⟩ := executeAll_below hb' hx
  refine ⟨m₂, m₂', hp, hb₂, ?_⟩
  refine step_eq_proceed (s := s.stopping) (Nat.lt_of_le_of_lt hb.steps hlt) hfault ?_
  rw [executeAll_congr (s := s.stopping) (t := s) rfl rfl]
  exact hx'

theorem halts_stopping (state : Ref) : s.stopping.halts state = s.program.accepts state := by
  simp [halts, stopping]

/-- At an accept state the run that stops concludes the branch. -/
theorem step_stopping_of_accepts {exploring : Bool} {token : Token} {b : Branch} {m' m m₁ : Meter}
    {o : Outcome} (hacc : s.program.accepts b.state = true) (hb : m'.Below m)
    (h : s.step exploring token b m = (m₁, .ok o)) :
    ∃ m₁', s.stopping.step exploring token b m' = (m₁', .ok (.ended (b.conclude true))) ∧
      m₁'.Below m₁ := by
  obtain ⟨m₂, m₂', hp, hb₂, hstep⟩ := step_stopping hb h
  have hgrows := (proceed_grows (s := s) exploring token b m₂).1
  rw [hp] at hgrows
  rw [proceed_halts ((halts_stopping _).trans hacc)] at hstep
  exact ⟨m₂', hstep, hb₂.grows hgrows⟩

/-- Elsewhere it does the same in rounds. -/
theorem step_stopping_spreads {exploring : Bool} {token : Token} {b : Branch} {m' m m₁ : Meter}
    {o : Outcome} (hm : s.program.mode = .nfa) (hacc : s.program.accepts b.state = false)
    (hstuck : b.isStuck = false) (hb : m'.Below m)
    (h : s.step exploring token b m = (m₁, .ok o)) :
    o = .spread b (s.spawns token b) ∧
      ∃ m₁', s.stopping.step exploring token b m' = (m₁', .ok o) ∧ m₁'.Below m₁ := by
  obtain ⟨m₂, m₂', hp, hb₂, hstep⟩ := step_stopping hb h
  have hmarked : s.marked exploring b = b := by simp [marked, hacc]
  rw [proceed_spreads hm (by simp [halts, hacc]) hstuck, hmarked] at hp
  rw [proceed_spreads (s := s.stopping) hm ((halts_stopping _).trans hacc) hstuck] at hstep
  cases hp
  exact ⟨rfl, m₂', hstep.trans (by rw [show s.stopping.marked exploring b = b from hmarked]; rfl),
    hb₂⟩

/-! ### Visits -/

theorem tryTokens_stopping {exploring : Bool} (hm : s.program.mode = .nfa) :
    ∀ {tokens : List Token} {b : Branch} {m' m m₁ : Meter} {v : Visit},
      s.program.accepts b.state = false → b.isStuck = false → b.terminated = false →
      m'.Below m → s.tryTokens exploring tokens b m = (m₁, v) → v.stop = none →
      ∃ m₁', s.stopping.tryTokens exploring tokens b m' = (m₁', v) ∧ m₁'.Below m₁
  | [], b, m', m, m₁, v, _, _, _, hb, h, _ => by
    cases h
    exact ⟨m', rfl, hb⟩
  | token :: rest, b, m', m, m₁, v, hacc, hstuck, hl, hb, h, hv => by
    rw [tryTokens] at h ⊢
    rcases hs : s.step exploring token b m with ⟨m₂, e | o⟩
    · rw [hs] at h
      cases h
      cases hv
    · obtain ⟨rfl, m₂', hs', hb₂⟩ := step_stopping_spreads hm hacc hstuck hb hs
      rw [hs] at h
      rw [hs']
      simp only [Outcome.branch, Outcome.children, hl, Bool.false_eq_true, if_false] at h ⊢
      rcases hr : s.tryTokens exploring rest b m₂ with ⟨m₃, w⟩
      rw [hr] at h
      cases h
      obtain ⟨m₃', hr', hb₃⟩ := tryTokens_stopping hm hacc hstuck hl hb₂ hr hv
      exact ⟨m₃', by rw [hr'], hb₃⟩

/-- At an accept state the run that stops tries one token. -/
theorem tryTokens_stopping_of_accepts {exploring : Bool} {token : Token} {rest : List Token}
    {b : Branch} {m' m m₁ : Meter} {v : Visit} (hacc : s.program.accepts b.state = true)
    (hb : m'.Below m) (h : s.tryTokens exploring (token :: rest) b m = (m₁, v))
    (hv : v.stop = none) : ∃ m₁', s.stopping.tryTokens exploring (token :: rest) b m' =
      (m₁', ⟨b.conclude true, [], none⟩) ∧ m₁'.Below m₁ := by
  have hgrows := (leads_tryTokens_cons (s := s) exploring token rest b m).grows
  rw [h] at hgrows
  rw [tryTokens] at h ⊢
  rcases hs : s.step exploring token b m with ⟨m₂, e | o⟩
  · rw [hs] at h
    cases h
    cases hv
  · rw [hs] at hgrows
    obtain ⟨m₂', hs', hb₂⟩ := step_stopping_of_accepts hacc hb hs
    exact ⟨m₂', by rw [hs']; rfl, hb₂.grows hgrows⟩

/-- **What the run that stops does in a visit**: it closes the branch, and starts the same ones
unless it stands at an accept state. -/
theorem visit_stopping {offer : Offer} {b : Branch} {m' m m₁ : Meter} {v : Visit}
    (hm : s.program.mode = .nfa) (ha : s.options.stopOnAccept = false) (hlive : b.isLive = true)
    (hb : m'.Below m) (h : s.visit offer b m = (m₁, v)) (hv : v.stop = none) :
    ∃ m₁', s.stopping.visit offer b m' =
        (m₁', ⟨s.close b, if s.program.accepts b.state then [] else v.children, none⟩) ∧
      m₁'.Below m₁ := by
  obtain ⟨haccepted, hterminated⟩ := Branch.isLive_iff.mp hlive
  cases hstuck : b.isStuck with
  | true =>
    rw [visit_stuck hstuck] at h ⊢
    cases h
    exact ⟨m', by rw [close_of_stuck hlive hstuck, ite_self], hb⟩
  | false =>
    obtain ⟨hbranch, -⟩ := visit_ok hm (halts_of_goes_on ha _) hterminated h hv
    rw [visit, hstuck, if_neg (by simp)] at h ⊢
    cases hacc : s.program.accepts b.state with
    | true =>
      obtain ⟨token, rest, ht⟩ :=
        List.exists_cons_of_ne_nil (Offer.tokens_ne_nil offer s.program b.state)
      rw [ht] at h
      rw [show offer.tokens s.stopping.program b.state = _ from ht, close, hacc]
      exact tryTokens_stopping_of_accepts hacc hb h hv
    | false =>
      have hclose : v.branch = s.close b := by
        rw [hbranch, visited, marked, hacc, close, hacc]
        simp [Branch.terminate, Branch.conclude, haccepted]
      obtain ⟨m₁', h', hb₁⟩ := tryTokens_stopping hm hacc hstuck hterminated hb h hv
      refine ⟨m₁', ?_, hb₁⟩
      rw [← hclose, ← hv]
      exact h'

/-! ### Rounds -/

/-- A branch under way: it is live, and its state is where its path ends. -/
structure UnderWay (s : Simulator) (b : Branch) : Prop where
  live : b.isLive = true
  state : s.program.endOf b.path = b.state

/-- The branches whose paths are kept. -/
def kept (s : Simulator) (bs : List Branch) : List Branch :=
  bs.filter fun b => s.program.keeps b.path

theorem kept_append (bs cs : List Branch) : s.kept (bs ++ cs) = s.kept bs ++ s.kept cs :=
  List.filter_append ..

theorem mem_offspring {offer : Offer} {b c : Branch} (h : c ∈ s.offspring offer b) :
    ∃ e, c = b.spawn e := by
  unfold offspring at h
  split_ifs at h
  · cases h
  · obtain ⟨token, -, h⟩ := List.mem_flatMap.mp h
    obtain ⟨destination, -, rfl⟩ := List.mem_map.mp h
    exact ⟨_, rfl⟩

theorem UnderWay.spawn (b : Branch) (e : Event) : s.UnderWay (b.spawn e) := by
  refine ⟨b.isLive_spawn e, ?_⟩
  rw [Branch.path_spawn, Program.endOf_append]
  rfl

theorem UnderWay.offspring {offer : Offer} {b c : Branch} (h : c ∈ s.offspring offer b) :
    s.UnderWay c := by
  obtain ⟨e, rfl⟩ := mem_offspring h
  exact .spawn b e

/-- The branches started from a branch are kept if it is kept itself and stands at no accept
state. -/
theorem kept_offspring {offer : Offer} {b : Branch} (hb : s.UnderWay b) :
    s.kept (s.offspring offer b) =
      if s.program.keeps b.path && !s.program.accepts b.state then s.offspring offer b else [] := by
  have hkeeps : ∀ c ∈ s.offspring offer b, s.program.keeps c.path =
      (s.program.keeps b.path && !s.program.accepts b.state) := fun c hc => by
    obtain ⟨e, rfl⟩ := mem_offspring hc
    rw [Branch.path_spawn, Program.keeps_append, Program.acceptsPath, hb.state]
  rw [kept, List.filter_congr hkeeps]
  split_ifs with h <;> simp [h]

theorem close_of_place {b c : Branch} (h : b.place = c.place) : s.close b = s.close c := by
  obtain ⟨state, trail, position, _, _⟩ := b
  obtain ⟨state', trail', position', _, _⟩ := c
  simp only [Branch.place, Branch.path, Prod.mk.injEq, List.reverse_inj] at h
  obtain ⟨rfl, rfl, rfl⟩ := h
  rfl

/-- The round of the run that stops beside the other one's: it has visited the kept branches and
closed them, and has started the kept ones. -/
structure Prunes (s : Simulator) (r r' : Round) : Prop where
  visited : r'.visited.toList = (s.kept r.visited.toList).map s.close
  started : r'.started.toList = s.kept r.started.toList
  stop : r'.stop = none

theorem visitAll_stopping {offer : Offer} (hm : s.program.mode = .nfa)
    (ha : s.options.stopOnAccept = false) : ∀ {frontier : List Branch} {r r' r₁ : Round}
      {m' m m₁ : Meter}, (∀ b ∈ frontier, s.UnderWay b) → s.Prunes r r' → m'.Below m →
      s.visitAll offer frontier r m = (m₁, r₁) → r₁.stop = none →
      ∃ m₁' r₁', s.stopping.visitAll offer (s.kept frontier) r' m' = (m₁', r₁') ∧
        s.Prunes r₁ r₁' ∧ m₁'.Below m₁
  | [], r, r', r₁, m', m, m₁, _, hr, hb, h, _ => by
    cases h
    exact ⟨m', r', rfl, hr, hb⟩
  | b :: rest, r, r', r₁, m', m, m₁, hway, hr, hb, h, hstop => by
    have hbway := hway b (by simp)
    have hrest : ∀ c ∈ rest, s.UnderWay c := fun c hc => hway c (List.mem_cons_of_mem _ hc)
    have hplace := place_visit hm offer b m
    have hgrows := (leads_visit (s := s) offer b m).grows
    rw [visitAll] at h
    rcases hv : s.visit offer b m with ⟨m₂, v⟩
    rw [hv] at h hplace hgrows
    cases hs : v.stop with
    | some e =>
      simp only [hs] at h
      cases h
      cases hstop
    | none =>
      simp only [hs] at h
      obtain ⟨-, hchildren, -⟩ :=
        visit_ok hm (halts_of_goes_on ha _) (Branch.isLive_iff.mp hbway.live).2 hv hs
      have hpath : v.branch.path = b.path := congrArg (fun p => p.2.1) hplace
      cases hk : s.program.keeps b.path with
      | false =>
        -- the branch was pruned before, and so are those it starts
        have hnone : s.kept v.children = [] := by rw [hchildren, kept_offspring hbway, hk]; rfl
        have hr₂ : s.Prunes ⟨r.visited.push v.branch, r.started ++ v.children, none⟩ r' := by
          refine ⟨?_, ?_, hr.stop⟩
          · simp [hr.visited, kept, hpath, hk]
          · simp [hr.started, kept_append, hnone]
        have hskip : s.kept (b :: rest) = s.kept rest := by simp [kept, hk]
        rw [hskip]
        exact visitAll_stopping hm ha hrest hr₂ (hb.grows hgrows) h hstop
      | true =>
        obtain ⟨m₂', hv', hb₂⟩ := visit_stopping hm ha hbway.live hb hv hs
        have hr₂ : s.Prunes ⟨r.visited.push v.branch, r.started ++ v.children, none⟩
            ⟨r'.visited.push (s.close b),
              r'.started ++ if s.program.accepts b.state then [] else v.children, none⟩ := by
          refine ⟨?_, ?_, rfl⟩
          · simp [hr.visited, kept, hpath, hk, close_of_place hplace]
          · simp only [Array.toList_appendList, hr.started, kept_append]
            rw [hchildren, kept_offspring hbway, hk]
            cases s.program.accepts b.state <;> rfl
        have hnext : s.kept (b :: rest) = b :: s.kept rest := by simp [kept, hk]
        obtain ⟨m₁', r₁', h', hr₁, hb₁⟩ := visitAll_stopping hm ha hrest hr₂ hb₂ h hstop
        refine ⟨m₁', r₁', ?_, hr₁, hb₁⟩
        rw [hnext, visitAll, hv']
        exact h'

/-- **What the run that stops does in a round.** -/
theorem round_stopping {offer : Offer} {frontier frontier' : Array Branch} {r : Round}
    {m' m m₁ : Meter} (hm : s.program.mode = .nfa) (ha : s.options.stopOnAccept = false)
    (hway : ∀ b ∈ frontier.toList, s.UnderWay b) (hf : frontier'.toList = s.kept frontier.toList)
    (hb : m'.Below m) (h : s.round offer frontier m = (m₁, r)) (hr : r.stop = none) :
    ∃ m₁' r', s.stopping.round offer frontier' m' = (m₁', r') ∧ s.Prunes r r' ∧ m₁'.Below m₁ := by
  rw [round, hf]
  exact visitAll_stopping hm ha hway ⟨rfl, rfl, rfl⟩ hb h hr

/-! ### Runs in rounds -/

theorem kept_map_close (bs : List Branch) : s.kept (bs.map s.close) = (s.kept bs).map s.close := by
  rw [kept, List.filter_map]
  rfl

/-- **The course of the run that stops**: it has the kept branches, closed, and ends normally with
no more steps. -/
theorem Course.stopping {input : Option (List Token)} {before frontier : Array Branch} {m : Meter}
    {run : Run} (hm : s.program.mode = .nfa) (ha : s.options.stopOnAccept = false)
    (h : s.Course input before frontier m run) : run.stop = none →
      (∀ b ∈ frontier.toList, s.UnderWay b) → ∀ {before' frontier' : Array Branch} {m' : Meter},
      before'.toList = (s.kept before.toList).map s.close →
      frontier'.toList = s.kept frontier.toList → m'.Below m →
      ∃ run', s.stopping.Course input before' frontier' m' run' ∧ run'.stop = none ∧
        run'.branches.toList = (s.kept run.branches.toList).map s.close ∧
        run'.meter.steps ≤ run.meter.steps := by
  induction h with
  | settled before frontier m =>
    intro _ hway before' frontier' m' hbefore hfrontier hb
    refine ⟨_, .settled before' frontier' m', rfl, ?_, hb.steps⟩
    have hlive : ∀ b ∈ frontier'.toList, b.isLive = true := fun b hmem =>
      (hway b (List.mem_of_mem_filter (hfrontier ▸ hmem))).live
    have hsettled := settleAll_of_live (s := s.stopping) hlive
    have hsettled' := settleAll_of_live (s := s) fun b hmem => (hway b hmem).live
    have hclose : s.close ∘ s.close = s.close := rfl
    rw [Array.toList_append, Array.toList_append, hsettled, hsettled', hbefore, hfrontier,
      kept_append, kept_map_close, List.map_append, List.map_map, hclose]
    rfl
  | ended before m =>
    intro _ _ before' frontier' m' hbefore hfrontier hb
    obtain rfl : frontier' = #[] := Array.toList_inj.mp hfrontier
    exact ⟨_, .ended before' m', rfl, hbefore, hb.steps⟩
  | stopped => intro hstop; cases hstop
  | @next _ _ offer before frontier m m₁ r run hn hr hs _ ih =>
    intro hstop hway before' frontier' m' hbefore hfrontier hb
    obtain ⟨m₁', r', hr', hprunes, hb₁⟩ := round_stopping hm ha hway hfrontier hb hr hs
    have hterminated : ∀ b ∈ frontier.toList, b.terminated = false := fun b hmem =>
      (Branch.isLive_iff.mp (hway b hmem).live).2
    obtain ⟨-, hstarted, -⟩ := round_ok hm ha hterminated hr hs
    have hway' : ∀ b ∈ r.started.toList, s.UnderWay b := fun b hmem => by
      rw [hstarted] at hmem
      obtain ⟨c, -, hc⟩ := List.mem_flatMap.mp hmem
      exact UnderWay.offspring hc
    have hbefore' : (before' ++ r'.visited).toList =
        (s.kept (before ++ r.visited).toList).map s.close := by
      simp [hbefore, hprunes.visited, kept_append]
    obtain ⟨run', hcourse, hrest⟩ := ih hstop hway' hbefore' hprunes.started hb₁
    exact ⟨run', .next hn hr' hprunes.stop hcourse, hrest⟩

/-! ### Walks -/

/-- Where a branch does not stand at an accept state, the run that stops takes the same step. -/
theorem step_stopping_of_not_accepts {exploring : Bool} {token : Token} {b : Branch}
    (hacc : s.program.accepts b.state = false) (m : Meter) :
    s.stopping.step exploring token b m = s.step exploring token b m := by
  have hproceed : ∀ m, s.stopping.proceed exploring token b m = s.proceed exploring token b m := by
    intro m
    unfold proceed
    split
    · rfl
    · rw [show s.stopping.program.accepts b.state = _ from hacc, hacc]
      rfl
  rw [step_eq, step_eq, act, act, executeAll_congr (s := s.stopping) (t := s) rfl rfl]
  simp only [hproceed]
  rfl

/-- **The walk that stops** ends with the first prefix of the path that ends in an accept state. -/
theorem walk_stopping (hm : s.program.mode = .dfa) (ha : s.options.stopOnAccept = false) :
    ∀ {tokens : List Token} {b b₁ : Branch} {m m₁ : Meter}, s.UnderWay b →
      s.program.keeps b.path = true → s.walk tokens b m = (m₁, b₁, none) →
      ∃ m₂ b₂, s.stopping.walk tokens b m = (m₂, b₂, none) ∧ m₂.steps ≤ m₁.steps ∧
        b₂.path = (s.program.firstAccepted? b₁.path).getD b₁.path ∧
        s.settle b₂ = s.close b₂
  | [], b, b₁, m, m₁, hway, hk, hw => by
    cases hw
    exact ⟨m, b, rfl, Nat.le_refl _, (Program.getD_firstAccepted? hk).symm,
      settle_of_live hway.live⟩
  | token :: rest, b, b₁, m, m₁, hway, hk, hw => by
    have hgrows := (leads_walk_cons (s := s) hway.live token rest m).grows
    have hprefix := path_walk hm (token :: rest) b m
    rw [hw] at hgrows hprefix
    rw [walk_cons_of_live hway.live] at hw ⊢
    rcases hs : s.step false token b m with ⟨m₃, e | o⟩
    · rw [hs] at hw
      cases hw
    rw [hs] at hgrows hw
    cases hacc : s.program.accepts b.state with
    | true =>
      obtain ⟨m₂, hs', hb⟩ := step_stopping_of_accepts hacc (.refl m) hs
      have hfirst : s.program.firstAccepted? b₁.path = some b.path :=
        Program.firstAccepted?_of_prefix hk (by rw [Program.acceptsPath, hway.state, hacc]) hprefix
      rw [hs']
      refine ⟨m₂, b.conclude true, walk_of_not_live (b.isLive_conclude true) _ _,
        Nat.le_trans hb.steps hgrows.steps, by rw [hfirst]; rfl, ?_⟩
      rw [settle_of_terminated rfl, close, show (b.conclude true).state = b.state from rfl, hacc]
      rfl
    | false =>
      rw [step_stopping_of_not_accepts hacc, hs]
      rcases step_moves hm hs with ⟨hstuck, rfl⟩ | ⟨hhalt, -⟩ | ⟨-, -, d, -, rfl⟩
      · dsimp only [Outcome.branch] at hw ⊢
        rw [walk_of_not_live b.isLive_terminate] at hw ⊢
        cases hw
        refine ⟨m₁, b.terminate, rfl, Nat.le_refl _, (Program.getD_firstAccepted? hk).symm, ?_⟩
        rw [settle_of_terminated rfl, ← close_of_stuck hway.live hstuck]
        rfl
      · rw [halts, hacc] at hhalt
        cases hhalt
      · dsimp only [Outcome.branch] at hw ⊢
        rw [Branch.advance_of_live hway.live] at hw ⊢
        refine walk_stopping hm ha (.spawn b _) ?_ hw
        rw [Branch.path_spawn, Program.keeps_append, hk, Program.acceptsPath, hway.state, hacc]
        rfl

/-! ### Runs -/

/-- **Stopping at accept states prunes a run and changes nothing else.** If a run ends normally that
goes on at accept states then so does the one that stops there, with no more steps. It has exactly
the branches of the other one no proper prefix of whose path ends in an accept state, in the same
order; in deterministic mode its path is the shortest prefix that ends in an accept state, or all of
it. Its branches are accepted where they stand at an accept state. -/
theorem run_stopping (ha : s.options.stopOnAccept = false) {input : Option (List Token)}
    (hstop : (s.run input).stop = none) :
    (s.stopping.run input).stop = none ∧
      (s.program.mode = .nfa → (s.stopping.run input).branches.toList =
        ((s.run input).branches.toList.filter fun b => s.program.keeps b.path).map s.close) ∧
      (s.program.mode = .dfa → ∃ b b', (s.run input).branches = #[b] ∧
        (s.stopping.run input).branches = #[b'] ∧
        b'.path = (s.program.firstAccepted? b.path).getD b.path) ∧
      (∀ b ∈ (s.stopping.run input).branches, b.accepted = s.program.accepts b.state) ∧
      (s.stopping.run input).meter.steps ≤ (s.run input).meter.steps := by
  cases hm : s.program.mode with
  | nfa =>
    have hway : ∀ b ∈ #[Branch.start (.named s.program.start)].toList, s.UnderWay b := by
      intro b hb
      obtain rfl := List.mem_singleton.mp hb
      exact ⟨rfl, rfl⟩
    obtain ⟨run', hcourse, hstop', hbranches, hsteps⟩ :=
      (course_run hm input).stopping hm ha hstop hway (rfl : (#[] : Array Branch).toList = _)
        (rfl : #[Branch.start (.named s.program.start)].toList = _) (.refl {})
    obtain rfl := hcourse.unique (course_run (s := s.stopping) hm input)
    refine ⟨hstop', fun _ => hbranches, by simp, fun b hb => ?_, hsteps⟩
    rw [← Array.mem_toList_iff, hbranches] at hb
    obtain ⟨c, -, rfl⟩ := List.mem_map.mp hb
    rfl
  | dfa =>
    cases input with
    | none => simp [run, runFrom, hm, runDeterministic] at hstop
    | some word =>
      rcases hw : s.walk word (.start (.named s.program.start)) {} with ⟨m, b, stop⟩
      have hrun := run_of_walk hm hw
      rw [hrun] at hstop
      dsimp only at hstop
      subst hstop
      obtain ⟨m₂, b₂, hw', hsteps, hpath, hclose⟩ := walk_stopping hm ha ⟨rfl, rfl⟩ rfl hw
      have hrun' := run_of_walk (s := s.stopping) hm hw'
      rw [hrun, hrun']
      refine ⟨rfl, by simp, fun _ => ⟨_, _, rfl, rfl, ?_⟩, ?_, hsteps⟩
      · show (s.settle b₂).path =
          (s.program.firstAccepted? (s.settle b).path).getD (s.settle b).path
        rw [path_settle, path_settle, hpath]
      · intro c hc
        obtain rfl : c = s.settle b₂ := Array.mem_singleton.mp hc
        rw [hclose]
        rfl

/-- A program with a cycle through an accept state, and a way from there to another one. -/
def looping : Simulator where
  program :=
    { alphabet := ["x"]
      states := Dict.ofList
        [("a", Dict.ofList [(.named "x", Dict.ofList [(.named "a", 1), (.named "b", 1)])]),
          ("b", Dict.ofList [(.named "x", Dict.ofList [(.named "a", 1), (.named "c", 1)])]),
          ("c", ∅)]
      start := "a"
      accept := ["b", "c"]
      mode := .nfa
      commands := ∅
      vars := ∅ }

/-- Of fourteen branches the seven are kept that come to `b` at their ends or not at all. -/
theorem run_stopping_looping :
    looping.options.stopOnAccept = false ∧
      (looping.run (some (List.replicate 3 (.named "x")))).stop = none ∧
      (looping.stopping.run (some (List.replicate 3 (.named "x")))).stop = none ∧
      (looping.stopping.run (some (List.replicate 3 (.named "x")))).branches.toList =
        ((looping.run (some (List.replicate 3 (.named "x")))).branches.toList.filter
          fun b => looping.program.keeps b.path).map looping.close ∧
      (looping.run (some (List.replicate 3 (.named "x")))).branches.size = 14 ∧
      (looping.stopping.run (some (List.replicate 3 (.named "x")))).branches.size = 7 := by
  have hstop : (looping.run (some (List.replicate 3 (.named "x")))).stop = none := by
    decide +kernel
  obtain ⟨hends, hbranches, -⟩ := run_stopping (s := looping) rfl hstop
  exact ⟨rfl, hstop, hends, hbranches rfl, by decide +kernel, by decide +kernel⟩

end Simulator

end FiniteAutomata
