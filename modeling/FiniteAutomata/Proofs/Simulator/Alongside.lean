import FiniteAutomata.Proofs.Simulator.Course

/-! # Simulators side by side

Two simulators of the same states may differ in what stops their steps. Let every step of the second
one do what the same step of the first one does, perhaps reporting a stop in other words, or go on
where the first one trips over something that it alone minds (`Alongside.steps`). Then the same is
so for every part of their runs (`Abreast`), from steps to walks, visits, rounds and courses: the
second run is the first one, or the first one has tripped and the second one has gone its way and
perhaps further (`Alongside.run`). What is compared, and what is known of the meters where the first
run has tripped, is left open (`Comparison`). -/

namespace FiniteAutomata.Simulator

variable {s t : Simulator}

/-- What a run has explored stands first in what another one has explored: along their one way in
deterministic mode, else branch by branch. -/
def Precedes (mode : Mode) (r r' : Run) : Prop :=
  match mode with
  | .dfa => ∃ b b', r.branches = #[b] ∧ r'.branches = #[b'] ∧ b.path <+: b'.path
  | .nfa => r.places <+: r'.places

/-! ### What is compared -/

/-- How two simulators are compared: how the second one reports a stop of the first one, over which
stops the first one trips, what is then known of the two meters, and at which meters steps are
compared. -/
structure Comparison where
  report : Stop → Stop
  Trips : Stop → Prop
  Behind : Stop → Meter → Meter → Prop
  Within : Meter → Prop

/-- A kind of parts of a run: what has stopped a part, the part with its stop in other words, and
when one part has come less far than another one. -/
structure Part (α : Type) where
  stop : α → Option Stop
  relabel : (Stop → Stop) → α → α
  Earlier : α → α → Prop

namespace Part

/-- What steps come to. -/
def step : Part (Except Stop Outcome) where
  stop
    | .error e => some e
    | .ok _ => none
  relabel f r := r.mapError f
  Earlier _ _ := True

/-- Walks: a branch and why it stopped. -/
def walk : Part (Branch × Option Stop) where
  stop := Prod.snd
  relabel f w := (w.1, w.2.map f)
  Earlier w w' := w.1.path <+: w'.1.path

/-- Visits. -/
def visit : Part Visit where
  stop := Visit.stop
  relabel f v := { v with stop := v.stop.map f }
  Earlier v v' := v.children <+: v'.children

/-- Rounds. -/
def round : Part Round where
  stop := Round.stop
  relabel f r := { r with stop := r.stop.map f }
  Earlier r r' := r.started.toList <+: r'.started.toList

/-- Runs in a mode. -/
def run (mode : Mode) : Part Run where
  stop := Run.stop
  relabel f r := { r with stop := r.stop.map f }
  Earlier := Precedes mode

end Part

/-- How a part of the first run compares with the same part of the second one: they are the same but
for the words in which a stop is reported, or the first one has tripped. -/
inductive Abreast {α : Type} (c : Comparison) (k : Part α) (p p' : Meter × α) : Prop
  | together (same : p' = (p.1, k.relabel c.report p.2))
      (free : ∀ e, k.stop p.2 = some e → ¬ c.Trips e)
  | tripped {e : Stop} (stopped : k.stop p.2 = some e) (trips : c.Trips e)
      (behind : c.Behind e p.1 p'.1) (earlier : k.Earlier p.2 p'.2)

/-- Two simulators of the same states whose steps compare, at all meters that the first one comes
to. What is known of the meters where it has tripped stays so when the second one goes on. -/
structure Alongside (c : Comparison) (s t : Simulator) : Prop where
  mode : t.program.mode = s.program.mode
  start : t.program.start = s.program.start
  accepts : t.program.accepts = s.program.accepts
  tokens : ∀ state, (t.program.table state).keys = (s.program.table state).keys
  missing : c.report .missingInput = .missingInput ∧ ¬ c.Trips .missingInput
  empty : c.Within {}
  stays : ∀ {m m'}, c.Within m → s.Leads m m' → c.Within m'
  later : ∀ {e m m' m''}, c.Behind e m m' → m'.Grows m'' → c.Behind e m m''
  steps : ∀ exploring token b {m}, c.Within m →
    Abreast c .step (s.step exploring token b m) (t.step exploring token b m)

variable {c : Comparison}

/-! ### Walks -/

theorem Alongside.walk (h : Alongside c s t) (hm : s.program.mode = .dfa) :
    ∀ (tokens : List Token) (b : Branch) {m : Meter}, c.Within m →
      Abreast c .walk (s.walk tokens b m) (t.walk tokens b m)
  | [], b, m, _ => .together rfl (by simp [Part.walk, Simulator.walk])
  | token :: rest, b, m, hin => by
    cases hb : b.isLive with
    | false =>
      rw [walk_of_not_live hb, walk_of_not_live hb]
      exact .together rfl (by simp [Part.walk])
    | true =>
      have hstays := h.stays hin (leads_step false token b m)
      rcases h.steps false token b hin with ⟨hsame, hfree⟩ | ⟨hstop, htrips, hbehind, -⟩
      · rw [walk_cons_of_live hb, walk_cons_of_live hb, hsame]
        rcases hs : s.step false token b m with ⟨m₁, e | o⟩
        · rw [hs] at hfree
          exact .together rfl hfree
        · rw [hs] at hstays
          exact h.walk hm rest o.branch hstays
      · have hgrows := (leads_walk_cons (s := t) hb token rest m).grows
        have hpath := path_walk (s := t) (h.mode.trans hm) (token :: rest) b m
        rw [walk_cons_of_live (s := s) hb]
        rcases hs : s.step false token b m with ⟨m₁, e | o⟩
        · rw [hs] at hstop hbehind
          exact .tripped hstop htrips (h.later hbehind hgrows) hpath
        · rw [hs] at hstop
          cases hstop

/-! ### Rounds -/

theorem Alongside.tryTokens (h : Alongside c s t) (exploring : Bool) :
    ∀ (tokens : List Token) (b : Branch) {m : Meter}, c.Within m →
      Abreast c .visit (s.tryTokens exploring tokens b m) (t.tryTokens exploring tokens b m)
  | [], b, m, _ => .together rfl (by simp [Part.visit, Simulator.tryTokens])
  | token :: rest, b, m, hin => by
    have hstays := h.stays hin (leads_step exploring token b m)
    rcases h.steps exploring token b hin with ⟨hsame, hfree⟩ | ⟨hstop, htrips, hbehind, -⟩
    · rw [Simulator.tryTokens, Simulator.tryTokens, hsame]
      rcases hs : s.step exploring token b m with ⟨m₁, e | o⟩
      · rw [hs] at hfree
        exact .together rfl hfree
      · rw [hs] at hstays
        dsimp only [Part.step, Except.mapError]
        split_ifs
        · exact .together rfl (by simp [Part.visit])
        · -- what the first token has started stands before what the others start
          rcases h.tryTokens exploring rest o.branch hstays with
            ⟨hrest, hfree⟩ | ⟨hstop, htrips, hbehind, hchildren⟩
          · rw [hrest]
            exact .together rfl hfree
          · exact .tripped hstop htrips hbehind ((List.prefix_append_right_inj _).mpr hchildren)
    · have hgrows := (leads_tryTokens_cons (s := t) exploring token rest b m).grows
      rw [Simulator.tryTokens]
      rcases hs : s.step exploring token b m with ⟨m₁, e | o⟩
      · rw [hs] at hstop hbehind
        exact .tripped hstop htrips (h.later hbehind hgrows) List.nil_prefix
      · rw [hs] at hstop
        cases hstop

/-- The tokens on offer are the same. -/
theorem Alongside.offer (h : Alongside c s t) (offer : Offer) (state : Ref) :
    offer.tokens t.program state = offer.tokens s.program state := by
  cases offer with
  | next token => rfl
  | every => simp only [Offer.tokens, h.tokens]

theorem Alongside.visit (h : Alongside c s t) (offer : Offer) (b : Branch) {m : Meter}
    (hin : c.Within m) : Abreast c .visit (s.visit offer b m) (t.visit offer b m) := by
  unfold Simulator.visit
  rw [h.offer]
  split_ifs
  · exact .together rfl (by simp [Part.visit])
  · exact h.tryTokens _ _ _ hin

theorem Alongside.visitAll (h : Alongside c s t) (offer : Offer) :
    ∀ (frontier : List Branch) (r : Round) {m : Meter}, r.stop = none → c.Within m →
      Abreast c .round (s.visitAll offer frontier r m) (t.visitAll offer frontier r m)
  | [], r, m, hr, _ => by
    obtain ⟨visited, started, stop⟩ := r
    obtain rfl : stop = none := hr
    exact .together rfl (by simp [Part.round, Simulator.visitAll])
  | b :: rest, r, m, _, hin => by
    have hstays := h.stays hin (leads_visit offer b m)
    rcases h.visit offer b hin with ⟨hsame, hfree⟩ | ⟨hstop, htrips, hbehind, hchildren⟩
    · rw [Simulator.visitAll, Simulator.visitAll, hsame]
      rcases hv : s.visit offer b m with ⟨m₁, branch, children, _ | e⟩
      · rw [hv] at hstays
        exact h.visitAll offer rest _ rfl hstays
      · rw [hv] at hfree
        exact .together rfl hfree
    · have hgrows := (leads_visitAll_cons (s := t) offer b rest r m).grows
      have hkept := started_visitAll_cons (s := t) offer b rest r m
      rw [Simulator.visitAll]
      rcases hv : s.visit offer b m with ⟨m₁, branch, children, _ | e⟩
      · rw [hv] at hstop
        cases hstop
      · rw [hv] at hstop hbehind hchildren
        refine .tripped hstop htrips (h.later hbehind hgrows) (List.IsPrefix.trans ?_ hkept)
        simpa [Part.visit] using hchildren

theorem Alongside.round (h : Alongside c s t) (offer : Offer) (frontier : Array Branch) {m : Meter}
    (hin : c.Within m) : Abreast c .round (s.round offer frontier m) (t.round offer frontier m) :=
  h.visitAll offer _ _ rfl hin

/-! ### Runs -/

theorem Alongside.settle (h : Alongside c s t) (b : Branch) : t.settle b = s.settle b := by
  rw [Simulator.settle, Simulator.settle, h.accepts]

theorem Alongside.settleAll (h : Alongside c s t) (frontier : Array Branch) :
    t.settleAll frontier = s.settleAll frontier := by
  simp only [Simulator.settleAll, h.settle]

/-- Courses compare as their rounds do. -/
theorem Alongside.course (h : Alongside c s t) (hm : s.program.mode = .nfa)
    {input : Option (List Token)} {before frontier : Array Branch} {m : Meter} {run run' : Run}
    (hs : s.Course input before frontier m run) (ht : t.Course input before frontier m run')
    (hin : c.Within m) : Abreast c (.run .nfa) (run.meter, run) (run'.meter, run') := by
  induction hs with
  | settled =>
    rw [ht.unique (.settled _ _ _), h.settleAll]
    exact .together rfl (by simp [Part.run])
  | ended =>
    rw [ht.eq_of_empty]
    exact .together rfl (by simp [Part.run])
  | @stopped _ _ offer before frontier m _ r e hn hr he =>
    have hafter := Course.after_round (s := t) (h.mode.trans hm) ht hn
    have hplaces := places_round (s := s) hm offer frontier m
    have hplaces' := places_round (s := t) (h.mode.trans hm) offer frontier m
    rcases h.round offer frontier hin with
      ⟨hsame, hfree⟩ | ⟨hstop, htrips, hbehind, hstarted⟩
    · rw [hr] at hsame hfree
      rw [ht.eq_of_stopped hn hsame (congrArg (Option.map c.report) he)]
      exact .together rfl (fun e' h' => hfree e' (he.trans h'))
    · rw [hr] at hstop hbehind hstarted hplaces
      refine .tripped (he.symm.trans hstop) htrips (h.later hbehind hafter.1.grows)
        (List.IsPrefix.trans ?_ hafter.2)
      simpa [Run.places, hplaces, hplaces', List.prefix_append_right_inj] using hstarted.map _
  | @next _ _ offer _ frontier m _ r _ hn hr he _ ih =>
    have hstays := h.stays hin (leads_round offer frontier m)
    rw [hr] at hstays
    rcases h.round offer frontier hin with ⟨hsame, -⟩ | ⟨hstop, -⟩
    · rw [hr] at hsame
      obtain ⟨visited, started, stop⟩ := r
      obtain rfl : stop = none := he
      exact ih (ht.after hn hsame rfl) hstays
    · rw [hr] at hstop
      exact absurd (he.symm.trans hstop) (by simp)

/-- **Runs compare as their steps do.** -/
theorem Alongside.run (h : Alongside c s t) (input : Option (List Token)) :
    Abreast c (.run s.program.mode) ((s.run input).meter, s.run input)
      ((t.run input).meter, t.run input) := by
  cases hm : s.program.mode with
  | nfa =>
    have hcourse := course_run (s := t) (h.mode.trans hm) input
    rw [h.start] at hcourse
    exact h.course hm (course_run hm input) hcourse h.empty
  | dfa =>
    cases input with
    | none =>
      rw [run_none_of_dfa hm, run_none_of_dfa (h.mode.trans hm)]
      obtain ⟨hreport, hfree⟩ := h.missing
      refine .together ?_ ?_
      · simp [Part.run, hreport]
      · rintro e he
        obtain rfl : Stop.missingInput = e := Option.some.inj he
        exact hfree
    | some word =>
      have hwalk := h.walk hm word (.start (.named s.program.start)) h.empty
      rcases hw : s.walk word (.start (.named s.program.start)) {} with ⟨m, b, stop⟩
      rcases hw' : t.walk word (.start (.named s.program.start)) {} with ⟨m', b', stop'⟩
      rw [run_of_walk hm hw, run_of_walk (s := t) (h.mode.trans hm) (h.start ▸ hw')]
      rw [hw, hw'] at hwalk
      rcases hwalk with ⟨hsame, hfree⟩ | ⟨hstop, htrips, hbehind, hpath⟩
      · cases hsame
        refine .together ?_ hfree
        cases stop <;> simp [Part.run, h.settle]
      · obtain rfl : stop = some _ := hstop
        refine .tripped rfl htrips hbehind ⟨b, _, rfl, rfl, ?_⟩
        split_ifs
        · rw [path_settle]
          exact hpath
        · exact hpath

end FiniteAutomata.Simulator
